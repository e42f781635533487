import SignalGraph.Analysis.DepthFirst
import SignalGraph.Proofs.Outcome

/-!
# Finished searches

A search that succeeds has put every vertex before all that it leads to.  The place of a vertex in
that order is a measure that falls along every edge, which is what recursion along the edges of a
program rests on.
-/

namespace SignalGraph
namespace DepthFirst

variable {next : Nat → List Nat}

/-- Vertices in an order, each once and after all that it leads to, latest first. -/
def Ordered (next : Nat → List Nat) : List Nat → Prop
  | [] => True
  | v :: rest => v ∉ rest ∧ next v ⊆ rest ∧ Ordered next rest

structure Extends (next : Nat → List Nat) (path closed closed' : List Nat) : Prop where
  ordered : Ordered next closed'
  keeps : closed ⊆ closed'
  /-- Open vertices stay open. -/
  fresh : ∀ u ∈ closed', u ∈ closed ∨ u ∉ path

theorem extends_refl {path closed : List Nat} (h : Ordered next closed) :
    Extends next path closed closed :=
  ⟨h, fun _ hu => hu, fun _ hu => .inl hu⟩

theorem extends_trans {path a b c : List Nat} (hab : Extends next path a b)
    (hbc : Extends next path b c) : Extends next path a c where
  ordered := hbc.ordered
  keeps := fun _ hu => hbc.keeps (hab.keeps hu)
  fresh := fun u hu => (hbc.fresh u hu).elim (hab.fresh u) .inr

/-- A fold of visits finishes all vertices it is given. -/
theorem extends_foldlM {visit : List Nat → Nat → Except Nat (List Nat)} {path : List Nat}
    (hvisit : ∀ closed closed' v, Ordered next closed → visit closed v = .ok closed' →
      Extends next path closed closed' ∧ v ∈ closed') :
    ∀ {vs closed closed' : List Nat}, Ordered next closed → vs.foldlM visit closed = .ok closed' →
      Extends next path closed closed' ∧ vs ⊆ closed'
  | [], closed, closed', hord, h => by
    cases h
    exact ⟨extends_refl hord, List.nil_subset _⟩
  | v :: vs, closed, closed', hord, h => by
    rw [List.foldlM_cons, Outcome.bind_eq_ok] at h
    obtain ⟨mid, hmid, h⟩ := h
    obtain ⟨hext, hv⟩ := hvisit closed mid v hord hmid
    obtain ⟨hrest, hvs⟩ := extends_foldlM hvisit hext.ordered h
    exact ⟨extends_trans hext hrest, List.cons_subset.mpr ⟨hrest.keeps hv, hvs⟩⟩

theorem extends_visit : ∀ (depth : Nat) (path closed closed' : List Nat) (v : Nat),
    Ordered next closed → visit next depth path closed v = .ok closed' →
    Extends next path closed closed' ∧ v ∈ closed' := by
  intro depth
  induction depth with
  | zero => exact fun path closed closed' v _ h => nomatch h
  | succ depth ih =>
    intro path closed closed' v hord h
    rw [visit] at h
    by_cases hclosed : closed.contains v
    · simp only [hclosed, if_true] at h
      cases h
      exact ⟨extends_refl hord, by simpa using hclosed⟩
    by_cases hpath : path.contains v
    · simp only [hclosed, hpath, if_true] at h
      exact nomatch h
    simp only [hclosed, hpath] at h
    obtain ⟨mid, hmid, h⟩ := Outcome.bind_eq_ok.mp h
    cases h
    obtain ⟨hext, hnext⟩ := extends_foldlM (fun a b u ha hb => ih (v :: path) a b u ha hb) hord hmid
    have hv : v ∉ mid := fun hmem =>
      (hext.fresh v hmem).elim (fun hc => hclosed (by simpa using hc))
        fun hp => hp List.mem_cons_self
    refine ⟨⟨⟨hv, hnext, hext.ordered⟩, fun u hu => List.mem_cons_of_mem v (hext.keeps hu), ?_⟩,
      List.mem_cons_self⟩
    intro u hu
    cases hu with
    | head => exact .inr (by simpa using hpath)
    | tail _ hu => exact (hext.fresh u hu).imp id fun hp hup => hp (List.mem_cons_of_mem v hup)

/-- A successful search orders its roots and all they lead to. -/
theorem ordered_of_search {bound : Nat} {roots closed : List Nat}
    (h : search next bound roots = .ok closed) : Ordered next closed ∧ roots ⊆ closed := by
  have hempty : Ordered next [] := trivial
  have hfold := extends_foldlM
    (fun a b u ha hb => extends_visit (bound + 1) [] a b u ha hb) hempty h
  exact ⟨hfold.1.ordered, hfold.2⟩

/-- The number of vertices finished before one. -/
def rank : List Nat → Nat → Nat
  | [], _ => 0
  | w :: rest, v => if w = v then rest.length else rank rest v

theorem rank_lt_length {closed : List Nat} {v : Nat} (h : v ∈ closed) :
    rank closed v < closed.length := by
  induction closed with
  | nil => exact nomatch h
  | cons w rest ih =>
    by_cases hw : w = v
    · simp [rank, hw]
    · have hv : v ∈ rest := by
        cases h with
        | head => exact absurd rfl hw
        | tail _ hv => exact hv
      simp only [rank, hw, if_false, List.length_cons]
      exact Nat.lt_succ_of_lt (ih hv)

theorem rank_of_not_mem {closed : List Nat} {v : Nat} (h : v ∉ closed) : rank closed v = 0 := by
  induction closed with
  | nil => rfl
  | cons w rest ih =>
    rw [List.mem_cons, not_or] at h
    rw [rank, if_neg (Ne.symm h.1)]
    exact ih h.2

/-- Edges lead to lower ranks. -/
theorem rank_lt_rank {closed : List Nat} (hord : Ordered next closed) {v u : Nat}
    (hv : v ∈ closed) (hu : u ∈ next v) : u ∈ closed ∧ rank closed u < rank closed v := by
  induction closed with
  | nil => exact nomatch hv
  | cons w rest ih =>
    obtain ⟨hw, hnext, hrest⟩ := hord
    have hdown : u ∈ rest → u ∈ w :: rest ∧ rank (w :: rest) u = rank rest u := fun hmem =>
      ⟨List.mem_cons_of_mem w hmem, by
        have hne : w ≠ u := fun e => hw (e ▸ hmem)
        simp [rank, hne]⟩
    by_cases hwv : w = v
    · subst hwv
      obtain ⟨hmem, hrank⟩ := hdown (hnext hu)
      rw [hrank]
      exact ⟨hmem, by simpa [rank] using rank_lt_length (hnext hu)⟩
    · have hv' : v ∈ rest := by
        cases hv with
        | head => exact absurd rfl hwv
        | tail _ hv => exact hv
      obtain ⟨hmem, hlt⟩ := ih hrest hv'
      obtain ⟨hmem', hrank⟩ := hdown hmem
      refine ⟨hmem', ?_⟩
      rw [hrank]
      simpa [rank, hwv] using hlt

theorem nodup_of_ordered {closed : List Nat} (hord : Ordered next closed) : closed.Nodup := by
  induction closed with
  | nil => exact List.nodup_nil
  | cons w rest ih => exact List.nodup_cons.mpr ⟨hord.1, ih hord.2.2⟩

/-- Numbers below a bound, each once, are no more than the bound. -/
theorem length_le_of_ordered {closed : List Nat} {bound : Nat} (hord : Ordered next closed)
    (hlt : ∀ v ∈ closed, v < bound) : closed.length ≤ bound := by
  have hsub : closed ⊆ List.range bound := fun v hv => List.mem_range.mpr (hlt v hv)
  simpa using (nodup_of_ordered hord).length_le_of_subset hsub

/-- Whatever holds of the roots and is handed on along edges holds of all finished vertices. -/
theorem visit_induct (P : Nat → Prop) (hstep : ∀ v, P v → ∀ u ∈ next v, P u) :
    ∀ (depth : Nat) (path closed closed' : List Nat) (v : Nat), P v → (∀ u ∈ closed, P u) →
      visit next depth path closed v = .ok closed' → ∀ u ∈ closed', P u := by
  intro depth
  induction depth with
  | zero => exact fun path closed closed' v _ _ h => nomatch h
  | succ depth ih =>
    intro path closed closed' v hv hclosed h
    rw [visit] at h
    split at h
    · cases h
      exact hclosed
    split at h
    · exact nomatch h
    obtain ⟨mid, hmid, h⟩ := Outcome.bind_eq_ok.mp h
    cases h
    have hall := Outcome.foldlM_induct (fun l => ∀ u ∈ l, P u) hmid hclosed
      fun u hu a b ha hb => ih (v :: path) a b u (hstep v hv u hu) ha hb
    exact fun u hu => (List.mem_cons.mp hu).elim (fun e => e ▸ hv) (hall u)

theorem search_induct (P : Nat → Prop) (hstep : ∀ v, P v → ∀ u ∈ next v, P u) {bound : Nat}
    {roots closed : List Nat} (hroots : ∀ v ∈ roots, P v)
    (h : search next bound roots = .ok closed) : ∀ v ∈ closed, P v :=
  Outcome.foldlM_induct (fun l => ∀ u ∈ l, P u) h (fun _ hu => nomatch hu)
    fun v hv a b ha hb => visit_induct P hstep (bound + 1) [] a b v (hroots v hv) ha hb

end DepthFirst
end SignalGraph
