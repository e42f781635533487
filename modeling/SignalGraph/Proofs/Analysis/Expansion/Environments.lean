import SignalGraph.Analysis.Expand
import SignalGraph.Proofs.Blocks.Catalogs

/-!
# Environments

What expansion makes of a document: in each environment every node has its block from the catalog
and a position of its own, and the number of a built-in node is its place among all built-in nodes.
-/

namespace SignalGraph
namespace Expansion

/-- Members in a row, the first of which is numbered `start` if it is built in. -/
def Numbered : NodeId → List Member → Prop
  | _, [] => True
  | start, m :: rest => m.id = start ∧ Numbered (if m.isBuiltin then start + 1 else start) rest

theorem id_of_numbered {start : NodeId} {ms : List Member} (h : Numbered start ms) {j : Nat}
    {m : Member} (hj : (ms.filter Member.isBuiltin)[j]? = some m) : m.id = start + j := by
  induction ms generalizing start j with
  | nil => exact nomatch hj
  | cons x rest ih =>
    obtain ⟨hx, hrest⟩ := h
    by_cases hb : x.isBuiltin
    · simp only [hb, if_true] at hrest
      rw [List.filter_cons_of_pos hb] at hj
      cases j with
      | zero =>
        cases hj
        exact hx
      | succ j =>
        rw [ih hrest (by simpa using hj), Nat.add_assoc, Nat.add_comm 1 j]
    · simp only [hb] at hrest
      rw [List.filter_cons_of_neg hb] at hj
      exact ih hrest hj

/-- What holds of the nodes of an environment, before which there are `start` built-in nodes. -/
structure ScopeFits (c : Catalog) (start : NodeId) (s : Scope) : Prop where
  numbered : Numbered start s.members
  positions : (s.members.map (·.decl.pos)).Nodup
  block : ∀ m ∈ s.members, c.find? m.decl.kind = some m.block

def ScopesFit (c : Catalog) (scopes : List Scope) : Prop :=
  ∀ i s, scopes[i]? = some s → ScopeFits c (builtinCount (scopes.take i)) s

variable {c : Catalog} {d : Document}

/-- What a node needs in order to become a member: a block, a graph that does not contain it if it
is a custom block, and a position that is free. -/
theorem members_cons {graph : GraphId} {enclosing : List GraphId} {id : NodeId} {seen : List Pos}
    {decl : NodeDecl} {rest : List NodeDecl} {ms : List Member}
    (h : members c d graph enclosing id seen (decl :: rest) = .ok ms) :
    ∃ block more, c.find? decl.kind = some block ∧ decl.pos ∉ seen ∧
      (∀ g, Member.graph? { decl, block, id } = some g → (d.graph? g).isSome ∧ g ∉ enclosing) ∧
      members c d graph enclosing (if Member.isBuiltin { decl, block, id } then id + 1 else id)
        (decl.pos :: seen) rest = .ok more ∧
      ms = { decl, block, id } :: more := by
  rw [members] at h
  cases hfind : c.find? decl.kind with
  | none =>
    simp only [hfind] at h
    exact nomatch h
  | some block =>
    simp only [hfind] at h
    have htail : (∀ g, Member.graph? { decl, block, id } = some g →
        (d.graph? g).isSome ∧ g ∉ enclosing) ∧ ¬seen.contains decl.pos ∧
        (members c d graph enclosing
          (if Member.isBuiltin { decl, block, id } then id + 1 else id) (decl.pos :: seen) rest >>=
            fun more => pure ({ decl, block, id } :: more)) = .ok ms := by
      split at h
      · next inner hinner =>
        obtain ⟨hknown, h⟩ := Outcome.guard_eq_ok.mp h
        obtain ⟨houtside, h⟩ := Outcome.guard_eq_ok.mp h
        refine ⟨fun g hg => ?_, Outcome.guard_eq_ok.mp h⟩
        rw [hinner] at hg
        cases hg
        exact ⟨by simpa [← Option.isSome_iff_ne_none] using hknown, by simpa using houtside⟩
      · next hnone => exact ⟨fun g hg => absurd hg (hnone g), Outcome.guard_eq_ok.mp h⟩
    obtain ⟨hknown, hseen, htail⟩ := htail
    obtain ⟨more, hmore, hms⟩ := Outcome.bind_eq_ok.mp htail
    cases hms
    exact ⟨block, more, rfl, by simpa using hseen, hknown, hmore, rfl⟩

theorem members_fit {graph : GraphId} {enclosing : List GraphId} :
    ∀ {decls : List NodeDecl} {id : NodeId} {seen : List Pos} {ms : List Member},
      members c d graph enclosing id seen decls = .ok ms →
      Numbered id ms ∧ (ms.map (·.decl.pos)).Nodup ∧ (∀ m ∈ ms, m.decl.pos ∉ seen) ∧
        ∀ m ∈ ms, c.find? m.decl.kind = some m.block
  | [], _, _, ms, h => by
    rw [members] at h
    cases h
    exact ⟨trivial, List.nodup_nil, (fun _ hm => nomatch hm), (fun _ hm => nomatch hm)⟩
  | decl :: rest, id, seen, ms, h => by
    obtain ⟨block, more, hfind, hseen, -, hmore, rfl⟩ := members_cons h
    obtain ⟨hnum, hnodup, hfree, hblock⟩ := members_fit hmore
    refine ⟨⟨rfl, hnum⟩, List.nodup_cons.mpr ⟨?_, hnodup⟩, ?_, ?_⟩
    · intro hmem
      obtain ⟨m, hm, hpos⟩ := List.mem_map.mp hmem
      exact hfree m hm (hpos ▸ List.mem_cons_self)
    · intro m hm
      cases hm with
      | head => exact hseen
      | tail _ hm => exact fun hpos => hfree m hm (List.mem_cons_of_mem _ hpos)
    · intro m hm
      cases hm with
      | head => exact hfind
      | tail _ hm => exact hblock m hm

theorem of_getElem?_snoc {α : Type} {l : List α} {a b : α} {i : Nat} (h : (l ++ [a])[i]? = some b) :
    (i < l.length ∧ l[i]? = some b) ∨ (i = l.length ∧ b = a) := by
  rcases Nat.lt_or_ge i l.length with hi | hi
  · rw [List.getElem?_append_left hi] at h
    exact .inl ⟨hi, h⟩
  · rw [List.getElem?_append_right hi] at h
    obtain ⟨hzero, hget⟩ := List.getElem?_eq_some_iff.mp h
    have heq : i - l.length = 0 := by simpa using hzero
    simp only [heq, List.getElem_cons_zero] at hget
    exact .inr ⟨by omega, hget.symm⟩

theorem scopesFit_snoc {scopes : List Scope} {s : Scope} (h : ScopesFit c scopes)
    (hs : ScopeFits c (builtinCount scopes) s) : ScopesFit c (scopes ++ [s]) := by
  intro i t ht
  rcases of_getElem?_snoc ht with ⟨hlt, ht⟩ | ⟨rfl, rfl⟩
  · rw [List.take_append_of_le_length (Nat.le_of_lt hlt)]
    exact h i t ht
  · rw [List.take_left]
    exact hs

theorem scopesFit_expandGraph : ∀ (depth : Nat) (enclosing : List GraphId) (scopes : List Scope)
    (graph : Graph) (parent : Option (EnvId × Pos)) (scopes' : List Scope),
    expandGraph c d depth enclosing scopes graph parent = .ok scopes' → ScopesFit c scopes →
      ScopesFit c scopes' := by
  intro depth
  induction depth with
  | zero => exact fun _ _ _ _ _ h _ => nomatch h
  | succ depth ih =>
    intro enclosing scopes graph parent scopes' h hfit
    rw [expandGraph] at h
    obtain ⟨ms, hms, h⟩ := Outcome.bind_eq_ok.mp h
    obtain ⟨hnum, hnodup, -, hblock⟩ := members_fit hms
    refine Outcome.foldlM_induct (ScopesFit c) h
      (scopesFit_snoc hfit ⟨hnum, hnodup, hblock⟩) ?_
    intro m _ before after hbefore hstep
    split at hstep
    · exact ih _ _ _ _ _ hstep hbefore
    · cases hstep
      exact hbefore

theorem scopesFit_ofDocument {x : Expansion} (h : ofDocument c d = .ok x) :
    ScopesFit c x.scopes := by
  unfold ofDocument at h
  obtain ⟨scopes, hscopes, h⟩ := Outcome.bind_eq_ok.mp h
  cases h
  exact scopesFit_expandGraph _ _ _ _ _ _ hscopes fun i s hi => nomatch hi

theorem getElem?_flatMap {α β : Type} {f : α → List β} :
    ∀ {l : List α} {i : Nat} {a : α} {j : Nat} {b : β}, l[i]? = some a → (f a)[j]? = some b →
      (l.flatMap f)[((l.take i).flatMap f).length + j]? = some b
  | [], _, _, _, _, hi, _ => nomatch hi
  | x :: l, 0, a, j, b, hi, hj => by
    cases hi
    have hlt : j < (f x).length := (List.getElem?_eq_some_iff.mp hj).1
    simp only [List.take_zero, List.flatMap_nil, List.length_nil, Nat.zero_add, List.flatMap_cons]
    rw [List.getElem?_append_left hlt, hj]
  | x :: l, i + 1, a, j, b, hi, hj => by
    have ih := getElem?_flatMap (f := f) (l := l) (i := i) (by simpa using hi) hj
    simp only [List.take_succ_cons, List.flatMap_cons, List.length_append]
    rw [List.getElem?_append_right (by omega)]
    rw [show (f x).length + ((l.take i).flatMap f).length + j - (f x).length =
      ((l.take i).flatMap f).length + j by omega]
    exact ih

def listed (s : Scope × EnvId) : List (EnvId × Member) :=
  (s.1.members.filter Member.isBuiltin).map (s.2, ·)

theorem length_flatMap_listed (scopes : List Scope) (first : EnvId) :
    ((scopes.zipIdx first).flatMap listed).length = builtinCount scopes := by
  induction scopes generalizing first with
  | nil => rfl
  | cons s rest ih =>
    rw [List.zipIdx_cons, List.flatMap_cons, List.length_append, ih]
    simp [listed, builtinCount, List.countP_eq_length_filter]

theorem take_zipIdx {α : Type} (l : List α) (i : Nat) :
    l.zipIdx.take i = (l.take i).zipIdx := by
  refine List.ext_getElem? fun j => ?_
  simp only [List.getElem?_take, List.getElem?_zipIdx]
  split <;> simp

variable {x : Expansion}

theorem instances_id (hfit : ScopesFit c x.scopes) {env : EnvId} {s : Scope} {m : Member}
    (hs : x.scopes[env]? = some s) (hm : m ∈ s.members) (hb : m.isBuiltin = true) :
    x.instances[m.id]? = some (env, m) := by
  obtain ⟨j, hj⟩ := List.getElem?_of_mem (List.mem_filter.mpr ⟨hm, hb⟩)
  have hid := id_of_numbered (hfit env s hs).numbered hj
  have hzip : x.scopes.zipIdx[env]? = some (s, env) := by
    simp [List.getElem?_zipIdx, hs]
  have hlisted : (listed (s, env))[j]? = some (env, m) := by simp [listed, hj]
  have hget := getElem?_flatMap (f := listed) hzip hlisted
  rw [take_zipIdx, length_flatMap_listed, ← hid] at hget
  exact hget

theorem mem_instances {env : EnvId} {m : Member} (h : (env, m) ∈ x.instances) :
    m.isBuiltin = true ∧ ∃ s, x.scopes[env]? = some s ∧ m ∈ s.members := by
  obtain ⟨⟨s, env'⟩, hs, hm⟩ := List.mem_flatMap.mp h
  obtain ⟨m', hm', heq⟩ := List.mem_map.mp hm
  cases heq
  obtain ⟨hmem, hb⟩ := List.mem_filter.mp hm'
  have hzip := List.mem_zipIdx_iff_getElem?.mp hs
  exact ⟨hb, s, hzip, hmem⟩

theorem member_eq_ok {env : EnvId} {p : Pos} {m : Member} (h : x.member env p = .ok m) :
    m.decl.pos = p ∧ ∃ s, x.scopes[env]? = some s ∧ m ∈ s.members := by
  unfold member at h
  cases hs : x.scopes[env]? with
  | none => simp [hs] at h
  | some s =>
    cases hm : s.member? p with
    | none => simp [hs, hm] at h
    | some m' =>
      simp only [hs, Option.bind_eq_bind, Option.bind_some, hm, Except.ok.injEq] at h
      subst h
      exact ⟨by simpa using List.find?_some hm, s, rfl, List.mem_of_find?_eq_some hm⟩

/-- A position leads back to the node it was taken from. -/
theorem member_pos (hfit : ScopesFit c x.scopes) {env : EnvId} {s : Scope} {m : Member}
    (hs : x.scopes[env]? = some s) (hm : m ∈ s.members) : x.member env m.decl.pos = .ok m := by
  cases hfind : s.member? m.decl.pos with
  | none =>
    have hnone := List.find?_eq_none.mp hfind m hm
    simp at hnone
  | some m' =>
    have hpos : m'.decl.pos = m.decl.pos := by simpa using List.find?_some hfind
    have heq : m' = m :=
      List.inj_on_of_nodup_map (hfit env s hs).positions (List.mem_of_find?_eq_some hfind) hm hpos
    simp [member, hs, hfind, heq]

theorem registered_of_member (hc : c.Stocked) (hfit : ScopesFit c x.scopes) {env : EnvId} {p : Pos}
    {m : Member} (h : x.member env p = .ok m) : m.block.Registered := by
  obtain ⟨-, s, hs, hm⟩ := member_eq_ok h
  exact hc.registered_find ((hfit env s hs).block m hm)

theorem placed_of_member (hc : c.Made) (hfit : ScopesFit c x.scopes) {env : EnvId} {p : Pos}
    {m : Member} (h : x.member env p = .ok m) :
    m.block.Placed ∧ (m.block.template = .inert → m.block.terminals = []) := by
  obtain ⟨-, s, hs, hm⟩ := member_eq_ok h
  exact hc.placed _ (List.mem_of_find?_eq_some ((hfit env s hs).block m hm))

end Expansion
end SignalGraph
