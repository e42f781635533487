import Mathlib.Data.List.Perm.Basic
import SignalGraph.Proofs.Analysis.EntryPoints
import SignalGraph.Proofs.Emulation.Frames
import SignalGraph.Proofs.Instrumentation.Labels.Statements

/-!
# Emitted statements

How often the code of a statement is emitted, and where.  Control comes to a statement along the
wires that lead to it, and it is emitted where the first of them does unless there are more.

Main statement: whatever branches and converges, the code of every statement stands once in a
module.  It has a function of its own if more than one control wire leads to it, and otherwise it
stands where the only one does, or in the function that runs frames if there is none.
-/

namespace SignalGraph

/-- All that is come to is what is begun with and what follows something that is come to. -/
theorem Compiler.unroll_perm {α : Type} {next : α → List α} (rank : α → Nat)
    (hfalls : ∀ a, ∀ b ∈ next a, rank b < rank a) : ∀ {depth : Nat} {as : List α},
    (∀ a ∈ as, rank a < depth) →
      (unroll next depth as).Perm (as ++ (unroll next depth as).flatMap next)
  | 0, as, h => by
    have hnil : as = [] := List.eq_nil_iff_forall_not_mem.mpr fun a ha => Nat.not_lt_zero _ (h a ha)
    rw [hnil]
    exact .refl _
  | depth + 1, as, h => by
    have hlower : ∀ a ∈ as, (unroll next depth (next a)).Perm
        ((a :: unroll next depth (next a)).flatMap next) := fun a ha =>
      unroll_perm rank hfalls fun b hb =>
        Nat.lt_of_lt_of_le (hfalls a b hb) (Nat.le_of_lt_succ (h a ha))
    have hsplit : (as.flatMap fun a => a :: unroll next depth (next a)).Perm
        (as ++ as.flatMap fun a => unroll next depth (next a)) := by
      have hperm := List.map_append_flatMap_perm as (fun a => a) fun a => unroll next depth (next a)
      rw [List.map_id'] at hperm
      exact hperm.symm
    rw [unroll, List.flatMap_assoc]
    exact hsplit.trans (.append_left as (.flatMap_left as hlower))

/-- What occurs once among the parts of all elements occurs in the part of one. -/
theorem exists_of_count_flatMap {α β : Type} [DecidableEq β] {f : α → List β} {b : β} :
    ∀ {as : List α},
    (as.flatMap f).count b = 1 → ∃ (i : Nat) (a : α), as[i]? = some a ∧ (f a).count b = 1 ∧
      ∀ (j : Nat) (a' : α), as[j]? = some a' → j ≠ i → b ∉ f a'
  | [], h => nomatch h
  | a :: as, h => by
    rw [List.flatMap_cons, List.count_append] at h
    by_cases ha : b ∈ f a
    · have hpos := List.count_pos_iff.mpr ha
      refine ⟨0, a, rfl, by omega, fun j a' hj hne hmem => ?_⟩
      obtain ⟨j, rfl⟩ := Nat.exists_eq_succ_of_ne_zero hne
      have hrest := List.count_pos_iff.mpr
        (List.mem_flatMap.mpr ⟨a', List.mem_of_getElem? (List.getElem?_cons_succ ▸ hj), hmem⟩)
      omega
    · rw [List.count_eq_zero.mpr ha, Nat.zero_add] at h
      obtain ⟨i, a', hi, hcount, honly⟩ := exists_of_count_flatMap h
      refine ⟨i + 1, a', hi, hcount, fun j b' hj hne => ?_⟩
      cases j with
      | zero =>
        cases hj
        exact ha
      | succ j => exact honly j b' hj fun heq => hne (congrArg (· + 1) heq)

theorem flatMap_pick {α β γ : Type} [DecidableEq β] (f : α → β) (b : β) (c : γ) (as : List α) :
    (as.flatMap fun a => if f a = b then [c] else []) = (as.filter (f · = b)).map fun _ => c := by
  induction as with
  | nil => rfl
  | cons a as ih =>
    rw [List.flatMap_cons, ih, List.filter_cons]
    by_cases ha : f a = b <;> simp [ha]

/-- All that a statement starts runs in a branch of it or after it. -/
theorem Node.flatten_controls (n : Node) :
    n.controls.flatten = n.controls.dropLast.flatten ++ n.after := by
  unfold Node.after
  rw [List.getLastD_eq_getLast?]
  cases hlast : n.controls.getLast? with
  | none =>
    rw [List.getLast?_eq_none_iff.mp hlast]
    rfl
  | some ids =>
    have hconcat := List.dropLast_append_getLast? ids hlast
    rw [← hconcat, List.flatten_append, List.dropLast_concat, List.flatten_singleton]
    rfl

theorem Node.count_controls (n : Node) (id : NodeId) :
    n.controls.flatten.count id = n.controls.dropLast.flatten.count id + n.after.count id := by
  rw [n.flatten_controls, List.count_append]

theorem Node.mem_inner {n : Node} {id : NodeId} (h : id ∈ n.inner.flatten) :
    id ∈ n.controls.dropLast.flatten := by
  unfold Node.inner at h
  split at h
  · exact absurd h List.not_mem_nil
  · exact h

namespace Compiler

open Wasm

/-! ## What leads to a statement -/

section

variable {p : Program} {id other : NodeId} {n : Node}

theorem leads_iff_mem :
    p.Leads other id ↔ ∃ n, p.nodes[other]? = some n ∧ id ∈ n.controls.flatten := by
  constructor
  · rintro ⟨n, ids, hn, hids, hid⟩
    exact ⟨n, hn, List.mem_flatten.mpr ⟨ids, hids, hid⟩⟩
  · rintro ⟨n, hn, hid⟩
    obtain ⟨ids, hids, hid⟩ := List.mem_flatten.mp hid
    exact ⟨n, ids, hn, hids, hid⟩

theorem predecessors_eq_zero : predecessors p id = 0 ↔ ∀ other, ¬p.Leads other id := by
  rw [predecessors, List.count_eq_zero, List.mem_flatMap]
  constructor
  · intro h other hleads
    obtain ⟨n, hn, hid⟩ := leads_iff_mem.mp hleads
    rw [← Array.getElem?_toList] at hn
    exact h ⟨n, List.mem_of_getElem? hn, hid⟩
  · rintro h ⟨n, hn, hid⟩
    obtain ⟨other, hother⟩ := List.getElem?_of_mem hn
    rw [Array.getElem?_toList] at hother
    exact h other (leads_iff_mem.mpr ⟨n, hother, hid⟩)

theorem exists_of_predecessors_eq_one (h : predecessors p id = 1) :
    ∃ j n, p.nodes[j]? = some n ∧ n.controls.flatten.count id = 1 ∧
      ∀ other, p.Leads other id → other = j := by
  obtain ⟨j, n, hn, hcount, honly⟩ := exists_of_count_flatMap h
  rw [Array.getElem?_toList] at hn
  refine ⟨j, n, hn, hcount, fun other hleads => ?_⟩
  obtain ⟨n', hn', hid⟩ := leads_iff_mem.mp hleads
  by_contra hne
  rw [← Array.getElem?_toList] at hn'
  exact honly other n' hn' hne hid

theorem contains_outlined :
    (target p).outlined.contains id = true ↔ id < p.nodes.size ∧ 1 < predecessors p id := by
  rw [List.contains_iff_mem, target, converging, List.mem_filter, List.mem_range,
    decide_eq_true_iff]

end

/-! ## Labels of one statement -/

def Label.ofNode (id : NodeId) (ls : List Label) : List Label := ls.filter (·.node = id)

open Label

section

variable {x : Target} {id : NodeId} {n : Node} {l : Label} {site : Site} {ids : List NodeId}

theorem ofNode_placed (h : x.outlined.contains id = false) :
    ofNode id (x.placed site ids) = List.replicate (ids.count id) ⟨site, id⟩ := by
  rw [ofNode, Target.placed, List.filter_map, List.filter_filter]
  have hsame : (ids.filter fun a =>
    ((fun l : Label => decide (l.node = id)) ∘ fun a => ⟨site, a⟩) a &&
      !x.outlined.contains a) = ids.filter (· = id) := by
    refine List.filter_congr fun a _ => ?_
    by_cases ha : a = id
    · rw [ha, h]
      exact Bool.and_true _
    · simp [ha]
  rw [hsame, List.filter_eq, List.map_replicate]

theorem ofNode_placed_of_not_mem (h : id ∉ ids) : ofNode id (x.placed site ids) = [] := by
  refine List.filter_eq_nil_iff.mpr fun l hl hid => ?_
  obtain ⟨a, ha, rfl⟩ := List.mem_map.mp hl
  rw [← show a = id from of_decide_eq_true hid] at h
  exact h (List.mem_filter.mp ha).1

theorem ofNode_placed_outlined (h : x.outlined.contains id = true) :
    ofNode id (x.placed site ids) = [] := by
  refine List.filter_eq_nil_iff.mpr fun l hl hid => ?_
  obtain ⟨a, ha, rfl⟩ := List.mem_map.mp hl
  have hkept := (List.mem_filter.mp ha).2
  rw [show a = id from of_decide_eq_true hid, h] at hkept
  cases hkept

theorem ofNode_append (a b : List Label) : ofNode id (a ++ b) = ofNode id a ++ ofNode id b :=
  List.filter_append a b

/-- Where a statement is emitted that another leads to. -/
theorem ofNode_next (hget : x.program.nodes[l.node]? = some n)
    (h : x.outlined.contains id = false) :
    ofNode id (x.next l) = List.replicate (n.inner.flatten.count id) ⟨.inside l.node, id⟩ ++
      List.replicate (n.after.count id) ⟨.behind l.node, id⟩ := by
  rw [Target.next, hget]
  exact (ofNode_append _ _).trans (congrArg₂ (· ++ ·) (ofNode_placed h) (ofNode_placed h))

theorem ofNode_next_outlined (h : x.outlined.contains id = true) : ofNode id (x.next l) = [] := by
  unfold Target.next
  split
  · rfl
  · rw [ofNode_append, ofNode_placed_outlined h, ofNode_placed_outlined h]
    rfl

theorem ofNode_postponed_outlined {j : NodeId} (h : x.outlined.contains id = true) :
    ofNode id (x.postponed j) = [] := by
  unfold Target.postponed
  split
  · rfl
  · exact ofNode_placed_outlined h

/-- Nothing is emitted where nothing leads to a statement. -/
theorem ofNode_next_of_not_leads (h : ¬x.program.Leads l.node id) : ofNode id (x.next l) = [] := by
  unfold Target.next
  split
  · rfl
  · next n hget =>
    have hnot : id ∉ n.controls.flatten := fun hid => h (leads_iff_mem.mpr ⟨n, hget, hid⟩)
    rw [n.flatten_controls, List.mem_append, not_or] at hnot
    rw [ofNode_append, ofNode_placed_of_not_mem (mt Node.mem_inner hnot.1),
      ofNode_placed_of_not_mem hnot.2]
    rfl

theorem ofNode_postponed_of_not_leads {j : NodeId} (h : ¬x.program.Leads j id) :
    ofNode id (x.postponed j) = [] := by
  unfold Target.postponed
  split
  · rfl
  · next n hget =>
    refine ofNode_placed_of_not_mem fun hid => h (leads_iff_mem.mpr ⟨n, hget, ?_⟩)
    rw [n.flatten_controls]
    exact List.mem_append_left _ hid

end

/-! ## Functions -/

/-- Labels that control comes to from where a function starts. -/
def Comes (x : Target) (i : Nat) (ls : List Label) : Prop :=
  ls.Perm (x.starts i ++ ls.flatMap x.next)

structure Emitted (p : Program) (fs : List Function) : Prop where
  length : fs.length = 2 + p.memoPoints.length + (target p).outlined.length
  comes : ∀ i f, fs[i]? = some f → Comes (target p) i (labels (target p) f.body)

/-- The code of a statement stands once in all functions, in the one of number `k` at the site. -/
structure Stands (x : Target) (fs : List Function) (id : NodeId) (k : Nat)
    (site : Site) : Prop where
  function : k < fs.length
  labels : ∀ i f, fs[i]? = some f → ofNode id (labels x f.body) = if i = k then [⟨site, id⟩] else []

/-- Where the code of a statement belongs: the number of the function in the module, and the
site. -/
inductive Belongs (p : Program) : NodeId → Nat → Site → Prop
  /-- More than one control wire leads to the statement. -/
  | own {id : NodeId} {i : Nat} : 1 < predecessors p id → (target p).outlined[i]? = some id →
    Belongs p id (2 + p.memoPoints.length + i) .own
  /-- None does. -/
  | frame {id : NodeId} : predecessors p id = 0 → id ∈ p.entryPoints → Belongs p id 0 .frame
  /-- The only one leads out of a late update as its body. -/
  | late {id j : NodeId} {n : Node} : predecessors p id = 1 → p.nodes[j]? = some n →
    n.kind = .statement .lateUpdate → id ∈ n.controls.dropLast.flatten → Belongs p id 1 (.late j)
  /-- The only one begins a branch of another statement. -/
  | inside {id j : NodeId} {n : Node} {k : Nat} {site : Site} : predecessors p id = 1 →
    p.nodes[j]? = some n → n.kind ≠ .statement .lateUpdate → id ∈ n.controls.dropLast.flatten →
    Belongs p j k site → Belongs p id k (.inside j)
  /-- The only one leads on after another statement. -/
  | behind {id j : NodeId} {n : Node} {k : Nat} {site : Site} : predecessors p id = 1 →
    p.nodes[j]? = some n → id ∈ n.after → Belongs p j k site → Belongs p id k (.behind j)

theorem eq_of_perm_ite {α : Type} {c : Prop} [Decidable c] {a : α} {as : List α}
    (h : as.Perm (if c then [a] else [])) : as = if c then [a] else [] := by
  by_cases hc : c
  · rw [if_pos hc] at h ⊢
    exact List.perm_singleton.mp h
  · rw [if_neg hc] at h ⊢
    exact List.perm_nil.mp h

section

variable {p : Program} {fs : List Function} {id j : NodeId} {n : Node} {i k : Nat}
  {site : Site} {l : Label}

theorem Comes.ofNode {x : Target} {ls : List Label} (h : Comes x i ls) (id : NodeId) :
    (ofNode id ls).Perm
    (Label.ofNode id (x.starts i) ++ ls.flatMap fun l => Label.ofNode id (x.next l)) := by
  have hperm := h.filter (·.node = id)
  rw [List.filter_append, List.filter_flatMap] at hperm
  exact hperm

theorem starts_cases (hk : k < 2 + p.memoPoints.length + (target p).outlined.length) :
    k = 0 ∨ k = 1 ∨ (2 ≤ k ∧ k < 2 + p.memoPoints.length ∧ (target p).starts k = []) ∨
      ∃ i id, (target p).outlined[i]? = some id ∧ k = 2 + p.memoPoints.length + i ∧
        (target p).starts k = [⟨.own, id⟩] := by
  rcases Nat.lt_or_ge k 2 with hsmall | hlarge
  · rcases (show k = 0 ∨ k = 1 by omega) with rfl | rfl
    · exact .inl rfl
    · exact .inr (.inl rfl)
  · rcases Nat.lt_or_ge k (2 + p.memoPoints.length) with hmemo | hmemo
    · obtain ⟨j, rfl⟩ := Nat.exists_eq_add_of_le hlarge
      exact .inr (.inr (.inl ⟨hlarge, hmemo, starts_memo hmemo⟩))
    · obtain ⟨i, rfl⟩ := Nat.exists_eq_add_of_le hmemo
      have hi := List.getElem?_eq_getElem (show i < (target p).outlined.length by omega)
      exact .inr (.inr (.inr ⟨i, _, hi, rfl, starts_outlined hi⟩))

theorem contains_of_getElem? (hi : (target p).outlined[i]? = some id) :
    (target p).outlined.contains id = true :=
  List.contains_iff_mem.mpr (List.mem_of_getElem? hi)

theorem ofNode_singleton (id' : NodeId) :
    ofNode id [⟨site, id'⟩] = if id' = id then [⟨site, id⟩] else [] := by
  by_cases h : id' = id <;> simp [ofNode, h]

/-- A statement with a function of its own starts that function alone. -/
theorem ofNode_starts_outlined (hi : (target p).outlined[i]? = some id)
    (hk : k < 2 + p.memoPoints.length + (target p).outlined.length) :
    ofNode id ((target p).starts k) =
      if k = 2 + p.memoPoints.length + i then [⟨.own, id⟩] else [] := by
  have hcontains := contains_of_getElem? hi
  rcases starts_cases hk with rfl | rfl | ⟨hge, hlt, hstarts⟩ | ⟨j, id', hj, rfl, hstarts⟩
  · rw [if_neg (by omega)]
    exact ofNode_placed_outlined hcontains
  · rw [if_neg (by omega)]
    refine List.filter_eq_nil_iff.mpr fun l hl hid => ?_
    obtain ⟨t, -, hl⟩ := List.mem_flatMap.mp hl
    have hmem : l ∈ ofNode id ((target p).postponed t) := List.mem_filter.mpr ⟨hl, hid⟩
    rw [ofNode_postponed_outlined hcontains] at hmem
    exact List.not_mem_nil hmem
  · rw [if_neg (by omega), hstarts]
    rfl
  · rw [hstarts, ofNode_singleton]
    have hsame : id' = id ↔ 2 + p.memoPoints.length + j = 2 + p.memoPoints.length + i := by
      obtain ⟨hjlt, rfl⟩ := List.getElem?_eq_some_iff.mp hj
      obtain ⟨hilt, rfl⟩ := List.getElem?_eq_some_iff.mp hi
      have hnodup : (target p).outlined.Nodup := List.Nodup.filter _ List.nodup_range
      rw [hnodup.getElem_inj_iff]
      omega
    simp only [hsame]

/-- Any other starts run in a frame or in late tasks. -/
theorem ofNode_starts (h : (target p).outlined.contains id = false)
    (hk : k < 2 + p.memoPoints.length + (target p).outlined.length) :
    ofNode id ((target p).starts k) =
      if k = 0 then List.replicate (p.entryPoints.count id) ⟨.frame, id⟩
      else if k = 1 then p.lateNodes.flatMap fun j => ofNode id ((target p).postponed j)
      else [] := by
  rcases starts_cases hk with rfl | rfl | ⟨hge, hlt, hstarts⟩ | ⟨j, id', hj, rfl, hstarts⟩
  · exact ofNode_placed h
  · exact List.filter_flatMap
  · rw [if_neg (by omega), if_neg (by omega), hstarts]
    rfl
  · have hne : id' ≠ id := by
      rintro rfl
      rw [contains_of_getElem? hj] at h
      cases h
    rw [if_neg (by omega), if_neg (by omega), hstarts, ofNode_singleton, if_neg hne]

theorem not_contains_outlined (h : predecessors p id ≤ 1) :
    (target p).outlined.contains id = false := by
  rw [← Bool.not_eq_true, contains_outlined]
  exact fun hmany => Nat.not_lt.mpr h hmany.2

section

variable (hfs : Emitted p fs)
include hfs

theorem Emitted.lt {f : Function} (hf : fs[k]? = some f) :
    k < 2 + p.memoPoints.length + (target p).outlined.length :=
  hfs.length ▸ (List.getElem?_eq_some_iff.mp hf).1

/-- A statement that begins one function and is come to nowhere else. -/
theorem stands_start (hk : k < fs.length) (hnext : ∀ l, ofNode id ((target p).next l) = [])
    (hstarts : ∀ i < 2 + p.memoPoints.length + (target p).outlined.length,
      ofNode id ((target p).starts i) = if i = k then [⟨site, id⟩] else []) :
    Stands (target p) fs id k site := by
  refine ⟨hk, fun i f hf => eq_of_perm_ite ?_⟩
  have hperm := (hfs.comes i f hf).ofNode id
  rw [hstarts i (hfs.lt hf), List.flatMap_eq_nil_iff.mpr fun l _ => hnext l,
    List.append_nil] at hperm
  exact hperm

/-- A statement that begins no function and is come to from one other. -/
theorem stands_follow {before : Site} (hbefore : Stands (target p) fs j k before)
    (hnext : ∀ l, ofNode id ((target p).next l) = if l.node = j then [⟨site, id⟩] else [])
    (hstarts : ∀ i < 2 + p.memoPoints.length + (target p).outlined.length,
      ofNode id ((target p).starts i) = []) : Stands (target p) fs id k site := by
  refine ⟨hbefore.function, fun i f hf => eq_of_perm_ite ?_⟩
  have hperm := (hfs.comes i f hf).ofNode id
  have hlabels := hbefore.labels i f hf
  unfold Label.ofNode at hlabels
  rw [hstarts i (hfs.lt hf), List.nil_append, List.flatMap_congr fun l _ => hnext l, flatMap_pick,
    hlabels] at hperm
  by_cases hi : i = k
  · rw [if_pos hi] at hperm ⊢
    exact hperm
  · rw [if_neg hi] at hperm ⊢
    exact hperm

theorem stands_own (hi : (target p).outlined[i]? = some id) :
    Stands (target p) fs id (2 + p.memoPoints.length + i) .own := by
  have hlt := (List.getElem?_eq_some_iff.mp hi).1
  have hcontains := contains_of_getElem? hi
  exact stands_start hfs (hfs.length ▸ Nat.add_lt_add_left hlt _)
    (fun _ => ofNode_next_outlined hcontains)
    fun k hk => ofNode_starts_outlined hi hk

theorem stands_frame (hzero : predecessors p id = 0) (hnodup : p.entryPoints.Nodup)
    (hentry : id ∈ p.entryPoints) : Stands (target p) fs id 0 .frame := by
  have hnone := predecessors_eq_zero.mp hzero
  have hlen := hfs.length
  refine stands_start hfs (by omega) (fun l => ofNode_next_of_not_leads (hnone l.node))
    fun i hi => ?_
  rw [ofNode_starts (not_contains_outlined (hzero ▸ Nat.zero_le 1)) hi,
    List.count_eq_one_of_mem hnodup hentry,
    List.flatMap_eq_nil_iff.mpr fun j _ => ofNode_postponed_of_not_leads (hnone j), ite_self]
  rfl

section

variable (hone : predecessors p id = 1) (hget : p.nodes[j]? = some n)
  (hcount : n.controls.flatten.count id = 1)
  (honly : ∀ other, p.Leads other id → other = j) (hentry : id ∉ p.entryPoints)
include hone hget hcount honly hentry

/-- The first statements of the body of a late task. -/
theorem stands_late (hkind : n.kind = .statement .lateUpdate)
    (hid : id ∈ n.controls.dropLast.flatten) :
    Stands (target p) fs id 1 (.late j) := by
  have hcontains := not_contains_outlined (Nat.le_of_eq hone)
  have hpos := List.count_pos_iff.mpr hid
  rw [n.count_controls] at hcount
  have hlen := hfs.length
  refine stands_start hfs (by omega) (fun l => ?_) fun i hi => ?_
  · by_cases hl : l.node = j
    · have hinner : n.inner = [] := if_pos hkind
      rw [ofNode_next (x := target p) (hl ▸ hget) hcontains, hinner,
        show n.after.count id = 0 by omega]
      rfl
    · exact ofNode_next_of_not_leads (mt (honly l.node) hl)
  · have hpostponed : ∀ t ∈ p.lateNodes, ofNode id ((target p).postponed t) =
        if t = j then [⟨.late j, id⟩] else [] := by
      intro t _
      split
      · next ht =>
        rw [ht]
        unfold Target.postponed
        rw [show (target p).program.nodes[j]? = some n from hget]
        show ofNode id ((target p).placed _ _) = _
        rw [ofNode_placed hcontains, show n.controls.dropLast.flatten.count id = 1 by omega]
        rfl
      · next ht => exact ofNode_postponed_of_not_leads (mt (honly t) ht)
    have hmem : j ∈ p.lateNodes := Program.mem_lateNodes.mpr ⟨n, hget, hkind⟩
    rw [ofNode_starts hcontains hi, List.count_eq_zero.mpr hentry, List.flatMap_congr hpostponed,
      flatMap_pick, List.filter_eq, List.count_eq_one_of_mem (nodup_lateNodes p) hmem]
    by_cases hzero : i = 0
    · rw [if_pos hzero, if_neg (by omega)]
      rfl
    · rw [if_neg hzero]
      rfl

omit hfs hcount in
/-- Nothing starts at a statement that runs where another leads to it. -/
theorem ofNode_starts_of_follow
    (hid : n.kind = .statement .lateUpdate → id ∉ n.controls.dropLast.flatten)
    (hi : i < 2 + p.memoPoints.length + (target p).outlined.length) :
    ofNode id ((target p).starts i) = [] := by
  have hpostponed : ∀ t ∈ p.lateNodes, ofNode id ((target p).postponed t) = [] := by
    intro t ht
    by_cases hj : t = j
    · obtain ⟨n', hget', hkind⟩ := Program.mem_lateNodes.mp (hj ▸ ht)
      cases hget.symm.trans hget'
      unfold Target.postponed
      rw [hj, show (target p).program.nodes[j]? = some n from hget]
      exact ofNode_placed_of_not_mem (hid hkind)
    · exact ofNode_postponed_of_not_leads (mt (honly t) hj)
  rw [ofNode_starts (not_contains_outlined (Nat.le_of_eq hone)) hi, List.count_eq_zero.mpr hentry,
    List.flatMap_eq_nil_iff.mpr hpostponed, ite_self]
  exact ite_self _

theorem stands_inside {before : Site} (hkind : n.kind ≠ .statement .lateUpdate)
    (hid : id ∈ n.controls.dropLast.flatten) (hbefore : Stands (target p) fs j k before) :
    Stands (target p) fs id k (.inside j) := by
  have hpos := List.count_pos_iff.mpr hid
  rw [n.count_controls] at hcount
  refine stands_follow hfs hbefore (fun l => ?_) fun i hi =>
    ofNode_starts_of_follow hone hget honly hentry (fun hlate => absurd hlate hkind) hi
  by_cases hl : l.node = j
  · have hinner : n.inner = n.controls.dropLast := if_neg hkind
    rw [if_pos hl, ofNode_next (x := target p) (hl ▸ hget)
      (not_contains_outlined (Nat.le_of_eq hone)), hinner,
      show n.controls.dropLast.flatten.count id =
      1 by omega, show n.after.count id = 0 by omega, hl]
    rfl
  · rw [if_neg hl]
    exact ofNode_next_of_not_leads (mt (honly l.node) hl)

theorem stands_behind {before : Site} (hid : id ∈ n.after)
    (hbefore : Stands (target p) fs j k before) :
    Stands (target p) fs id k (.behind j) := by
  have hpos := List.count_pos_iff.mpr hid
  rw [n.count_controls] at hcount
  have hnot : id ∉ n.controls.dropLast.flatten := List.count_eq_zero.mp (by omega)
  refine stands_follow hfs hbefore (fun l => ?_) fun i hi =>
    ofNode_starts_of_follow hone hget honly hentry (fun _ => hnot) hi
  by_cases hl : l.node = j
  · rw [if_pos hl,
      ofNode_next (x := target p) (hl ▸ hget) (not_contains_outlined (Nat.le_of_eq hone)),
      List.count_eq_zero.mpr (mt Node.mem_inner hnot), show n.after.count id = 1 by omega, hl]
    rfl
  · rw [if_neg hl]
    exact ofNode_next_of_not_leads (mt (honly l.node) hl)

end

end

end

/-! ## Modules -/

section

variable {p : Program} {m : Wasm.Module} {fs : List Function} {id : NodeId} {l : Label} {k : Nat}

theorem leads_of_mem_next {x : Target} {a b : Label} (h : b ∈ x.next a) :
    x.program.Leads a.node b.node := by
  by_contra hnot
  have hmem : b ∈ ofNode b.node (x.next a) := List.mem_filter.mpr ⟨h, decide_eq_true rfl⟩
  rw [ofNode_next_of_not_leads hnot] at hmem
  exact List.not_mem_nil hmem

theorem leads_of_mem_postponed {x : Target} {j : NodeId} (h : l ∈ x.postponed j) :
    x.program.Leads j l.node := by
  by_contra hnot
  have hmem : l ∈ ofNode l.node (x.postponed j) := List.mem_filter.mpr ⟨h, decide_eq_true rfl⟩
  rw [ofNode_postponed_of_not_leads hnot] at hmem
  exact List.not_mem_nil hmem

theorem isStatement_of_leads (hp : p.WellFormed) {j : NodeId} (h : p.Leads j id) :
    p.IsStatement id := by
  obtain ⟨n, ids, hn, hids, hid⟩ := h
  exact (hp.nodes j n hn).targets ids hids id hid

/-- Functions start at statements. -/
theorem isStatement_of_starts (hp : p.WellFormed)
    (hk : k < 2 + p.memoPoints.length + (target p).outlined.length) (h : l ∈ (target p).starts k) :
    p.IsStatement l.node := by
  rcases starts_cases hk with rfl | rfl | ⟨-, -, hstarts⟩ | ⟨i, id, hi, -, hstarts⟩
  · obtain ⟨id, hid, rfl⟩ := List.mem_map.mp (h : l ∈ (target p).placed .frame p.entryPoints)
    exact hp.entryPoints id (List.mem_filter.mp hid).1
  · obtain ⟨j, -, hl⟩ := List.mem_flatMap.mp (h : l ∈ p.lateNodes.flatMap (target p).postponed)
    exact isStatement_of_leads hp (leads_of_mem_postponed hl)
  · rw [hstarts] at h
    exact absurd h List.not_mem_nil
  · rw [hstarts, List.mem_singleton] at h
    rw [h]
    exact isStatement_of_converging hp (List.mem_of_getElem? hi)

theorem emitted_of_compiled (hp : p.WellFormed) (hm : Compiled p m) :
    Emitted p (labelledFunctions (target p) m) := by
  obtain ⟨leads, hrank⟩ := hp.leads
  have hlen : (labelledFunctions (target p) m).length = m.functions.toList.length :=
    Instrumentation.length_functions
  refine ⟨hlen.trans hm.functions.length, fun i f hf => ?_⟩
  have hi := (List.getElem?_eq_some_iff.mp hf).1
  obtain ⟨body, hbody, depth, hdepth, hbears⟩ := labelled_function hp hm
    (List.getElem?_eq_getElem (show i < m.functions.toList.length from hlen ▸ hi))
  cases hf.symm.trans hbody
  show Comes _ _ (labels _ body)
  rw [hbears.labels]
  refine unroll_perm (fun l => leads l.node)
    (fun a b hb => hrank.falls _ _ (leads_of_mem_next hb)) ?_
  intro l hl
  have hk : i < 2 + p.memoPoints.length + (target p).outlined.length :=
    hm.functions.length ▸ hlen ▸ hi
  obtain ⟨n, hn, -⟩ := isStatement_of_starts hp hk hl
  exact Nat.lt_trans (hrank.bounded _ (Array.getElem?_eq_some_iff.mp hn).1) hdepth

/-- By induction on the rank, from the statements that come first. -/
theorem exists_stands (hp : p.WellFormed) (hnodup : p.entryPoints.Nodup)
    (hentries : ∀ id, id ∈ p.entryPoints ↔ p.IsStatement id ∧ ∀ other, ¬p.Leads other id)
    (hfs : Emitted p fs) (hid : p.IsStatement id) :
    ∃ k site, Belongs p id k site ∧ Stands (target p) fs id k site := by
  obtain ⟨rank, hrank⟩ := hp.leads
  induction hleft : p.nodes.size - rank id using Nat.strongRecOn generalizing id with
  | _ left ih =>
    rcases Nat.lt_trichotomy (predecessors p id) 1 with hless | hone | hmany
    · have hzero : predecessors p id = 0 := Nat.lt_one_iff.mp hless
      have hentry := (hentries id).mpr ⟨hid, predecessors_eq_zero.mp hzero⟩
      exact ⟨0, .frame, .frame hzero hentry, stands_frame hfs hzero hnodup hentry⟩
    · obtain ⟨j, n, hget, hcount, honly⟩ := exists_of_predecessors_eq_one hone
      have hmem : id ∈ n.controls.flatten := List.count_pos_iff.mp (by omega)
      have hleads : p.Leads j id := leads_iff_mem.mpr ⟨n, hget, hmem⟩
      have hentry : id ∉ p.entryPoints := fun hentry => ((hentries id).mp hentry).2 j hleads
      have hbefore : ∃ k site, Belongs p j k site ∧ Stands (target p) fs j k site := by
        have hfall := hrank.falls j id hleads
        have hbound := hrank.bounded j (Array.getElem?_eq_some_iff.mp hget).1
        obtain ⟨ids, hids, -⟩ := List.mem_flatten.mp hmem
        exact ih (p.nodes.size - rank j) (by omega)
          ⟨n, hget, (hp.nodes j n hget).isStatement_of_controls hids⟩ rfl
      obtain ⟨k, site, hbelongs, hstands⟩ := hbefore
      rw [n.flatten_controls, List.mem_append] at hmem
      rcases hmem with hbranch | hafter
      · by_cases hkind : n.kind = .statement .lateUpdate
        · exact ⟨1, .late j, .late hone hget hkind hbranch,
            stands_late hfs hone hget hcount honly hentry hkind hbranch⟩
        · exact ⟨k, .inside j, .inside hone hget hkind hbranch hbelongs,
            stands_inside hfs hone hget hcount honly hentry hkind hbranch hstands⟩
      · exact ⟨k, .behind j, .behind hone hget hafter hbelongs,
          stands_behind hfs hone hget hcount honly hentry hafter hstands⟩
    · obtain ⟨n, hn, -⟩ := hid
      have hcontains := contains_outlined.mpr ⟨(Array.getElem?_eq_some_iff.mp hn).1, hmany⟩
      obtain ⟨i, hi⟩ := List.getElem?_of_mem (List.contains_iff_mem.mp hcontains)
      exact ⟨_, .own, .own hmany hi, stands_own hfs hi⟩

def bareFunction (x : Target) (f : Function) : Function := { f with body := bare x f.body }

theorem map_bareFunction (hp : p.WellFormed) (hm : Compiled p m) :
    (labelledFunctions (target p) m).map (bareFunction (target p)) = m.functions.toList := by
  refine Instrumentation.map_functions fun hf => ?_
  obtain ⟨body, hbody, _, -, hbears⟩ := labelled_function hp hm hf
  rw [← labelledFunctions, hbody, Option.map_some, bareFunction, hbears.bare]

/-- The code of every statement is emitted once in the module of a program.  Labels in front of it
tell where, and without them the functions are those of the module.  It has a function of its own if
and only if more than one control wire leads to it; otherwise it stands where the only one does,
which is in the function of late tasks for the body of a late update, or in the function of frames
if there is none. -/
theorem emitted_once {c : Catalog} {d : Document} (hc : c.Stocked)
    (h : Program.analyse c d = .ok p) :
    ∃ m, compile p = .ok m ∧
      (labelledFunctions (target p) m).map (bareFunction (target p)) = m.functions.toList ∧
      ∀ id, p.IsStatement id → ∃ k site, Belongs p id k site ∧
        Stands (target p) (labelledFunctions (target p) m) id k site := by
  have hp := Program.wellFormed_of_analyse hc h
  obtain ⟨x, built, nodes, volatile, -, hstages⟩ := Program.stages_of_analyse hc h
  obtain ⟨m, hcompile⟩ := exists_compile hp
  have hm := compiled_of_ok hcompile
  have hnodup : p.entryPoints.Nodup := hstages.pairwise_entryPoints.imp Nat.ne_of_lt
  exact ⟨m, hcompile, map_bareFunction hp hm, fun id hid => exists_stands hp hnodup
    (fun _ => hstages.mem_entryPoints_iff) (emitted_of_compiled hp hm) hid⟩

/-- Both branches lead to one statement, the first of them by way of a late update. -/
def reconverging : Document where
  main := {
    id := 0
    nodes := [{ pos := ⟨0, 0, 0⟩, kind := 234 }, { pos := ⟨4, 0, 4⟩, kind := 566 },
      { pos := ⟨8, 0, 8⟩, kind := 252 }, { pos := ⟨12, 0, 12⟩, kind := 256 },
      { pos := ⟨16, 0, 16⟩, kind := 256 }]
    connections := [.between ⟨0, 0, 0⟩ ⟨15, 1, 11⟩ ⟨4, 0, 4⟩ ⟨3, 1, 15⟩,
      .between ⟨0, 0, 0⟩ ⟨15, 1, 3⟩ ⟨8, 0, 8⟩ ⟨3, 1, 15⟩,
      .between ⟨4, 0, 4⟩ ⟨3, 1, 0⟩ ⟨8, 0, 8⟩ ⟨3, 1, 15⟩,
      .between ⟨4, 0, 4⟩ ⟨15, 1, 3⟩ ⟨12, 0, 12⟩ ⟨3, 1, 15⟩,
      .between ⟨8, 0, 8⟩ ⟨3, 1, 0⟩ ⟨16, 0, 16⟩ ⟨3, 1, 15⟩] }

theorem emitted_once_reconverging : ∃ c p m, c.Stocked ∧ Program.analyse c reconverging = .ok p ∧
    p.nodes.toList.map (·.controls) = [[[1], [2], []], [[3], [2]], [[4]], [[]], [[]]] ∧
    compile p = .ok m ∧
    (labelledFunctions (target p) m).map (bareFunction (target p)) = m.functions.toList ∧
    ∀ id, p.IsStatement id → ∃ k site, Belongs p id k site ∧
      Stands (target p) (labelledFunctions (target p) m) id k site := by
  have hsome : (Catalog.stock.bind fun c => Program.analyse c reconverging).toOption.any (fun p =>
      p.nodes.toList.map (·.controls) = [[[1], [2], []], [[3], [2]], [[4]], [[]], [[]]]) =
        true := by
    decide +kernel
  obtain ⟨c, p, -, hc, hp, hcontrols⟩ := Catalog.exists_stock hsome
  obtain ⟨m, hm, hbare, hall⟩ := emitted_once hc hp
  exact ⟨c, p, m, hc, hp, of_decide_eq_true hcontrols, hm, hbare, hall⟩

end

end Compiler
end SignalGraph
