import Mathlib.Data.List.Induction
import Mathlib.Data.List.Sort
import Mathlib.Data.Prod.Lex
import SignalGraph.Analysis.Sharing

/-!
# Tallies

One pass over the wires counts the readers of all outputs.  A table of counts gives them back in any
order, so those that are chosen must be sorted.

Main statement: whatever list in order has the chosen outputs as its elements is the sorted choice,
in whatever order the table has given them.
-/

namespace SignalGraph

namespace Producer

/-- Outputs are in the order of their nodes, those of one node in their own. -/
def key (a : Producer) : ℕ ×ₗ ℕ := toLex (a.node, a.output)

theorem key_lt_iff {a b : Producer} :
    a.key < b.key ↔ a.node < b.node ∨ a.node = b.node ∧ a.output < b.output :=
  Prod.Lex.toLex_lt_toLex

end Producer

namespace Sharing

def count (w : Wire) : List MemoPoint → List MemoPoint
  | [] => [{ source := w.source, type := w.type, consumers := 1 }]
  | m :: rest =>
    if m.source = w.source then { m with consumers := m.consumers + 1 } :: rest
    else m :: count w rest

/-- The sources of wires with their readers, in the order in which they are met. -/
def tally (wires : List Wire) : List MemoPoint := wires.foldl (fun counted w => count w counted) []

def select (volatile : List NodeId) (counted : List MemoPoint) : List MemoPoint :=
  (counted.filter fun m => 1 < m.consumers ∧ m.source.node ∉ volatile).mergeSort
    fun m m' => m.source.key ≤ m'.source.key

/-- A table with one entry for each source of wires. -/
structure Counted (wires : List Wire) (counted : List MemoPoint) : Prop where
  once : counted.Pairwise fun m m' => m.source ≠ m'.source
  consumers : ∀ m ∈ counted, m.consumers = wires.countP (·.source = m.source)
  typed : ∀ m ∈ counted, ∃ w ∈ wires, w.source = m.source ∧ w.type = m.type
  complete : ∀ w ∈ wires, ∃ m ∈ counted, m.source = w.source

variable {wires : List Wire} {counted before after : List MemoPoint} {w : Wire} {m : MemoPoint}

theorem count_of_new (h : ∀ m ∈ counted, m.source ≠ w.source) :
    count w counted = counted ++ [{ source := w.source, type := w.type, consumers := 1 }] := by
  induction counted with
  | nil => rfl
  | cons m rest ih =>
    obtain ⟨hm, hrest⟩ := List.forall_mem_cons.mp h
    rw [count, if_neg hm, ih hrest, List.cons_append]

theorem count_of_known (hm : m.source = w.source) (h : ∀ m ∈ before, m.source ≠ w.source) :
    count w (before ++ m :: after) = before ++
      { m with consumers := m.consumers + 1 } :: after := by
  induction before with
  | nil => rw [List.nil_append, List.nil_append, count, if_pos hm]
  | cons m' rest ih =>
    obtain ⟨hm', hrest⟩ := List.forall_mem_cons.mp h
    rw [List.cons_append, count, if_neg hm', ih hrest, List.cons_append]

theorem countP_snoc (wires : List Wire) (w : Wire) (source : Producer) :
    (wires ++ [w]).countP (·.source = source) =
    wires.countP (·.source = source) + if w.source = source then 1 else 0 := by
  rw [List.countP_append, List.countP_singleton]
  simp

/-- A wire from an output without an entry adds one. -/
theorem Counted.count_new (h : Counted wires counted) (hnew : ∀ m ∈ counted, m.source ≠ w.source) :
    Counted (wires ++ [w])
      (counted ++ [{ source := w.source, type := w.type, consumers := 1 }]) := by
  have hzero : wires.countP (·.source = w.source) = 0 := by
    refine List.countP_eq_zero.mpr fun w' hw' heq => ?_
    obtain ⟨m, hm, hsource⟩ := h.complete w' hw'
    exact hnew m hm (hsource.trans (of_decide_eq_true heq))
  refine ⟨?_, fun m hm => ?_, fun m hm => ?_, fun w' hw' => ?_⟩
  · refine List.pairwise_append.mpr ⟨h.once, List.pairwise_singleton _ _, fun m hm m' hm' => ?_⟩
    rw [List.mem_singleton.mp hm']
    exact hnew m hm
  · rw [countP_snoc]
    rcases List.mem_append.mp hm with hm | hm
    · rw [if_neg (hnew m hm).symm, h.consumers m hm, Nat.add_zero]
    · rw [List.mem_singleton.mp hm, if_pos rfl, hzero]
  · rcases List.mem_append.mp hm with hm | hm
    · obtain ⟨w', hw', hfirst⟩ := h.typed m hm
      exact ⟨w', List.mem_append_left _ hw', hfirst⟩
    · rw [List.mem_singleton.mp hm]
      exact ⟨w, by simp, rfl, rfl⟩
  · rcases List.mem_append.mp hw' with hw' | hw'
    · obtain ⟨m, hm, hsource⟩ := h.complete w' hw'
      exact ⟨m, List.mem_append_left _ hm, hsource⟩
    · rw [List.mem_singleton.mp hw']
      exact ⟨_, List.mem_append_right _ (List.mem_singleton_self _), rfl⟩

/-- A table may give its entries in any order. -/
theorem Counted.perm {counted' : List MemoPoint} (h : Counted wires counted)
    (hperm : counted'.Perm counted) :
    Counted wires counted' where
  once := hperm.symm.pairwise h.once fun hne => hne.symm
  consumers := fun m hm => h.consumers m (hperm.mem_iff.mp hm)
  typed := fun m hm => h.typed m (hperm.mem_iff.mp hm)
  complete := fun w hw => by
    obtain ⟨m, hm, hsource⟩ := h.complete w hw
    exact ⟨m, hperm.mem_iff.mpr hm, hsource⟩

/-- A wire from an output with an entry is one reader more. -/
theorem Counted.count_head (h : Counted wires (m :: after)) (hm : m.source = w.source) :
    Counted (wires ++ [w]) ({ m with consumers := m.consumers + 1 } :: after) := by
  obtain ⟨hfirst, hafter⟩ := List.pairwise_cons.mp h.once
  refine ⟨List.pairwise_cons.mpr ⟨hfirst, hafter⟩, fun m' hm' => ?_, fun m' hm' => ?_,
    fun w' hw' => ?_⟩
  · rw [countP_snoc]
    rcases List.mem_cons.mp hm' with rfl | hm'
    · rw [if_pos hm.symm, h.consumers m List.mem_cons_self]
    · rw [if_neg (hm ▸ hfirst m' hm'), h.consumers m' (List.mem_cons_of_mem m hm'), Nat.add_zero]
  · obtain ⟨w', hw', hsource⟩ : ∃ w' ∈ wires, w'.source = m'.source ∧ w'.type = m'.type := by
      rcases List.mem_cons.mp hm' with rfl | hm'
      · exact h.typed m List.mem_cons_self
      · exact h.typed m' (List.mem_cons_of_mem m hm')
    exact ⟨w', List.mem_append_left _ hw', hsource⟩
  · rcases List.mem_append.mp hw' with hw' | hw'
    · obtain ⟨m', hm', hsource⟩ := h.complete w' hw'
      rcases List.mem_cons.mp hm' with rfl | hm'
      · exact ⟨_, List.mem_cons_self, hsource⟩
      · exact ⟨m', List.mem_cons_of_mem _ hm', hsource⟩
    · rw [List.mem_singleton.mp hw']
      exact ⟨_, List.mem_cons_self, hm⟩

theorem Counted.count (h : Counted wires counted) (w : Wire) :
    Counted (wires ++ [w]) (count w counted) := by
  by_cases hnew : ∀ m ∈ counted, m.source ≠ w.source
  · rw [count_of_new hnew]
    exact h.count_new hnew
  · push Not at hnew
    obtain ⟨m, hm, hsource⟩ := hnew
    obtain ⟨before, after, rfl⟩ := List.append_of_mem hm
    have hbefore : ∀ m' ∈ before, m'.source ≠ w.source := fun m' hm' =>
      hsource ▸ (List.pairwise_append.mp h.once).2.2 m' hm' m List.mem_cons_self
    rw [count_of_known hsource hbefore]
    exact ((h.perm List.perm_middle.symm).count_head hsource).perm List.perm_middle

/-- One pass counts the readers of all sources. -/
theorem counted_tally (wires : List Wire) : Counted wires (tally wires) := by
  induction wires using List.reverseRecOn with
  | nil => exact ⟨.nil, (fun _ hm => nomatch hm), (fun _ hm => nomatch hm), fun _ hw => nomatch hw⟩
  | append_singleton wires w ih =>
    rw [tally, List.foldl_append]
    exact ih.count w

/-- Counting looks at the sources and types of wires only. -/
theorem tally_map {f : Wire → Wire} (hsource : ∀ w, (f w).source = w.source)
    (htype : ∀ w, (f w).type = w.type)
    (wires : List Wire) : tally (wires.map f) = tally wires := by
  have hcount : ∀ w counted, count (f w) counted = count w counted := by
    intro w counted
    induction counted with
    | nil => rw [count, count, hsource, htype]
    | cons m rest ih => rw [count, count, hsource, ih]
  rw [tally, tally, List.foldl_map]
  simp only [hcount]

theorem nodup_of_once (h : counted.Pairwise fun m m' => m.source ≠ m'.source) : counted.Nodup :=
  h.imp fun hne heq => hne (congrArg _ heq)

/-- A list in order of the entries to choose is what sorting makes of them. -/
theorem select_eq {points : List MemoPoint} {volatile : List NodeId}
    (hpoints : points.Pairwise fun m m' => m.source.key < m'.source.key)
    (honce : counted.Pairwise fun m m' => m.source ≠ m'.source)
    (hmem : ∀ m, m ∈ points ↔ m ∈ counted ∧ 1 < m.consumers ∧ m.source.node ∉ volatile) :
    select volatile counted = points := by
  have htrans : ∀ a b c : MemoPoint, decide (a.source.key ≤ b.source.key) = true →
      decide (b.source.key ≤ c.source.key) = true →
        decide (a.source.key ≤ c.source.key) = true := by
    simp only [decide_eq_true_eq]
    exact fun _ _ _ => le_trans
  have htotal : ∀ a b : MemoPoint,
      (decide (a.source.key ≤ b.source.key) || decide (b.source.key ≤ a.source.key)) = true := by
    simp only [Bool.or_eq_true, decide_eq_true_eq]
    exact fun a b => le_total a.source.key b.source.key
  have hsorted : (select volatile counted).Pairwise fun m m' => m.source.key ≤ m'.source.key :=
    (List.pairwise_mergeSort htrans htotal _).imp of_decide_eq_true
  have hkeys : (points.map (·.source.key)).Nodup := List.pairwise_map.mpr (hpoints.imp ne_of_lt)
  have hperm : (select volatile counted).Perm points := by
    refine (List.mergeSort_perm _ _).trans ?_
    refine (List.perm_ext_iff_of_nodup ((nodup_of_once honce).filter _) hkeys.of_map).mpr fun m =>
      ?_
    rw [List.mem_filter, decide_eq_true_eq, hmem]
  have hanti : ∀ a b, a ∈ select volatile counted → b ∈ points → a.source.key ≤ b.source.key →
      b.source.key ≤ a.source.key → a = b := by
    intro a b ha hb hab hba
    exact List.inj_on_of_nodup_map hkeys (hperm.mem_iff.mp ha) hb (le_antisymm hab hba)
  exact hperm.eq_of_pairwise hanti hsorted (hpoints.imp le_of_lt)

end Sharing
end SignalGraph
