import SignalGraph.Proofs.Analysis.Analysed
import SignalGraph.Proofs.Analysis.Tallies
import SignalGraph.Proofs.Instrumentation.Ledger.Basic

/-!
# Shared outputs

Analysis makes one memo point of each shared output, and tells its number to every reader.
-/

namespace SignalGraph
namespace Sharing

theorem zipIdx_lt {α : Type} (as : List α) (first : Nat) :
    (as.zipIdx first).Pairwise fun a b => a.2 < b.2 := by
  have hnumbers : ((as.zipIdx first).map Prod.snd).Pairwise (· < ·) := by
    rw [List.zipIdx_map_snd]
    exact List.pairwise_lt_range'
  exact List.pairwise_map.mp hnumbers

theorem ofNode_sorted (wires : List Wire) (volatile : List NodeId) (n : Node) (id : NodeId) :
    (ofNode wires volatile n id).Pairwise fun m m' => m.source.key < m'.source.key := by
  unfold ofNode
  split
  · exact List.Pairwise.nil
  · refine List.pairwise_filterMap.mpr ((zipIdx_lt n.outputs 0).imp ?_)
    rintro ⟨type, output⟩ ⟨type', output'⟩ hlt m hm m' hm'
    dsimp only at hm hm'
    split at hm
    · split at hm'
      · cases hm
        cases hm'
        exact Producer.key_lt_iff.mpr (.inr ⟨rfl, hlt⟩)
      · cases hm'
    · cases hm

/-- Memo points stand in the order of their outputs. -/
theorem memoPoints_sorted (nodes : List Node) (volatile : List NodeId) :
    (memoPoints nodes volatile).Pairwise fun m m' => m.source.key < m'.source.key := by
  refine List.pairwise_flatMap.mpr ⟨fun _ _ => ofNode_sorted _ _ _ _, ?_⟩
  refine (zipIdx_lt nodes 0).imp ?_
  rintro ⟨n, id⟩ ⟨n', id'⟩ hlt m hm m' hm'
  rw [← (mem_ofNode.mp hm).2.1, ← (mem_ofNode.mp hm').2.1] at hlt
  exact Producer.key_lt_iff.mpr (.inl hlt)

/-- No output has two memo points. -/
theorem pairwise_memoPoints (nodes : List Node) (volatile : List NodeId) :
    (memoPoints nodes volatile).Pairwise fun m m' => m.source ≠ m'.source :=
  (memoPoints_sorted nodes volatile).imp fun hlt heq => hlt.ne (congrArg Producer.key heq)

theorem eq_of_source {points : List MemoPoint}
    (h : points.Pairwise fun m m' => m.source ≠ m'.source) {j k : MemoId} {m m' : MemoPoint}
    (hj : points[j]? = some m) (hk : points[k]? = some m') (heq : m.source = m'.source) :
    j = k := by
  obtain ⟨hjlt, rfl⟩ := List.getElem?_eq_some_iff.mp hj
  obtain ⟨hklt, rfl⟩ := List.getElem?_eq_some_iff.mp hk
  rw [List.pairwise_iff_getElem] at h
  rcases Nat.lt_trichotomy j k with hlt | heq' | hgt
  · exact absurd heq (h j k hjlt hklt hlt)
  · exact heq'
  · exact absurd heq.symm (h k j hklt hjlt hgt)

/-- The first memo point of an output is its only one. -/
theorem findIdx?_source {points : List MemoPoint}
    (h : points.Pairwise fun m m' => m.source ≠ m'.source) {k : MemoId} {m : MemoPoint}
    {source : Producer} (hk : points[k]? = some m) (hsource : m.source = source) :
    points.findIdx? (fun m => decide (m.source = source)) = some k := by
  obtain ⟨hlt, rfl⟩ := List.getElem?_eq_some_iff.mp hk
  refine List.findIdx?_eq_some_iff_getElem.mpr ⟨hlt, decide_eq_true hsource, fun j hj => ?_⟩
  intro hfound
  have heq := of_decide_eq_true hfound
  have hj' := List.getElem?_eq_getElem (Nat.lt_trans hj hlt)
  exact absurd (eq_of_source h hj' hk (heq.trans hsource.symm)) (Nat.ne_of_lt hj)

/-- A wire knows the memo point of its source, if there is one. -/
theorem findIdx?_source_iff {points : List MemoPoint}
    (h : points.Pairwise fun m m' => m.source ≠ m'.source)
    {source : Producer} {k : MemoId} :
    points.findIdx? (fun m => decide (m.source = source)) = some k ↔
      ∃ m, points[k]? = some m ∧ m.source = source := by
  constructor
  · intro hk
    obtain ⟨hlt, hsource, -⟩ := List.findIdx?_eq_some_iff_getElem.mp hk
    exact ⟨points[k], List.getElem?_eq_getElem hlt, of_decide_eq_true hsource⟩
  · rintro ⟨m, hk, hsource⟩
    exact findIdx?_source h hk hsource

end Sharing

namespace Program

/-- All readers of a shared output go to its memo point. -/
theorem shares_of_analyse {c : Catalog} {d : Document} {p : Program} (hc : c.Stocked)
    (h : analyse c d = .ok p) : p.Shares := by
  obtain ⟨x, built, nodes, volatile, -, hstages⟩ := stages_of_analyse hc h
  have hpoints : p.memoPoints.Pairwise fun m m' => m.source ≠ m'.source := by
    rw [hstages.points]
    exact Sharing.pairwise_memoPoints nodes volatile
  refine ⟨fun j k m m' hj hk => Sharing.eq_of_source hpoints hj hk, ?_⟩
  intro id n w hn hw k m hk hsource
  rw [hstages.finished, List.getElem?_toArray, Sharing.getElem?_finished] at hn
  obtain ⟨n', -, rfl⟩ := Option.map_eq_some_iff.mp hn
  obtain ⟨operand, -, htag⟩ := List.mem_map.mp hw
  cases operand with
  | default v => cases htag
  | absent => cases htag
  | wire w' =>
    cases htag
    exact Sharing.findIdx?_source hpoints hk hsource

end Program
end SignalGraph
