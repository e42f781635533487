import Mathlib.Data.List.Forall2
import SignalGraph.Compiler.Import
import SignalGraph.Proofs.Blocks.Catalogs

namespace SignalGraph

/-- What holds of the numbered elements holds of the elements. -/
theorem forall₂_of_zipIdx {α β : Type} {R : α × Nat → β → Prop} {S : α → β → Prop} {as : List α}
    {bs : List β} (h : List.Forall₂ R as.zipIdx bs)
    (hS : ∀ i a b, as[i]? = some a → R (a, i) b → S a b) : List.Forall₂ S as bs := by
  have hlen := h.length_eq
  rw [List.length_zipIdx] at hlen
  refine List.forall₂_iff_get.mpr ⟨hlen, fun i ha hb => ?_⟩
  refine hS i _ _ (List.getElem?_eq_getElem ha) ?_
  have hget := (List.forall₂_iff_get.mp h).2 i (by rw [List.length_zipIdx]; exact ha) hb
  simpa using hget

theorem forall₂_of_range {α β : Type} {R : Nat → β → Prop} {S : α → β → Prop} {as : List α}
    {bs : List β} (h : List.Forall₂ R (List.range as.length) bs)
    (hS : ∀ i a b, as[i]? = some a → R i b → S a b) : List.Forall₂ S as bs := by
  rw [List.range_eq_range', ← List.zipIdx_map_snd, List.forall₂_map_left_iff] at h
  exact forall₂_of_zipIdx h hS

/-- The block of elements that one element of a list contributes. -/
theorem flatMap_slice {α β : Type} {f : α → List β} {as : List α} {i : Nat} {a : α}
    (h : as[i]? = some a) :
    ((as.flatMap f).drop ((as.take i).flatMap f).length).take (f a).length = f a := by
  obtain ⟨hlt, rfl⟩ := List.getElem?_eq_some_iff.mp h
  have hsplit : as.flatMap f = (as.take i).flatMap f ++
    (f as[i] ++ (as.drop (i + 1)).flatMap f) := by
    rw [← List.flatMap_cons, ← List.flatMap_append, List.getElem_cons_drop, List.take_append_drop]
  rw [hsplit, List.drop_left, List.take_left]

theorem Format.lanes_ofBase (b : Base) : (Format.ofBase b).lanes = b.lanes := by
  cases b <;> rfl

namespace Pin

theorem lanes_one {pins : List Pin} {i : Nat} {pin : Pin} (h : pins[i]? = some pin) :
    Pin.lanes ((pins.drop i).take 1) = pin.type.lanes := by
  obtain ⟨hlt, rfl⟩ := List.getElem?_eq_some_iff.mp h
  rw [List.drop_eq_getElem_cons hlt, List.take_succ_cons, List.take_zero]
  exact List.append_nil _

/-- The lanes of one pin. -/
theorem slice_lanes {pins : List Pin} {i : Nat} {pin : Pin} (h : pins[i]? = some pin) :
    ((Pin.lanes pins).drop (Pin.lanes (pins.take i)).length).take pin.type.lanes.length =
      pin.type.lanes :=
  flatMap_slice (f := fun pin => pin.type.lanes) h

end Pin

theorem Shape.dataOutputs_of_branches {s : Shape} (h : s.branches = []) :
    s.dataOutputs = s.outputs := by
  refine List.filter_eq_self.mpr fun pin hpin => ?_
  have hnone := List.filter_eq_nil_iff.mp h pin hpin
  simpa using hnone

end SignalGraph
