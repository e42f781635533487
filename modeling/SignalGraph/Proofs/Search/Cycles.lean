import Mathlib.Logic.Relation
import SignalGraph.Proofs.Search.Basic

/-!
# Cycles

While a search is under way the open vertices form a path, so an edge back to one of them closes a
cycle.  The path has no vertex twice, hence it never grows to the length at which a visit gives up.

Main statement: a search fails if and only if there is a cycle, and the vertex that it fails at lies
on one.
-/

namespace SignalGraph
namespace DepthFirst

open Relation (TransGen)

/-- An edge of a graph that is given by the successors of each vertex. -/
def Edge (next : Nat → List Nat) (v u : Nat) : Prop := u ∈ next v

/-- Each vertex of a path has an edge to the one before it in the list, and the first one to `v`. -/
def Trail (next : Nat → List Nat) : (path : List Nat) → (v : Nat) → Prop
  | [], _ => True
  | u :: path, v => v ∈ next u ∧ Trail next path u

/-- The open vertices when `v` is visited, with enough depth left for all others. -/
structure OpenPath (next : Nat → List Nat) (bound depth : Nat) (path : List Nat)
    (v : Nat) : Prop where
  trail : Trail next path v
  nodup : path.Nodup
  below : ∀ u ∈ path, u < bound
  room : bound < path.length + depth

variable {next : Nat → List Nat} {bound depth : Nat} {path closed roots : List Nat} {u v : Nat}

theorem transGen_of_trail (h : Trail next path v) (hu : u ∈ path) : TransGen (Edge next) u v := by
  induction path generalizing v with
  | nil => exact nomatch hu
  | cons w path ih =>
    obtain ⟨hedge, htrail⟩ := h
    rcases List.mem_cons.mp hu with rfl | hu
    · exact .single hedge
    · exact .tail (ih htrail hu) hedge

theorem openPath_nil (next : Nat → List Nat) (bound v : Nat) :
    OpenPath next bound (bound + 1) [] v :=
  ⟨trivial, List.nodup_nil, (fun _ hu => nomatch hu), by simp⟩

/-- A path below the bound is no longer than the bound. -/
theorem OpenPath.depth_ne_zero (h : OpenPath next bound depth path v) : depth ≠ 0 := by
  rintro rfl
  have hsub : path ⊆ List.range bound := fun u hu => List.mem_range.mpr (h.below u hu)
  have hlen := h.nodup.length_le_of_subset hsub
  rw [List.length_range] at hlen
  exact Nat.lt_irrefl bound (Nat.lt_of_lt_of_le h.room hlen)

theorem OpenPath.push (h : OpenPath next bound (depth + 1) path v) (hv : v < bound)
    (hfresh : v ∉ path)
    (hu : u ∈ next v) : OpenPath next bound depth (v :: path) u where
  trail := ⟨hu, h.trail⟩
  nodup := List.nodup_cons.mpr ⟨hfresh, h.nodup⟩
  below := List.forall_mem_cons.mpr ⟨hv, h.below⟩
  room := by
    have hroom := h.room
    simp only [List.length_cons]
    omega

theorem visit_of_closed (h : v ∈ closed) : visit next (depth + 1) path closed v = .ok closed := by
  rw [visit, if_pos (by simpa using h)]

theorem visit_of_open (hclosed : v ∉ closed) (hopen : v ∈ path) :
    visit next (depth + 1) path closed v = .error v := by
  rw [visit, if_neg (by simpa using hclosed), if_pos (by simpa using hopen)]

/-- A new vertex is finished after all that it leads to. -/
theorem visit_of_unseen (hclosed : v ∉ closed) (hopen : v ∉ path) :
    visit next (depth + 1) path closed v =
    ((next v).foldlM (visit next depth (v :: path)) closed).map (v :: ·) := by
  rw [visit, if_neg (by simpa using hclosed), if_neg (by simpa using hopen)]
  cases (next v).foldlM (visit next depth (v :: path)) closed <;> rfl

/-- A visit that fails does so at a vertex on a cycle. -/
theorem cycle_of_visit (hnext : ∀ v, v < bound → ∀ u ∈ next v, u < bound) :
    ∀ {depth : Nat} {path closed : List Nat} {v u : Nat},
      OpenPath next bound depth path v → v < bound →
      visit next depth path closed v = .error u → u < bound ∧ TransGen (Edge next) u u := by
  intro depth
  induction depth with
  | zero => exact fun hpath _ _ => absurd rfl hpath.depth_ne_zero
  | succ depth ih =>
    intro path closed v u hpath hv h
    by_cases hclosed : v ∈ closed
    · rw [visit_of_closed hclosed] at h
      exact nomatch h
    by_cases hopen : v ∈ path
    · rw [visit_of_open hclosed hopen] at h
      cases h
      exact ⟨hv, transGen_of_trail hpath.trail hopen⟩
    rw [visit_of_unseen hclosed hopen] at h
    obtain ⟨w, hw, mid, hfail⟩ := Outcome.foldlM_eq_error (Outcome.map_eq_error.mp h)
    exact ih (hpath.push hv hopen hw) (hnext v hv w hw) hfail

theorem cycle_of_search (hnext : ∀ v, v < bound → ∀ u ∈ next v, u < bound)
    (hroots : ∀ v ∈ roots, v < bound)
    (h : search next bound roots = .error u) : u < bound ∧ TransGen (Edge next) u u := by
  obtain ⟨v, hv, mid, hfail⟩ := Outcome.foldlM_eq_error h
  exact cycle_of_visit hnext (openPath_nil next bound v) (hroots v hv) hfail

/-- Along a path between finished vertices the rank falls. -/
theorem rank_lt_of_transGen (hord : Ordered next closed) (hv : v ∈ closed)
    (h : TransGen (Edge next) v u) :
    u ∈ closed ∧ rank closed u < rank closed v := by
  induction h with
  | single hedge => exact rank_lt_rank hord hv hedge
  | tail _ hedge ih =>
    obtain ⟨hmem, hlt⟩ := rank_lt_rank hord ih.1 hedge
    exact ⟨hmem, Nat.lt_trans hlt ih.2⟩

/-- No finished vertex lies on a cycle. -/
theorem not_cycle_of_ordered (hord : Ordered next closed) (hv : v ∈ closed) :
    ¬TransGen (Edge next) v v :=
  fun h => Nat.lt_irrefl _ (rank_lt_of_transGen hord hv h).2

/-- A search whose roots include all cycles fails if and only if there is one. -/
theorem search_eq_error_iff (hnext : ∀ v, v < bound → ∀ u ∈ next v, u < bound)
    (hroots : ∀ v ∈ roots, v < bound)
    (hall : ∀ v, TransGen (Edge next) v v → v ∈ roots) :
    (∃ u, search next bound roots = .error u) ↔ ∃ v, TransGen (Edge next) v v := by
  constructor
  · rintro ⟨u, h⟩
    exact ⟨u, (cycle_of_search hnext hroots h).2⟩
  · rintro ⟨v, hcycle⟩
    cases h : search next bound roots with
    | error u => exact ⟨u, rfl⟩
    | ok closed =>
      obtain ⟨hord, hsub⟩ := ordered_of_search h
      exact absurd hcycle (not_cycle_of_ordered hord (hsub (hall v hcycle)))

end DepthFirst
end SignalGraph
