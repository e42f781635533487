import Mathlib.Logic.Function.Basic
import SignalGraph.Proofs.Search.Cycles

/-!
# Sweeps

A search can be made with a mark on every vertex and a stack of the open ones, each with how many of
its edges have been followed.  A vertex is worked out when it is closed, from what was worked out
before.

Main statement: a sweep ends, and it works out the finished vertices of the search in their order or
fails at the same vertex.
-/

namespace SignalGraph
namespace DepthFirst

/-- How far a search is with a vertex. -/
inductive Mark where
  | unseen
  | opened
  | closed
  deriving DecidableEq

structure Sweep (α : Type) where
  mark : Nat → Mark
  /-- The open vertices, the latest first, each with the number of its edges that were followed. -/
  stack : List (Nat × Nat)
  /-- What was worked out so far. -/
  result : α

namespace Sweep

variable {α : Type}

def start (init : α) : Sweep α := { mark := fun _ => .unseen, stack := [], result := init }

def enter (s : Sweep α) (v : Nat) : Sweep α :=
  { s with mark := Function.update s.mark v .opened, stack := (v, 0) :: s.stack }

def leave (s : Sweep α) (finish : Nat → α → α) (v : Nat) (stack : List (Nat × Nat)) : Sweep α :=
  { mark := Function.update s.mark v .closed, stack, result := finish v s.result }

/-- Follows the next edge of the vertex on top of the stack, or closes it if none is left. -/
def step (next : Nat → List Nat) (finish : Nat → α → α) (s : Sweep α) (v followed : Nat)
    (rest : List (Nat × Nat)) : Except Nat (Sweep α) :=
  match (next v)[followed]? with
  | none => .ok (s.leave finish v rest)
  | some u =>
    match s.mark u with
    | .unseen => .ok ({ s with stack := (v, followed + 1) :: rest }.enter u)
    | .opened => .error u
    | .closed => .ok { s with stack := (v, followed + 1) :: rest }

/-- Takes steps as long as the stack is not empty, and then enters the next root.  There is no
outcome if no step is left. -/
def run (next : Nat → List Nat) (finish : Nat → α → α) :
    (steps : Nat) → (roots : List Nat) → Sweep α →
    Option (Except Nat α)
  | 0, _, _ => none
  | steps + 1, roots, s =>
    match s.stack, roots with
    | [], [] => some (.ok s.result)
    | [], root :: roots =>
      run next finish steps roots (if s.mark root = .unseen then s.enter root else s)
    | (v, followed) :: rest, roots =>
      match step next finish s v followed rest with
      | .error u => some (.error u)
      | .ok s => run next finish steps roots s

variable (finish : Nat → α → α) (init : α)

/-- The sweep with these finished vertices, latest first, and this stack. -/
def during (closed : List Nat) (stack : List (Nat × Nat)) : Sweep α where
  mark v := if v ∈ closed then .closed else if v ∈ stack.map Prod.fst then .opened else .unseen
  stack
  result := closed.foldr finish init

def resume (next : Nat → List Nat) (steps : Nat) (roots : List Nat) (stack : List (Nat × Nat)) :
    Except Nat (List Nat) → Option (Except Nat α)
  | .error v => some (.error v)
  | .ok closed => run next finish steps roots (during finish init closed stack)

variable {next : Nat → List Nat} {finish init} {bound depth steps : Nat} {closed roots : List Nat}
  {stack : List (Nat × Nat)} {u v followed : Nat}

theorem enter_during (h : v ∉ closed) :
    (during finish init closed stack).enter v = during finish init closed ((v, 0) :: stack) := by
  have hmark : Function.update (during finish init closed stack).mark v .opened =
      (during finish init closed ((v, 0) :: stack)).mark := by
    funext w
    simp only [Function.update_apply, during, List.map_cons, List.mem_cons]
    by_cases hw : w = v
    · subst hw
      simp only [h, if_true, if_false, true_or]
    · simp only [hw, if_false, false_or]
  rw [enter, hmark]
  rfl

theorem leave_during : (during finish init closed ((v, followed) :: stack)).leave finish v stack =
    during finish init (v :: closed) stack := by
  have hmark : Function.update (during finish init closed ((v, followed) :: stack)).mark v .closed =
      (during finish init (v :: closed) stack).mark := by
    funext w
    simp only [Function.update_apply, during, List.map_cons, List.mem_cons]
    by_cases hw : w = v
    · simp only [hw, if_true, true_or]
    · simp only [hw, if_false, false_or]
  rw [leave, hmark]
  rfl

theorem mark_of_closed (h : v ∈ closed) (stack : List (Nat × Nat)) :
    (during finish init closed stack).mark v = .closed := if_pos h

theorem mark_of_open (hclosed : v ∉ closed) {stack : List (Nat × Nat)}
    (hopen : v ∈ stack.map Prod.fst) :
    (during finish init closed stack).mark v = .opened := (if_neg hclosed).trans (if_pos hopen)

theorem mark_of_unseen (hclosed : v ∉ closed) {stack : List (Nat × Nat)}
    (hopen : v ∉ stack.map Prod.fst) :
    (during finish init closed stack).mark v = .unseen := (if_neg hclosed).trans (if_neg hopen)

/-- A vertex is closed when all its edges have been followed. -/
theorem step_leave (h : (next v)[followed]? = none) :
    step next finish (during finish init closed ((v, followed) :: stack)) v followed stack =
      .ok (during finish init (v :: closed) stack) := by
  simp only [step, h, leave_during]

section

variable (h : (next v)[followed]? = some u)
include h

/-- An edge to a finished vertex leads nowhere. -/
theorem step_closed (hclosed : u ∈ closed) :
    step next finish (during finish init closed ((v, followed) :: stack)) v followed stack =
      .ok (during finish init closed ((v, followed + 1) :: stack)) := by
  simp only [step, h, mark_of_closed hclosed]
  rfl

/-- An edge to an open vertex ends the sweep. -/
theorem step_open (hclosed : u ∉ closed) (hopen : u ∈ v :: stack.map Prod.fst) :
    step next finish (during finish init closed ((v, followed) :: stack))
      v followed stack = .error u := by
  have hmark : (during finish init closed ((v, followed) :: stack)).mark u = .opened :=
    mark_of_open hclosed hopen
  simp only [step, h, hmark]

/-- A new vertex goes on top of the stack. -/
theorem step_unseen (hclosed : u ∉ closed) (hopen : u ∉ v :: stack.map Prod.fst) :
    step next finish (during finish init closed ((v, followed) :: stack)) v followed stack =
      .ok (during finish init closed ((u, 0) :: (v, followed + 1) :: stack)) := by
  have hmark : (during finish init closed ((v, followed) :: stack)).mark u = .unseen :=
    mark_of_unseen hclosed hopen
  simp only [step, h, hmark, ← enter_during hclosed]
  rfl

end

theorem run_top :
    run next finish (steps + 1) roots (during finish init closed ((v, followed) :: stack)) =
    match step next finish (during finish init closed ((v, followed) :: stack))
      v followed stack with
    | .error u => some (.error u)
    | .ok s => run next finish steps roots s := rfl

theorem run_step {s : Sweep α}
    (h : step next finish (during finish init closed ((v, followed) :: stack))
      v followed stack = .ok s) :
    run next finish (steps + 1) roots (during finish init closed ((v, followed) :: stack)) =
      run next finish steps roots s := by
  rw [run_top, h]

theorem run_fail
    (h : step next finish (during finish init closed ((v, followed) :: stack))
      v followed stack = .error u) :
    run next finish (steps + 1) roots (during finish init closed ((v, followed) :: stack)) =
      some (.error u) := by
  rw [run_top, h]

/-- A finished root is passed over, and a new one is entered. -/
theorem run_root (root : Nat) :
    run next finish (steps + 1) (root :: roots) (during finish init closed []) =
    run next finish steps roots
      (during finish init closed (if root ∈ closed then [] else [(root, 0)])) := by
  change run next finish steps roots (if (during finish init closed []).mark root = .unseen
    then (during finish init closed []).enter root else during finish init closed []) = _
  by_cases hclosed : root ∈ closed
  · simp [mark_of_closed hclosed [], hclosed]
  · have hmark : (during finish init closed []).mark root = .unseen :=
      mark_of_unseen hclosed List.not_mem_nil
    simp [hmark, hclosed, enter_during]

/-- The edges that are left of a vertex are followed as the recursion does it, if all new vertices
are visited so, and then the vertex is closed. -/
theorem run_edges
    (henter : ∀ {closed stack u}, OpenPath next bound depth (stack.map Prod.fst) u → u < bound →
      u ∉ closed → u ∉ stack.map Prod.fst → ∃ used, ∀ steps roots,
        run next finish (used + steps) roots (during finish init closed ((u, 0) :: stack)) =
          resume finish init next steps roots stack
            (visit next depth (stack.map Prod.fst) closed u)) :
    ∀ {edges : List Nat} (closed : List Nat) {followed : Nat}, (next v).drop followed = edges →
      (∀ u ∈ edges, u < bound ∧ OpenPath next bound depth (v :: stack.map Prod.fst) u) →
        ∃ used, ∀ steps roots,
        run next finish (used + steps) roots (during finish init closed ((v, followed) :: stack)) =
          resume finish init next steps roots stack
            ((edges.foldlM (visit next depth (v :: stack.map Prod.fst)) closed).map (v :: ·)) := by
  intro edges
  induction edges with
  | nil =>
    intro closed followed hdrop _
    have hnone : (next v)[followed]? = none :=
      List.getElem?_eq_none (List.drop_eq_nil_iff.mp hdrop)
    exact ⟨1, fun steps roots => by rw [Nat.add_comm, run_step (step_leave hnone)]; rfl⟩
  | cons u rest ih =>
    intro closed followed hdrop hedges
    obtain ⟨⟨hu, hpath⟩, hedges⟩ := List.forall_mem_cons.mp hedges
    have hget : (next v)[followed]? = some u := by
      rw [← List.head?_drop, hdrop]
      rfl
    have hrest : (next v).drop (followed + 1) = rest := by
      rw [← List.drop_drop, hdrop]
      rfl
    obtain ⟨depth, rfl⟩ := Nat.exists_eq_succ_of_ne_zero hpath.depth_ne_zero
    by_cases hclosed : u ∈ closed
    · obtain ⟨used, hused⟩ := ih closed hrest hedges
      refine ⟨used + 1, fun steps roots => ?_⟩
      rw [Nat.add_right_comm, run_step (step_closed hget hclosed), hused, List.foldlM_cons,
        visit_of_closed hclosed]
      rfl
    by_cases hopen : u ∈ v :: stack.map Prod.fst
    · refine ⟨1, fun steps roots => ?_⟩
      rw [Nat.add_comm, run_fail (step_open hget hclosed hopen), List.foldlM_cons,
        visit_of_open hclosed hopen]
      rfl
    have hpath' : OpenPath next bound (depth + 1) (((v, followed + 1) :: stack).map Prod.fst) u :=
      hpath
    obtain ⟨first, hfirst⟩ := henter hpath' hu hclosed hopen
    cases hvisit : visit next (depth + 1) (v :: stack.map Prod.fst) closed u with
    | error w =>
      refine ⟨first + 1, fun steps roots => ?_⟩
      rw [Nat.add_right_comm, run_step (step_unseen hget hclosed hopen), hfirst, List.foldlM_cons]
      simp only [List.map_cons, hvisit]
      rfl
    | ok mid =>
      obtain ⟨second, hsecond⟩ := ih mid hrest hedges
      refine ⟨first + second + 1, fun steps roots => ?_⟩
      rw [Nat.add_right_comm, run_step (step_unseen hget hclosed hopen), Nat.add_assoc, hfirst,
        List.foldlM_cons]
      simp only [List.map_cons, hvisit]
      exact hsecond steps roots

variable (hnext : ∀ v, v < bound → ∀ u ∈ next v, u < bound)
include hnext

/-- A new vertex on top of the stack is done, with all that it leads to, as the recursion does
it. -/
theorem run_visit (finish : Nat → α → α) (init : α) : ∀ {depth : Nat} {closed : List Nat}
    {stack : List (Nat × Nat)} {u : Nat},
      OpenPath next bound depth (stack.map Prod.fst) u → u < bound →
      u ∉ closed → u ∉ stack.map Prod.fst → ∃ used, ∀ steps roots,
        run next finish (used + steps) roots (during finish init closed ((u, 0) :: stack)) =
          resume finish init next steps roots stack
            (visit next depth (stack.map Prod.fst) closed u) := by
  intro depth
  induction depth with
  | zero => exact fun hpath _ _ _ => absurd rfl hpath.depth_ne_zero
  | succ depth ih =>
    intro closed stack u hpath hu hclosed hopen
    rw [visit_of_unseen hclosed hopen]
    exact run_edges ih closed List.drop_zero fun w hw => ⟨hnext u hu w hw, hpath.push hu hopen hw⟩

theorem run_roots (finish : Nat → α → α) (init : α) : ∀ {roots : List Nat} (closed : List Nat),
    (∀ v ∈ roots, v < bound) →
      ∃ used, ∀ steps, run next finish (used + steps) roots (during finish init closed []) =
      some ((roots.foldlM (visit next (bound + 1) []) closed).map fun closed =>
        closed.foldr finish init) := by
  intro roots
  induction roots with
  | nil => exact fun _ _ => ⟨1, fun steps => by rw [Nat.add_comm]; rfl⟩
  | cons root rest ih =>
    intro closed hroots
    obtain ⟨hroot, hrest⟩ := List.forall_mem_cons.mp hroots
    by_cases hclosed : root ∈ closed
    · obtain ⟨used, hused⟩ := ih closed hrest
      refine ⟨used + 1, fun steps => ?_⟩
      rw [Nat.add_right_comm, run_root, if_pos hclosed, hused, List.foldlM_cons,
        visit_of_closed hclosed]
      rfl
    have hpath : OpenPath next bound (bound + 1) (([] : List (Nat × Nat)).map Prod.fst) root :=
      openPath_nil next bound root
    obtain ⟨first, hfirst⟩ := run_visit hnext finish init hpath hroot hclosed List.not_mem_nil
    rw [List.map_nil] at hfirst
    cases hvisit : visit next (bound + 1) [] closed root with
    | error w =>
      refine ⟨first + 1, fun steps => ?_⟩
      rw [Nat.add_right_comm, run_root, if_neg hclosed, hfirst, List.foldlM_cons, hvisit]
      rfl
    | ok mid =>
      obtain ⟨second, hsecond⟩ := ih mid hrest
      refine ⟨first + second + 1, fun steps => ?_⟩
      rw [Nat.add_right_comm, run_root, if_neg hclosed, Nat.add_assoc, hfirst,
        List.foldlM_cons, hvisit]
      exact hsecond steps

/-- A sweep ends with the outcome of the search. -/
theorem run_search (finish : Nat → α → α) (init : α) {roots : List Nat}
    (hroots : ∀ v ∈ roots, v < bound) :
    ∃ used, ∀ steps, run next finish (used + steps) roots (start init) =
      some ((search next bound roots).map fun closed => closed.foldr finish init) :=
  run_roots hnext finish init [] hroots

end Sweep
end DepthFirst
end SignalGraph
