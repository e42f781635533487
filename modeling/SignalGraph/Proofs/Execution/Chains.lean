import Mathlib.Algebra.Order.BigOperators.Group.List
import Mathlib.Algebra.Order.Ring.Nat
import SignalGraph.Proofs.Execution.Depth

/-!
# Chains

Running a chain is running its parts one after the other, and a single statement is run before what
follows it.

Statements can also be taken one at a time from a stack, so that what follows the statement that was
taken comes on top of the rest, and only what lies within a statement has to be taken by another
loop.  Such a loop ends, and it does what the recursion does, whatever statements it takes together
with all that follows them.
-/

namespace SignalGraph

/-! ## Loops over a stack -/

namespace StackLoop

variable {m : Type → Type} [Monad m]

/-- Takes statements from the top of the stack until it is empty.  A visit tells what comes on top
of the rest; what lies within the statement it takes itself, by the function it is given.  `out` is
done if no turn is left. -/
def run (visit : (List NodeId → m Unit) → NodeId → m (List NodeId)) (out : List NodeId → m Unit) :
    (turns : Nat) → List NodeId → m Unit
  | 0, stack => out stack
  | _ + 1, [] => return ()
  | turns + 1, id :: rest => do
    let next ← visit (run visit out turns) id
    run visit out turns (next ++ rest)

/-- How much there is to do for several statements, given how much there is for each. -/
def total (weight : NodeId → Nat) (ids : List NodeId) : Nat := (ids.map weight).sum

theorem total_append (weight : NodeId → Nat) (a b : List NodeId) :
    total weight (a ++ b) = total weight a + total weight b := by
  rw [total, List.map_append, List.sum_append, total, total]

theorem total_cons (weight : NodeId → Nat) (id : NodeId) (rest : List NodeId) :
    total weight (id :: rest) = weight id + total weight rest := List.sum_cons

/-- Of several lists, each has less to do than all together. -/
theorem total_le_flatten (weight : NodeId → Nat) {ids : List NodeId} :
    ∀ {lists : List (List NodeId)},
    ids ∈ lists → total weight ids ≤ total weight lists.flatten
  | first :: rest, h => by
    rw [List.flatten_cons, total_append]
    rcases List.mem_cons.mp h with rfl | h
    · exact Nat.le_add_right _ _
    · exact Nat.le_trans (total_le_flatten weight h) (Nat.le_add_left _ _)

/-- A recursion over lists of statements whose parts are visits.  A visit and what comes next are
the recursion on the statement, if the recursion also takes what has less to do than the
statement. -/
structure Unfolds (visit : (List NodeId → m Unit) → NodeId → m (List NodeId))
    (walk : List NodeId → m Unit)
    (Known : NodeId → Prop) (weight : NodeId → Nat) : Prop where
  nil : walk [] = pure ()
  append : ∀ a b, walk (a ++ b) = do walk a; walk b
  visit : ∀ id, Known id → ∀ enter : List NodeId → m Unit,
    (∀ ids, (∀ i ∈ ids, Known i) → total weight ids < weight id → enter ids = walk ids) →
    ∃ (act : m Unit) (next : List NodeId), visit enter id = (do act; return next) ∧
      walk [id] = (do act; walk next) ∧ (∀ i ∈ next, Known i) ∧ total weight next < weight id

variable [LawfulMonad m] {visit : (List NodeId → m Unit) → NodeId → m (List NodeId)}
  {walk out : List NodeId → m Unit} {Known : NodeId → Prop} {weight : NodeId → Nat}

/-- More turns than there is to do are enough, so no turn is ever missed.  By induction on the
turns: a visit leaves less to do than there was, on the stack and for the loops within it. -/
theorem run_eq (h : Unfolds visit walk Known weight) : ∀ {turns : Nat} {stack : List NodeId},
    (∀ id ∈ stack, Known id) → total weight stack < turns → run visit out turns stack = walk stack
  | 0, _, _, hlt => absurd hlt (Nat.not_lt_zero _)
  | _ + 1, [], _, _ => h.nil.symm
  | turns + 1, id :: rest, hknown, hlt => by
    obtain ⟨hid, hrest⟩ := List.forall_mem_cons.mp hknown
    rw [total_cons] at hlt
    obtain ⟨act, next, hvisit, hwalk, hnext, hless⟩ := h.visit id hid (run visit out turns)
      fun ids hids hids' => run_eq h hids (by omega)
    have hgood : ∀ i ∈ next ++ rest, Known i := fun i hi =>
      (List.mem_append.mp hi).elim (hnext i) (hrest i)
    have hagain : run visit out turns (next ++ rest) = walk (next ++ rest) :=
      run_eq h hgood (by rw [total_append]; omega)
    calc run visit out (turns + 1) (id :: rest)
        = visit (run visit out turns) id >>= fun next => run visit out turns (next ++ rest) := rfl
      _ = act >>= fun _ => walk (next ++ rest) := by rw [hvisit, bind_assoc, pure_bind, hagain]
      _ = walk [id] >>= fun _ => walk rest := by rw [h.append, hwalk, bind_assoc]
      _ = walk (id :: rest) := (h.append [id] rest).symm

end StackLoop

namespace Program

variable {p : Program}

/-- How many statements all control wires lead to, counted for each wire. -/
def width (p : Program) : Nat := (p.nodes.toList.flatMap fun n => n.controls.flatten).length

theorem length_controls_le {id : NodeId} {n : Node} (hget : p.nodes[id]? = some n) :
    n.controls.flatten.length ≤ p.width := by
  have hmem : n ∈ p.nodes.toList := Array.mem_toList_iff.mpr (Array.mem_of_getElem? hget)
  obtain ⟨before, after, heq⟩ := List.append_of_mem hmem
  rw [width, heq, List.flatMap_append, List.flatMap_cons, List.length_append, List.length_append]
  omega

/-- Control that never comes back leaves only so much to do after each statement. -/
theorem WellFormed.exists_weight (hp : p.WellFormed) : ∃ weight : NodeId → Nat,
    ∀ (id : NodeId) (n : Node), p.nodes[id]? = some n →
      StackLoop.total weight n.controls.flatten < weight id := by
  obtain ⟨rank, hrank⟩ := hp.leads
  refine ⟨fun id => (p.width + 1) ^ rank id, fun id n hget => ?_⟩
  have hfalls : ∀ t ∈ n.controls.flatten, rank t < rank id := by
    intro t ht
    obtain ⟨ids, hids, ht⟩ := List.mem_flatten.mp ht
    exact hrank.falls id t ⟨n, ids, hget, hids, ht⟩
  rcases Nat.eq_zero_or_pos (rank id) with hzero | hpos
  · have hnone : n.controls.flatten = [] :=
      List.eq_nil_iff_forall_not_mem.mpr fun t ht => absurd (hfalls t ht) (by omega)
    rw [hnone]
    exact Nat.pow_pos (Nat.succ_pos _)
  · have hle : ∀ w ∈ n.controls.flatten.map fun t => (p.width + 1) ^ rank t,
        w ≤ (p.width + 1) ^ (rank id - 1) := by
      intro w hw
      obtain ⟨t, ht, rfl⟩ := List.mem_map.mp hw
      exact Nat.pow_le_pow_right (Nat.succ_pos _) (Nat.le_sub_one_of_lt (hfalls t ht))
    calc StackLoop.total (fun t => (p.width + 1) ^ rank t) n.controls.flatten
        ≤ n.controls.flatten.length * (p.width + 1) ^ (rank id - 1) := by
          have hsum := List.sum_le_card_nsmul _ _ hle
          rwa [List.length_map, Nat.nsmul_eq_mul] at hsum
      _ < (p.width + 1) * (p.width + 1) ^ (rank id - 1) :=
          Nat.mul_lt_mul_of_pos_right (Nat.lt_succ_of_le (length_controls_le hget))
            (Nat.pow_pos (Nat.succ_pos _))
      _ = (p.width + 1) ^ rank id := by
          rw [← Nat.pow_succ', Nat.succ_eq_add_one, Nat.sub_add_cancel hpos]

end Program

namespace Interpreter

variable {σ : Type} {e : Engine σ} {p : Program}

theorem run_nil : run e p [] = pure () := rfl

theorem run_append (xs ys : List NodeId) : run e p (xs ++ ys) = (do run e p xs; run e p ys) :=
  List.forM_append

theorem run_singleton (hp : p.WellFormed) {id : NodeId} (hid : p.IsStatement id) :
    run e p [id] = step e p (run e p) id := by
  rw [run_eq hp fun i hi => List.mem_singleton.mp hi ▸ hid, List.forM_eq_forM, List.forM_cons,
    List.forM_nil,
    bind_pure_unit]

/-- A single statement, and then what follows it. -/
theorem run_single (hp : p.WellFormed) {id : NodeId} {n : Node} {st : Statement}
    (hget : p.nodes[id]? = some n)
    (hs : n.statement = true) (hkind : n.kind = .statement st) :
    run e p [id] = (do
      execute e p.vars (value e p) (run e p) id n st
      run e p n.after) := by
  rw [run_singleton hp ⟨n, hget, hs⟩, step_eq hget hkind]

/-- Runs a statement with what is within it.  What follows it is to be run next, unless the
statement is taken together with all that follows. -/
def visit (e : Engine σ) (p : Program) (together : NodeId → Bool) (enter : List NodeId → Run σ Unit)
    (id : NodeId) : Run σ (List NodeId) := do
  let n ← check (p.node id)
  match n.kind with
  | .statement s => execute e p.vars (value e p) enter id n s
  | kind => throw (.breach (.notStatement kind n.pos))
  if together id then
    enter n.after
    return []
  else return n.after

variable {together : NodeId → Bool}

theorem visit_eq {enter : List NodeId → Run σ Unit} {id : NodeId} {n : Node} {st : Statement}
    (hget : p.nodes[id]? = some n) (hkind : n.kind = .statement st) :
    visit e p together enter id = (do
      execute e p.vars (value e p) enter id n st
      if together id then
        enter n.after
        return []
      else return n.after) := by
  have hvisit : visit e p together enter id = (do
      match n.kind with
      | .statement s => execute e p.vars (value e p) enter id n s
      | kind => throw (.breach (.notStatement kind n.pos))
      if together id then
        enter n.after
        return []
      else return n.after) := by
    unfold visit
    rw [Program.node_eq_ok hget]
    rfl
  rw [hvisit, hkind]

theorem unfolds_run (hp : p.WellFormed) {weight : NodeId → Nat}
    (hweight : ∀ (id : NodeId) (n : Node),
      p.nodes[id]? = some n → StackLoop.total weight n.controls.flatten < weight id) :
    StackLoop.Unfolds (visit e p together) (run e p) p.IsStatement weight := by
  refine ⟨run_nil, run_append, fun id ⟨n, hget, hs⟩ enter henter => ?_⟩
  have hn := hp.nodes id n hget
  obtain ⟨st, hkind⟩ := hn.statementKind hs
  have hless : ∀ ids ∈ n.controls, StackLoop.total weight ids < weight id := fun ids hids =>
    Nat.lt_of_le_of_lt (StackLoop.total_le_flatten weight hids) (hweight id n hget)
  have hwithin : ∀ ids ∈ n.controls, enter ids = run e p ids := fun ids hids =>
    henter ids (hn.targets ids hids) (hless ids hids)
  have hafter := hn.after hs
  have hexecute : execute e p.vars (value e p) enter id n st = execute e p.vars (value e p)
    (run e p) id n st :=
    execute_congr e p.vars (fun _ _ => rfl) hwithin id st
  rw [visit_eq hget hkind, run_single hp hget hs hkind, hexecute]
  by_cases htogether : together id = true
  · refine ⟨do execute e p.vars (value e p) (run e p) id n st; run e p n.after, [], ?_, ?_,
      fun _ h => absurd h List.not_mem_nil, Nat.lt_of_le_of_lt (Nat.zero_le _) (hless _ hafter)⟩
    · rw [if_pos htogether, hwithin _ hafter, bind_assoc]
    · rw [run_nil, bind_assoc, bind_pure_unit]
  · refine ⟨execute e p.vars (value e p) (run e p) id n st, n.after, ?_, rfl, hn.targets _ hafter,
      hless _ hafter⟩
    rw [if_neg htogether]

/-- The loop does what the recursion does, after a number of turns that is enough for every
choice. -/
theorem exists_turns (e : Engine σ) (hp : p.WellFormed) {ids : List NodeId}
    (hids : ∀ id ∈ ids, p.IsStatement id) :
    ∃ turns, ∀ more together out, turns ≤ more →
      StackLoop.run (visit e p together) out more ids = run e p ids := by
  obtain ⟨weight, hweight⟩ := hp.exists_weight
  refine ⟨StackLoop.total weight ids + 1, fun more together out hmore => ?_⟩
  exact StackLoop.run_eq (unfolds_run hp hweight) hids hmore

end Interpreter
end SignalGraph
