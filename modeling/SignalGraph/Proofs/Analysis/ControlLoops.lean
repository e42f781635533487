import SignalGraph.Analysis.Order
import SignalGraph.Proofs.Search.Sweeps

/-!
# Loops of control

Statements that lead back to themselves would keep a frame from ending.  Every control output
counts: branches, bodies that run late, and what comes after a statement.

Main statement: the check for such loops ends, and it refuses the nodes if and only if there is one,
naming a statement on it.
-/

namespace SignalGraph
namespace Order

open Relation (TransGen)

variable {nodes : Array Node}

def IsStatement (nodes : Array Node) (id : NodeId) : Prop :=
  ∃ n, nodes[id]? = some n ∧ n.statement = true

def Starts (nodes : Array Node) (id target : NodeId) : Prop :=
  ∃ n ids, nodes[id]? = some n ∧ ids ∈ n.controls ∧ target ∈ ids

/-- The check with marks on the nodes and a stack of the open ones. -/
def sweepControl (nodes : Array Node) (steps : Nat) : Option (Except Fault Unit) :=
  (DepthFirst.Sweep.run (following nodes) (fun _ u => u) steps (statements nodes) (.start ())).map
    (·.mapError (cycleAt nodes))

theorem edge_following (nodes : Array Node) : DepthFirst.Edge (following nodes) = Starts nodes := by
  funext id target
  refine propext ?_
  unfold DepthFirst.Edge following Starts
  cases nodes[id]? with
  | none => simp
  | some n => simp

theorem mem_statements {id : NodeId} : id ∈ statements nodes ↔ IsStatement nodes id := by
  rw [statements, List.mem_filter, List.mem_range, Option.any_eq_true]
  exact ⟨fun h => h.2, fun ⟨n, hn, hs⟩ => ⟨(Array.getElem?_eq_some_iff.mp hn).1, n, hn, hs⟩⟩

theorem IsStatement.lt_size {id : NodeId} (h : IsStatement nodes id) : id < nodes.size := by
  obtain ⟨n, hn, -⟩ := h
  exact (Array.getElem?_eq_some_iff.mp hn).1

theorem statements_lt : ∀ id ∈ statements nodes, id < nodes.size :=
  fun _ hid => (mem_statements.mp hid).lt_size

theorem checkControl_eq : checkControl nodes =
    ((DepthFirst.search (following nodes) nodes.size (statements nodes)).map fun _ => ()).mapError
      (cycleAt nodes) := by
  unfold checkControl
  cases DepthFirst.search (following nodes) nodes.size (statements nodes) <;> rfl

/-! ## Checks by a search

A check of the nodes is a search that names the node it fails at, whatever it works out of the
finished ones. -/

section

variable {α : Type} {next : NodeId → List NodeId} {roots : List NodeId}
  (hnext : ∀ id, id < nodes.size → ∀ target ∈ next id, target < nodes.size)
    (hroots : ∀ id ∈ roots, id < nodes.size)
include hnext hroots

/-- The node that is named lies on a cycle. -/
theorem cycle_of_check {result : List NodeId → α} {fault : Fault}
    (h : ((DepthFirst.search next nodes.size roots).map result).mapError
      (cycleAt nodes) = .error fault) :
    ∃ id n, nodes[id]? = some n ∧ TransGen (DepthFirst.Edge next) id id ∧ fault = .cycle n.pos := by
  cases hsearch : DepthFirst.search next nodes.size roots with
  | ok closed =>
    rw [hsearch] at h
    exact nomatch h
  | error id =>
    obtain ⟨hid, hcycle⟩ := DepthFirst.cycle_of_search hnext hroots hsearch
    rw [hsearch] at h
    cases h
    have hget := Array.getElem?_eq_getElem hid
    exact ⟨id, nodes[id], hget, hcycle, by rw [cycleAt, hget]⟩

/-- A check whose roots include all cycles fails if and only if there is one. -/
theorem check_fails_iff (result : List NodeId → α)
    (hall : ∀ id, TransGen (DepthFirst.Edge next) id id → id ∈ roots) :
    (∃ pos, ((DepthFirst.search next nodes.size roots).map result).mapError (cycleAt nodes) =
      .error (.cycle pos)) ↔
      ∃ id, TransGen (DepthFirst.Edge next) id id := by
  constructor
  · rintro ⟨pos, hpos⟩
    obtain ⟨id, -, -, hcycle, -⟩ := cycle_of_check hnext hroots hpos
    exact ⟨id, hcycle⟩
  · intro hcycle
    obtain ⟨id, hsearch⟩ := (DepthFirst.search_eq_error_iff hnext hroots hall).mpr hcycle
    have hfail : ((DepthFirst.search next nodes.size roots).map result).mapError (cycleAt nodes) =
        .error (cycleAt nodes id) := by rw [hsearch]; rfl
    obtain ⟨_, n, -, -, hfault⟩ := cycle_of_check hnext hroots hfail
    exact ⟨n.pos, hfault ▸ hfail⟩

/-- With marks and a stack, the check ends the same way. -/
theorem sweep_ends (finish : NodeId → α → α) (init : α) : ∃ used, ∀ steps,
    (DepthFirst.Sweep.run next finish (used + steps) roots (.start init)).map
      (·.mapError (cycleAt nodes)) =
      some (((DepthFirst.search next nodes.size roots).map (·.foldr finish init)).mapError
        (cycleAt nodes)) := by
  obtain ⟨used, hused⟩ := DepthFirst.Sweep.run_search hnext finish init hroots
  exact ⟨used, fun steps => by rw [hused, Option.map_some]⟩

end

section

variable (htargets : ∀ id target, Starts nodes id target → IsStatement nodes target)
include htargets

theorem following_lt :
    ∀ id, id < nodes.size → ∀ target ∈ following nodes id, target < nodes.size := by
  intro id _ target htarget
  have hstarts : Starts nodes id target := by
    rw [← edge_following]
    exact htarget
  exact (htargets id target hstarts).lt_size

/-- A node on a loop is started, so it is a statement. -/
theorem statement_of_cycle {id : NodeId} (h : TransGen (Starts nodes) id id) :
    id ∈ statements nodes := by
  obtain ⟨before, -, hstarts⟩ := TransGen.tail'_iff.mp h
  exact mem_statements.mpr (htargets before id hstarts)

/-- The check ends.  It refuses the nodes if and only if some statement leads back to itself, and
for no other reason; the node that it names lies on such a loop. -/
theorem checkControl_exact :
    (∃ used, ∀ steps, sweepControl nodes (used + steps) = some (checkControl nodes)) ∧
    ((∃ pos, checkControl nodes = .error (.cycle pos)) ↔ ∃ id, TransGen (Starts nodes) id id) ∧
    ∀ fault, checkControl nodes = .error fault →
      ∃ id n, nodes[id]? = some n ∧ TransGen (Starts nodes) id id ∧ fault = .cycle n.pos := by
  have hlt := following_lt htargets
  have hroots : ∀ id ∈ statements nodes, id < nodes.size := statements_lt
  have hall : ∀ id, TransGen (DepthFirst.Edge (following nodes)) id id → id ∈ statements nodes := by
    rw [edge_following]
    exact fun id => statement_of_cycle htargets
  rw [checkControl_eq]
  refine ⟨sweep_ends hlt hroots (fun _ u => u) (), ?_, fun fault hfault => ?_⟩
  · rw [← edge_following]
    exact check_fails_iff hlt hroots _ hall
  · rw [← edge_following]
    exact cycle_of_check hlt hroots hfault

end

def winning (x : Int) (controls : List (List NodeId)) : Node where
  env := 0
  pos := ⟨x, 0, 0⟩
  block := 252
  kind := .effect .win
  statement := true
  constant := .none
  inputs := []
  outputs := []
  controls
  slots := []

/-- The first statement starts the second one twice, which the third one leads back to. -/
def returning : Array Node :=
  #[winning 0 [[1, 1]], winning 4 [[2], []], winning 8 [[], [3, 1]], winning 12 [[]]]

theorem checkControl_exact_returning :
    (∀ id target, Starts returning id target → IsStatement returning target) ∧
    checkControl returning = .error (.cycle ⟨4, 0, 0⟩) ∧ (∃ id, TransGen (Starts returning) id id) ∧
    ∃ used, ∀ steps, sweepControl returning (used + steps) = some (.error (.cycle ⟨4, 0, 0⟩)) := by
  have htargets : ∀ id target, Starts returning id target → IsStatement returning target := by
    rintro id target ⟨n, ids, hn, hids, htarget⟩
    have hall : ∀ n ∈ returning, ∀ ids ∈ n.controls, ∀ target ∈ ids,
        (returning[target]?).any (·.statement) = true := by
      decide
    simpa [IsStatement, Option.any_eq_true] using
      hall n (Array.mem_of_getElem? hn) ids hids target htarget
  have hfail : checkControl returning = .error (.cycle ⟨4, 0, 0⟩) := rfl
  obtain ⟨hends, hiff, -⟩ := checkControl_exact htargets
  exact ⟨htargets, hfail, hiff.mp ⟨_, hfail⟩, hfail ▸ hends⟩

end Order
end SignalGraph
