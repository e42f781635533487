import SignalGraph.Analysis.DepthFirst
import SignalGraph.Program.Basic

/-!
# Order

Two conditions that make runs end: no chain of statements leads back to itself, and no expression
depends on itself.  The second search also tells which expressions are volatile, that is, may change
within a frame because they read the state of a statement.
-/

namespace SignalGraph
namespace Order

variable (nodes : Array Node)

def cycleAt (id : NodeId) : Fault :=
  match nodes[id]? with
  | some n => .cycle n.pos
  | none => .breach (.noNode id)

def following (id : NodeId) : List NodeId :=
  match nodes[id]? with
  | some n => n.controls.flatten
  | none => []

def statements : List NodeId :=
  (List.range nodes.size).filter fun id => (nodes[id]?).any (·.statement)

def checkControl : Except Fault Unit :=
  match DepthFirst.search (following nodes) nodes.size (statements nodes) with
  | .ok _ => .ok ()
  | .error id => .error (cycleAt nodes id)

def sources (inputs : List Operand) : List NodeId :=
  inputs.filterMap fun
    | .wire w => some w.source.node
    | _ => none

/-- The nodes that an expression reads.  Statements end every walk: reading one is reading a
slot. -/
def reads (id : NodeId) : List NodeId :=
  match nodes[id]? with
  | some n => if n.statement then [] else sources n.inputs
  | none => []

/-- Adds a node to the volatile ones if it is one, given those among the nodes it reads. -/
def addVolatile (id : NodeId) (volatile : List NodeId) : List NodeId :=
  if (nodes[id]?).any (·.statement) ∨ (reads nodes id).any volatile.contains then id :: volatile
  else volatile

/-- The nodes whose outputs may change within a frame.  Refuses expressions that depend on
themselves. -/
def volatileNodes : Except Fault (List NodeId) :=
  match DepthFirst.search (reads nodes) nodes.size (List.range nodes.size) with
  | .ok closed => .ok (closed.foldr (addVolatile nodes) [])
  | .error id => .error (cycleAt nodes id)

end Order
end SignalGraph
