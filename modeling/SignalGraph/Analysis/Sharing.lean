import SignalGraph.Program.Basic

/-!
# Sharing

Which outputs are computed once in a frame: those with more than one reader that cannot change
within a frame.
-/

namespace SignalGraph
namespace Sharing

def wires (nodes : List Node) : List Wire :=
  nodes.flatMap fun n => n.inputs.filterMap fun
    | .wire w => some w
    | _ => none

def ofNode (wires : List Wire) (volatile : List NodeId) (n : Node) (id : NodeId) :
    List MemoPoint :=
  if volatile.contains id then []
  else n.outputs.zipIdx.filterMap fun (type, output) =>
    let source : Producer := { node := id, output }
    let consumers := wires.countP (·.source = source)
    if 1 < consumers then some { source, type, consumers } else none

def memoPoints (nodes : List Node) (volatile : List NodeId) : List MemoPoint :=
  nodes.zipIdx.flatMap fun (n, id) => ofNode (wires nodes) volatile n id

def tagOperand (points : List MemoPoint) : Operand → Operand
  | .wire w => .wire { w with memo := points.findIdx? (·.source = w.source) }
  | operand => operand

def tag (points : List MemoPoint) (nodes : List Node) : List Node :=
  nodes.map fun n => { n with inputs := n.inputs.map (tagOperand points) }

def slots (nodes : List Node) : List Slot :=
  nodes.zipIdx.flatMap fun (n, owner) =>
    n.kind.slots.map fun (purpose, type) => { owner, purpose, type }

/-- Numbers the slots of the nodes from `first` on. -/
def assignSlots : (first : SlotId) → List Node → List Node
  | _, [] => []
  | first, n :: rest =>
    let count := n.kind.slots.length
    { n with slots := List.range' first count } :: assignSlots (first + count) rest

end Sharing
end SignalGraph
