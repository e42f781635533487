import SignalGraph.Fault

/-!
# Analysed programs

What is left of a document after analysis.  Every custom block is expanded, every wire is traced to
the built-in block behind it, and each node knows its successors, its variables and its state.
Nodes, variables, slots and memo points are known by their index.
-/

namespace SignalGraph

abbrev NodeId := Nat

abbrev EnvId := Nat

abbrev SlotId := Nat

abbrev MemoId := Nat

/-- One copy of a graph.  Environment zero is the main graph. -/
structure Environment where
  graph : GraphId
  /-- How many copies of the same graph come before this one. -/
  copy : Nat
  /-- The environment and position of the custom block that stands for this copy. -/
  parent : Option (EnvId × Pos)
  deriving DecidableEq, Repr

/-- Who shares a variable. -/
inductive VariableScope where
  /-- Only blocks of one environment. -/
  | within (env : EnvId)
  | global
  /-- All blocks, and the next session as well. -/
  | saved
  deriving DecidableEq, Repr

structure Variable where
  name : String
  type : Base
  scope : VariableScope
  deriving DecidableEq, Repr

namespace Variable

/-- The scope of a name, decided by its first character. -/
def scopeOf (name : String) (env : EnvId) : VariableScope :=
  match name.toList with
  | '!' :: _ => .saved
  | '$' :: _ => .global
  | _ => .within env

def declare (name : String) (type : WireType) (env : EnvId) : Except Fault Variable :=
  match type with
  | .value b => .ok { name, type := b, scope := scopeOf name env }
  | t => .error (.pointerVariable name t)

end Variable

/-- A data output, by its place among the data outputs of the node. -/
structure Producer where
  node : NodeId
  output : Nat
  deriving DecidableEq, Repr

structure Wire where
  source : Producer
  /-- The type of the output at the far end. -/
  type : WireType
  /-- The reader wants the value that the wire's pointer leads to. -/
  deref : Bool
  /-- The memo point that the output belongs to. -/
  memo : Option MemoId
  deriving DecidableEq, Repr

inductive Operand where
  /-- Unconnected, with this value. -/
  | default (v : Value)
  /-- Unconnected, and the engine is told so; a missing pointer. -/
  | absent
  | wire (w : Wire)
  deriving DecidableEq

inductive Constant where
  | none
  | float (x : Binary32)
  | vec3 (v : Vec3)
  | rot (q : Rotation)
  | int (n : Int32)
  | ints (first second : Int32)
  | flag (b : Bool)
  | names (id : VarId)
  | inspect (name : Option String)
  | menu (name : String) (maxCount priceStep : Int32)
  deriving DecidableEq

namespace Constant

def asFloat : Constant → Binary32
  | float x => x
  | _ => 0

def asVec3 : Constant → Vec3
  | vec3 v => v
  | _ => .zero

def asRot : Constant → Rotation
  | rot q => q
  | _ => .identity

def asInt : Constant → Int32
  | int n => n
  | ints n _ => n
  | _ => 0

def asSecondInt : Constant → Int32
  | ints _ n => n
  | _ => 0

def asFlag : Constant → Bool
  | flag b => b
  | _ => false

def var? : Constant → Option VarId
  | names id => some id
  | _ => .none

def inspected : Constant → Option String
  | inspect name => name
  | _ => .none

end Constant

structure Node where
  env : EnvId
  pos : Pos
  block : KindId
  kind : Kind
  /-- Whether control runs through the node. -/
  statement : Bool
  constant : Constant
  inputs : List Operand
  outputs : List WireType
  /-- The statements that each control output starts; the last output is the one after the node. -/
  controls : List (List NodeId)
  slots : List SlotId
  deriving DecidableEq

namespace Node

def after (n : Node) : List NodeId := n.controls.getLastD []

def branch (n : Node) (i : Nat) : Except Fault (List NodeId) :=
  match n.controls.dropLast[i]? with
  | some targets => .ok targets
  | none => .error (.breach (.noBranch n.kind n.pos i))

def input (n : Node) (i : Nat) : Except Fault Operand :=
  match n.inputs[i]? with
  | some operand => .ok operand
  | none => .error (.breach (.noInput n.kind n.pos i))

def slot (n : Node) (i : Nat) : Except Fault SlotId :=
  match n.slots[i]? with
  | some id => .ok id
  | none => .error (.breach (.noOwnSlot n.kind n.pos i))

/-- The slot behind a data output of a statement, and the component that is read. -/
def outputSlot (n : Node) (output : Nat) : Except Fault (SlotId × Option Nat) :=
  match n.kind.outputSlot output with
  | none => .error (.breach (.noOutput n.kind n.pos output))
  | some (i, component) => (n.slot i).map (·, component)

end Node

/-- An output with more than one reader that is computed at most once in a frame. -/
structure MemoPoint where
  source : Producer
  type : WireType
  consumers : Nat
  deriving DecidableEq, Repr

structure Slot where
  owner : NodeId
  purpose : String
  type : Base
  deriving DecidableEq, Repr

structure Program where
  environments : List Environment
  nodes : Array Node
  /-- Statements that no control output starts. -/
  entryPoints : List NodeId
  memoPoints : List MemoPoint
  slots : List Slot
  vars : List Variable
  deriving DecidableEq

namespace Program

def node (p : Program) (id : NodeId) : Except Fault Node :=
  match p.nodes[id]? with
  | some n => .ok n
  | none => .error (.breach (.noNode id))

/-- The variable of that name and type that blocks of the main graph mean. -/
def findVariable? (p : Program) (name : String) (type : Base) : Option VarId :=
  p.vars.findIdx? fun v =>
    v.name = name ∧ v.type = type ∧ (v.scope = .within 0 ∨ v.scope = .global ∨ v.scope = .saved)

def slotOf? (p : Program) (owner : NodeId) (purpose : String) : Option SlotId :=
  p.slots.findIdx? fun s => s.owner = owner ∧ s.purpose = purpose

def lateNodes (p : Program) : List NodeId :=
  (List.range p.nodes.size).filter fun id =>
    (p.nodes[id]?).any fun n => n.kind = .statement .lateUpdate

end Program
end SignalGraph
