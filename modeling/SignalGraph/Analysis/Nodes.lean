import SignalGraph.Analysis.Tracing
import SignalGraph.Geometry.Routines

/-!
# Nodes

The node of the program behind each built-in block: its constant, the operands at its inputs, and
the statements that its control outputs start.
-/

namespace SignalGraph
namespace Nodes

def variableName (decl : NodeDecl) : String := (decl.text? 0).getD ""

def named? (env : EnvId) (decl : NodeDecl) (kind : Kind) : Except Fault (Option Variable) :=
  match kind.variableType with
  | none => .ok none
  | some type => (Variable.declare (variableName decl) type env).map some

/-- All variables in the order in which the blocks first name them. -/
def vars (x : Expansion) : List Variable :=
  (x.instances.filterMap fun (env, m) =>
    match m.kind?.map (named? env m.decl) with
    | some (.ok (some v)) => some v
    | _ => none).eraseDups

def vector (decl : NodeDecl) : Vec3 :=
  match decl.vec3? 0 with
  | some (x, y, z) => ⟨x, y, z⟩
  | none => .zero

def constant (names : Variable → VarId) (env : EnvId) (decl : NodeDecl) (kind : Kind) :
    Except Fault Constant := do
  if let some v ← named? env decl kind then return .names (names v)
  let number := fun i => (decl.int? i).getD 0
  return match kind with
  | .expression (.literal .number) => .float ((decl.float? 0).getD 0)
  | .expression (.literal .vector) => .vec3 (vector decl)
  | .expression (.literal .rotation) =>
    let angles := vector decl
    .rot (Routines.makeRotation angles.x angles.y angles.z)
  | .statement (.effect .win) => .int (number 0)
  | .statement (.effect .lose) => .int (number 0)
  | .statement (.effect .setScore) => .int (number 0)
  | .statement (.effect .setCamera) => .flag ((decl.bool? 0).getD false)
  | .statement (.effect .playSound) => .int (number 0)
  | .statement (.effect .joystick) => .int (number 0)
  | .statement .touchSensor => .ints (number 0) (number 1)
  | .statement .button => .int (number 0)
  | .statement .menuItem => .menu ((decl.text? 0).getD "") ((decl.int? 1).getD 1) (number 2)
  | .statement (.inspect _) => .inspect none
  | _ => .none

def operand (x : Expansion) (env : EnvId) (m : Member) (kind : Kind) (input : Nat)
    (terminal : Terminal) : Except Fault Operand := do
  match ← x.driver ⟨env, m.decl.pos, terminal.pos⟩ with
  | some (source, type) =>
    if type.drives terminal.type then
      return .wire
        { source, type, deref := type.isPointer && !terminal.type.isPointer, memo := none }
    else throw (.typeMismatch m.decl.pos terminal.type type)
  | none =>
    if terminal.type.isPointer || m.block.optional.getD input false then return .absent
    else return .default (kind.inputDefault input terminal.type)

def build (x : Expansion) (names : Variable → VarId) (env : EnvId) (m : Member) (kind : Kind) :
    Except Fault Node := do
  let constant ← constant names env m.decl kind
  let inputs ← m.block.dataInputs.zipIdx.mapM fun (t, i) => operand x env m kind i t
  let controls ← m.block.controlOutputs.mapM fun t => x.successors ⟨env, m.decl.pos, t.pos⟩
  return {
    env, kind, constant, inputs, controls
    pos := m.decl.pos
    block := m.block.id
    statement := m.block.active
    outputs := m.block.dataOutputs.map (·.type)
    slots := [] }

def isEntry (x : Expansion) (env : EnvId) (m : Member) : Except Fault Bool :=
  match m.block.before with
  | none => .ok false
  | some t => (x.isDriven ⟨env, m.decl.pos, t.pos⟩).map (!·)

def all (x : Expansion) (vars : List Variable) : Except Fault (List (Node × Bool)) :=
  x.instances.filterMapM fun (env, m) =>
    match m.kind? with
    | none => return none
    | some kind => do
      let node ← build x vars.idxOf env m kind
      return some (node, ← isEntry x env m)

/-- The variable behind the first input of a node, if a variable block is wired straight to it. -/
def inspectedName (nodes : List Node) (vars : List Variable) (n : Node) : Option String :=
  match n.inputs with
  | .wire w :: _ => do
    let source ← nodes[w.source.node]?
    let id ← source.constant.var?
    return (← vars[id]?).name
  | _ => none

def nameInspected (vars : List Variable) (nodes : List Node) : List Node :=
  nodes.map fun n =>
    match n.kind with
    | .statement (.inspect _) =>
      { n with constant := .inspect (inspectedName nodes vars n) }
    | _ => n

end Nodes
end SignalGraph
