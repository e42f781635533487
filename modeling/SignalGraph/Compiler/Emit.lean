import SignalGraph.Compiler.Import

/-!
# Emission

The code of each node.  Expressions leave the lanes of their output on the stack, and statements
leave nothing.  Only control flow and arithmetic of single instructions become code; all else is a
call.
-/

namespace SignalGraph
namespace Compiler

open Wasm

abbrev Code := List Instr

/-- The locals of the function that is being emitted, after its parameters. -/
structure Locals where
  params : Nat
  types : List LaneType := []

abbrev Emit := StateT Locals (Except Fault)

/-- What the code of a node refers to: the program, and the statements that have functions of their
own because more than one control wire leads to them. -/
structure Target where
  program : Program
  outlined : List NodeId

namespace Target

def imports : Nat := Import.table.length

def frameFunction : Nat := imports

def lateFunction : Nat := imports + 1

def memoFunction (id : MemoId) : Nat := imports + 2 + id

def outlinedFunction (x : Target) (i : Nat) : Nat :=
  imports + 2 + x.program.memoPoints.length + i

def frameGlobal : Nat := 0

/-- The first global of a memo point: the frame it was computed in, with the lanes after it. -/
def stampGlobal (x : Target) (id : MemoId) : Nat :=
  (x.program.memoPoints.take id).foldl (fun next m => next + 1 + m.type.lanes.length) 1

end Target

def callImport (i : Import) : Instr := .call i.index

def int (n : Int32) : Instr := .const (.i32 n)

def number (x : Binary32) : Instr := .const (.f32 x)

def id (n : Nat) : Instr := int (Int32.ofNat n)

def value (v : Value) : Code := (Lanes.ofValue v).map .const

/-- A local that no other code uses. -/
def fresh (t : LaneType) : Emit Nat := modifyGet fun l =>
  (l.params + l.types.length, { l with types := l.types ++ [t] })

/-- Moves the lanes on the stack into fresh locals; returns the locals from the lowest lane up. -/
def spill (types : List LaneType) : Emit (List Nat × Code) := do
  let locals ← types.mapM fresh
  return (locals, locals.reverse.map .localSet)

def getLocals (locals : List Nat) : Code := locals.map .localGet

/-- Drops all lanes on the stack but `count` from `start` on. -/
def keep (types : List LaneType) (start count : Nat) : Emit Code := do
  let (locals, code) ← spill types
  return code ++ getLocals ((locals.drop start).take count)

/-- Drops the outputs of a block but one; numbers past the last output mean the last. -/
def keepOutput (pins : List Pin) (output : Nat) : Emit Code :=
  if pins.length ≤ 1 then return []
  else
    let i := min output (pins.length - 1)
    let start := (Pin.lanes (pins.take i)).length
    keep (Pin.lanes pins) start (Pin.lanes ((pins.drop i).take 1)).length

def inputType (n : Node) (i : Nat) : Except Fault WireType :=
  match n.kind.shape.inputs[i]? with
  | some pin => .ok pin.type
  | none => .error (.breach (.noInput n.kind n.pos i))

/-! ## Expressions

`produce` emits an output of another node. -/

def unconnected (type : WireType) : Code :=
  if type.isPointer then Lanes.noPointer.map .const else value type.default

def wire (produce : Producer → Emit Code) (w : Wire) : Emit Code := do
  let code ← match w.memo with
    | some id => pure [Instr.call (Target.memoFunction id)]
    | none => produce w.source
  if w.deref then return code ++ [callImport (.getVariable (.ofType w.type))] else return code

def operand (produce : Producer → Emit Code) (n : Node) (i : Nat) : Emit Code := do
  match ← n.input i with
  | .default v => return value v
  | .absent => return unconnected (← inputType n i)
  | .wire w => wire produce w

/-- An input that may be left out: a flag that tells whether it is there, and its lanes. -/
def flaggedOperand (produce : Producer → Emit Code) (n : Node) (i : Nat) : Emit Code := do
  match ← n.input i with
  | .absent => return int 0 :: value (← inputType n i).default
  | _ => return int 1 :: (← operand produce n i)

def operands (produce : Producer → Emit Code) (n : Node) (count : Nat) : Emit Code := do
  return (← (List.range count).mapM (operand produce n)).flatten

def effectOperands (produce : Producer → Emit Code) (n : Node) (pins : List Pin) : Emit Code := do
  return (← pins.zipIdx.mapM fun (pin, i) =>
    if pin.optional then flaggedOperand produce n i else operand produce n i).flatten

def eachComponent (op : Numeric) : Emit Code := do
  let (locals, code) ← spill (List.replicate 6 .f32)
  return code ++ (List.range 3).flatMap fun i =>
    getLocals [locals.getD i 0, locals.getD (i + 3) 0] ++ [.numeric op]

def scaleComponents : Emit Code := do
  let (locals, code) ← spill (List.replicate 4 .f32)
  return code ++ (List.range 3).flatMap fun i =>
    getLocals [locals.getD i 0, locals.getD 3 0] ++ [.numeric .f32Mul]

def operation (op : Operation) (output : Nat) : Emit Code :=
  match op with
  | .negate => return [.numeric .f32Neg]
  | .not => return [.numeric .i32Eqz]
  | .addNumbers => return [.numeric .f32Add]
  | .subtractNumbers => return [.numeric .f32Sub]
  | .multiply => return [.numeric .f32Mul]
  | .divide => return [.numeric .f32Div]
  | .addVectors => eachComponent .f32Add
  | .subtractVectors => eachComponent .f32Sub
  | .scale => scaleComponents
  | .equalObjects => return [.numeric .i32Eq]
  | .equalTruths => return [.numeric .i32Eq]
  | .lessThan => return [.numeric .f32Lt]
  | .greaterThan => return [.numeric .f32Gt]
  | .round => return [.numeric .f32Nearest]
  | .floor => return [.numeric .f32Floor]
  | .ceiling => return [.numeric .f32Ceil]
  | .absolute => return [.numeric .f32Abs]
  | .makeVector => return []
  | .breakVector => keepOutput op.shape.outputs output

/-- A call with the inputs of a block that keeps one of its outputs. -/
def calling (produce : Producer → Emit Code) (n : Node) (shape : Shape) (i : Import)
    (output : Nat) : Emit Code := do
  let arguments ← operands produce n shape.inputs.length
  return arguments ++ callImport i :: (← keepOutput shape.outputs output)

def variablePointer (c : Constant) : Code :=
  match c.var? with
  | some var => [id var, int 0]
  | none => Lanes.noPointer.map .const

def evaluate (produce : Producer → Emit Code) (n : Node) (output : Nat) :
    Expression → Emit Code
  | .literal l => return value (l.value n.constant)
  | .operation op => do
    let arguments ← operands produce n op.shape.inputs.length
    return arguments ++ (← operation op output)
  | .routine r => calling produce n r.shape (.routine r) output
  | .query q => calling produce n q.shape (.query q) output
  | .currentFrame => return [callImport .currentFrame, .numeric .f32ConvertI32U]
  | .and => do
    let first ← operand produce n 0
    return first ++ [.ifElse (some .i32) (← operand produce n 1) [int 0]]
  | .or => do
    let first ← operand produce n 0
    return first ++ [.ifElse (some .i32) [int 1] (← operand produce n 1)]
  | .getVariable _ => return variablePointer n.constant
  | .list _ => do
    let arguments ← operands produce n 2
    return arguments ++ [.numeric .f32Floor, .numeric .i32TruncSatF32S, .numeric .i32Add]

/-- The number of a slot as code, and the layout of its values. -/
def slotType (p : Program) (slot : SlotId) : Except Fault Base :=
  match p.slots[slot]? with
  | some s => .ok s.type
  | none => .error (.breach (.noSlot slot))

/-- Reads what a statement left in its state for one of its outputs. -/
def readSlot (p : Program) (n : Node) (output : Nat) : Emit Code := do
  let (slot, component) ← n.outputSlot output
  let code := [id slot, callImport (.getSlot (.ofSlot (← slotType p slot)))]
  match component with
  | some i => return code ++ (← keep Base.vec3.lanes i 1)
  | none => return code

/-- An output of a node.  `depth` bounds the length of a path along the wires. -/
def produce (p : Program) : (depth : Nat) → Producer → Emit Code
  | 0, source => throw (.breach (.noNode source.node))
  | depth + 1, source => do
    let n ← p.node source.node
    if n.statement then readSlot p n source.output
    else match n.kind with
      | .expression x => evaluate (produce p depth) n source.output x
      | kind => throw (.breach (.notExpression kind n.pos))

/-! ## Statements

`chain` emits a list of statements, each with all that follows it. -/

/-- A call that stores its result in the first slot of the node, if the effect keeps one. -/
def effect (produce : Producer → Emit Code) (n : Node) (e : Effect) : Emit Code := do
  let request := if e.hasNumber then [int (e.number n.constant)] else []
  match e.slots with
  | [] => return (← effectOperands produce n e.shape.inputs) ++ request ++ [callImport (.effect e)]
  | (_, type) :: _ =>
    let slot ← n.slot 0
    let arguments ← effectOperands produce n e.shape.inputs
    return id slot :: arguments ++ request ++
      [callImport (.effect e), callImport (.setSlot (.ofSlot type))]

def branch (chain : List NodeId → Emit Code) (n : Node) (i : Nat) : Emit Code := do
  chain (← n.branch i)

def storeLocals (n : Node) (i : Nat) (f : Format) (locals : List Nat) : Emit Code := do
  return id (← n.slot i) :: getLocals locals ++ [callImport (.setSlot f)]

def menuItem (produce : Producer → Emit Code) (node : NodeId) (n : Node) : Emit Code := do
  let slot ← n.slot 0
  let arguments ← operands produce n 2
  return [id slot, callImport (.getSlot .word), .numeric .i32Eqz,
    .when (id node :: arguments ++
      [callImport .menuItem, id slot, int 1, callImport (.setSlot .word)])]

def touchSensor (chain : List NodeId → Emit Code) (n : Node) : Emit Code := do
  let (locals, code) ← spill Import.touch.type.results
  let slot ← n.slot 0
  let body ← branch chain n 0
  return [int n.constant.asInt, int n.constant.asSecondInt, callImport .touch] ++ code ++
    getLocals (locals.take 1) ++
    [.when (id slot :: getLocals (locals.drop 1) ++
      number 0 :: callImport (.setSlot .vec3) :: body)]

def swipeSensor (chain : List NodeId → Emit Code) (n : Node) : Emit Code := do
  let (locals, code) ← spill Import.swipe.type.results
  let store ← storeLocals n 0 .vec3 (locals.drop 1)
  let body ← branch chain n 0
  return callImport .swipe :: code ++ getLocals (locals.take 1) ++ [.when (store ++ body)]

def collision (produce : Producer → Emit Code) (chain : List NodeId → Emit Code) (n : Node) :
    Emit Code := do
  let object ← operand produce n 0
  let (locals, code) ← spill Import.collision.type.results
  let other ← storeLocals n 0 .word ((locals.drop 1).take 1)
  let impulse ← storeLocals n 1 .float ((locals.drop 2).take 1)
  let normal ← storeLocals n 2 .vec3 (locals.drop 3)
  let body ← branch chain n 0
  return object ++ callImport .collision :: code ++ getLocals (locals.take 1) ++
    [.when (other ++ impulse ++ normal ++ body)]

/-- A loop over a count that is computed once, in locals of its own. -/
def loop (produce : Producer → Emit Code) (chain : List NodeId → Emit Code) (n : Node) :
    Emit Code := do
  let arguments ← operands produce n 2
  let (bounds, code) ← spill [.f32, .f32]
  let count ← fresh .i32
  let k ← fresh .i32
  let slot ← n.slot 0
  let body ← branch chain n 0
  return arguments ++ code ++ getLocals bounds ++
    [callImport .loopCount, .localSet count, int 0, .localSet k,
      .block [.loop (getLocals [k, count] ++ [.numeric .i32GeU, .brIf 1, id slot] ++
        getLocals bounds ++ getLocals [k] ++
        [callImport .loopCounter, callImport (.setSlot .float)] ++ body ++
        [.localGet k, int 1, .numeric .i32Add, .localSet k, .br 0])]]

def adjust (produce : Producer → Emit Code) (n : Node) (delta : Binary32) : Emit Code := do
  let pointer ← operand produce n 0
  let (locals, code) ← spill [.i32, .i32]
  return pointer ++ code ++ getLocals locals ++ getLocals locals ++
    [callImport (.getVariable .float), number delta, .numeric .f32Add,
      callImport (.setVariable .float)]

def statement (produce : Producer → Emit Code) (chain : List NodeId → Emit Code) (node : NodeId)
    (n : Node) : Statement → Emit Code
  | .effect e => effect produce n e
  | .menuItem => menuItem produce node n
  | .ifThen => do
    let condition ← operand produce n 0
    let onTrue ← branch chain n 0
    return condition ++ [.ifElse none onTrue (← branch chain n 1)]
  | .playSensor => do
    return [callImport .currentFrame, .numeric .i32Eqz, .when (← branch chain n 0)]
  | .lateUpdate => return [id node, callImport .deferLate]
  | .boxArtSensor => do return [callImport .takingBoxArt, .when (← branch chain n 0)]
  | .touchSensor => touchSensor chain n
  | .swipeSensor => swipeSensor chain n
  | .button => do
    return [int n.constant.asInt, callImport .button, .when (← branch chain n 0)]
  | .collision => collision produce chain n
  | .loop => loop produce chain n
  | .inspect type => do
    return id node :: (← operand produce n 0) ++ [callImport (.inspect (.ofType type))]
  | .setVariable type => do
    let target := variablePointer n.constant
    return target ++ (← operand produce n 0) ++ [callImport (.setVariable (.ofType type))]
  | .setPointer type => do
    return (← operands produce n 2) ++ [callImport (.setVariable (.ofType type))]
  | .increment => adjust produce n 1
  | .decrement => adjust produce n (-1)

/-- The code of one node with its branches, without what follows it. -/
def node (x : Target) (chain : List NodeId → Emit Code) (i : NodeId) (n : Node) : Emit Code :=
  match n.kind with
  | .statement s => statement (produce x.program (x.program.nodes.size + 1)) chain i n s
  | kind => throw (.breach (.notStatement kind n.pos))

/-- Statements in order, each with all that follows it.  A statement with a function of its own is a
call.  `depth` bounds the length of a path along the control wires. -/
def chain (x : Target) : (depth : Nat) → List NodeId → Emit Code
  | 0, ids => do return (← ids.mapM fun i => throw (.breach (.noNode i))).flatten
  | depth + 1, ids => do
    return (← ids.mapM fun i => do
      if x.outlined.contains i then return [.call (x.outlinedFunction (x.outlined.idxOf i))]
      let n ← x.program.node i
      let code ← node x (chain x depth) i n
      return code ++ (← chain x depth n.after)).flatten

def chainCode (x : Target) (ids : List NodeId) : Emit Code :=
  chain x (x.program.nodes.size + 1) ids

end Compiler
end SignalGraph
