import SignalGraph.Run.Blocks
import SignalGraph.Run.World

/-!
# Interpretation

Running a program node by node.  An expression is evaluated whenever one of its outputs is read,
except at memo points, whose first value serves for the rest of the frame.  Recursion follows the
wires of the program, which form no circle, so it is no deeper than the program has nodes.
-/

namespace SignalGraph
namespace Interpreter

structure State (σ : Type) where
  world : World σ
  memo : Array (Option Value)

/-- Runs change the state even if they fail. -/
abbrev Run (σ : Type) := EStateM Fault (State σ)

variable {σ α : Type}

def check (result : Except Fault α) : Run σ α := fun s =>
  match result with
  | .ok a => .ok a s
  | .error fault => .error fault s

def inWorld (change : World σ → α × World σ) : Run σ α := fun s =>
  match s with
  | ⟨world, memo⟩ =>
    let (a, world) := change world
    .ok a ⟨world, memo⟩

def onWorld (change : World σ → World σ) : Run σ Unit := inWorld fun w => ((), change w)

/-- The value that a pointer leads to; a missing pointer leads to the default of the type. -/
def load (type : WireType) (pointer : Value) : Run σ Value := do
  match pointer.asPtr with
  | none => return type.default
  | some p =>
    match (← get).world.vars.get p with
    | .void => return type.default
    | v => return v

/-- The value of a memo point: what it holds, or else the value that is computed now. -/
def memoized (id : MemoId) (compute : Run σ Value) : Run σ Value := do
  match ((← get).memo[id]?).join with
  | some v => return v
  | none => do
    let v ← compute
    modify fun s => { s with memo := s.memo.setIfInBounds id (some v) }
    return v

/-! ## Expressions

`produce` computes an output of another node. -/

def readWire (produce : Producer → Run σ Value) (w : Wire) : Run σ Value := do
  let v ← match w.memo with
    | some id => memoized id (produce w.source)
    | none => produce w.source
  if w.deref then load w.type v else return v

def readOperand (produce : Producer → Run σ Value) : Operand → Run σ Value
  | .default v => return v
  | .absent => return .void
  | .wire w => readWire produce w

def input (produce : Producer → Run σ Value) (n : Node) (i : Nat) : Run σ Value := do
  readOperand produce (← check (n.input i))

/-- The value at an input, unless the engine is to be told that it is unconnected. -/
def optionalInput (produce : Producer → Run σ Value) (n : Node) (i : Nat) :
    Run σ (Option Value) := do
  match ← check (n.input i) with
  | .absent => return none
  | operand => return some (← readOperand produce operand)

def inputs (produce : Producer → Run σ Value) (n : Node) (count : Nat) : Run σ (List Value) :=
  (List.range count).mapM (input produce n)

def effectInputs (produce : Producer → Run σ Value) (n : Node) (pins : List Pin) :
    Run σ (List (Option Value)) :=
  pins.zipIdx.mapM fun (pin, i) =>
    if pin.optional then optionalInput produce n i else some <$> input produce n i

/-- A later element of the variable that a pointer leads to, or no pointer. -/
def element (base : Value) (offset : Binary32) : Value :=
  match base.asPtr with
  | some p => .ptr { p with index := p.index + offset.floor.toInt32 }
  | none => .void

def evaluate (e : Engine σ) (produce : Producer → Run σ Value) (n : Node) (output : Nat) :
    Expression → Run σ Value
  | .literal l => return l.value n.constant
  | .operation op => do
    return pickOutput (op.apply (← inputs produce n op.shape.inputs.length)) output
  | .routine r => do
    return pickOutput (r.apply (← inputs produce n r.shape.inputs.length)) output
  | .query q => do
    let arguments ← inputs produce n q.shape.inputs.length
    return pickOutput (← inWorld (World.ask (q.ask e arguments))) output
  | .currentFrame => do
    return .float (.ofUInt32 (← inWorld (World.ask (e.ask .currentFrame))))
  | .and => do
    if (← input produce n 0).asBool then return .bool (← input produce n 1).asBool
    else return .bool false
  | .or => do
    if (← input produce n 0).asBool then return .bool true
    else return .bool (← input produce n 1).asBool
  | .getVariable _ =>
    match n.constant.var? with
    | some var => return .ptr { var, index := 0 }
    | none => return .void
  | .list _ => do
    let base ← input produce n 0
    return element base (← input produce n 1).asFloat

/-- What a statement left in its state for one of its outputs. -/
def readSlot (n : Node) (output : Nat) : Run σ Value := do
  let (slot, component) ← check (n.outputSlot output)
  let v := (← get).world.slots.get slot
  match component with
  | some i => return .float (v.asVec3.component i)
  | none => return v

/-- An output of a node.  `depth` bounds the length of a path along the wires. -/
def produce (e : Engine σ) (p : Program) : (depth : Nat) → Producer → Run σ Value
  | 0, source => throw (.breach (.noNode source.node))
  | depth + 1, source => do
    let n ← check (p.node source.node)
    if n.statement then readSlot n source.output
    else match n.kind with
      | .expression x => evaluate e (produce e p depth) n source.output x
      | kind => throw (.breach (.notExpression kind n.pos))

/-! ## Statements

`chain` runs a list of statements, each with all that follows it. -/

def writeSlot (n : Node) (i : Nat) (v : Value) : Run σ Unit := do
  let slot ← check (n.slot i)
  onWorld (World.setSlot slot v)

def runBranch (chain : List NodeId → Run σ Unit) (n : Node) (i : Nat) : Run σ Unit := do
  chain (← check (n.branch i))

def runEffect (e : Engine σ) (produce : Producer → Run σ Value) (n : Node) (effect : Effect) :
    Run σ Unit := do
  let arguments ← effectInputs produce n effect.shape.inputs
  match ← inWorld (World.ask (effect.perform e (effect.number n.constant) arguments)) with
  | some v => writeSlot n 0 v
  | none => return ()

/-- Registers a menu item, unless the node did so before. -/
def runMenuItem (e : Engine σ) (vars : List Variable) (produce : Producer → Run σ Value)
    (n : Node) : Run σ Unit := do
  let slot ← check (n.slot 0)
  if ((← get).world.slots.get slot).asBool then return ()
  let pointer ← input produce n 0
  let picture ← input produce n 1
  if let .menu name maxCount priceStep := n.constant then
    let count := pointer.asPtr >>= Pointer.ref? vars
    inWorld (World.ask (e.ask (.menuItem count picture.asObj name maxCount priceStep)))
  onWorld (World.setSlot slot (.bool true))

def repeatFrom (body : UInt32 → Run σ Unit) : (count : Nat) → (k : UInt32) → Run σ Unit
  | 0, _ => return ()
  | count + 1, k => do
    body k
    repeatFrom body count (k + 1)

def runLoop (produce : Producer → Run σ Value) (chain : List NodeId → Run σ Unit) (n : Node) :
    Run σ Unit := do
  let start := (← input produce n 0).asFloat
  let stop := (← input produce n 1).asFloat
  let slot ← check (n.slot 0)
  let body := fun k => do
    onWorld (World.setSlot slot (.float (Routines.loopCounter start stop k)))
    runBranch chain n 0
  repeatFrom body (Routines.loopCount start stop).toNat 0

def adjust (produce : Producer → Run σ Value) (n : Node) (delta : Binary32) : Run σ Unit := do
  match (← input produce n 0).asPtr with
  | none => return ()
  | some p => onWorld fun w => w.setVariable p (.float ((w.vars.get p).asFloat + delta))

def execute (e : Engine σ) (vars : List Variable) (produce : Producer → Run σ Value)
    (chain : List NodeId → Run σ Unit) (id : NodeId) (n : Node) : Statement → Run σ Unit
  | .effect effect => runEffect e produce n effect
  | .menuItem => runMenuItem e vars produce n
  | .ifThen => do
    let condition ← input produce n 0
    runBranch chain n (if condition.asBool then 0 else 1)
  | .playSensor => do
    if (← inWorld (World.ask (e.ask .currentFrame))) = 0 then runBranch chain n 0
  | .lateUpdate => onWorld (World.queue id)
  | .boxArtSensor => do
    if ← inWorld (World.ask (e.ask .takingBoxArt)) then runBranch chain n 0
  | .touchSensor => do
    let state := TouchState.ofRaw n.constant.asInt
    if let some touched ← inWorld (World.ask (e.ask (.touch state n.constant.asSecondInt))) then
      writeSlot n 0 (.vec3 ⟨touched.x, touched.y, 0⟩)
      runBranch chain n 0
  | .swipeSensor => do
    if let some direction ← inWorld (World.ask (e.ask .swipe)) then
      writeSlot n 0 (.vec3 direction)
      runBranch chain n 0
  | .button => do
    if ← inWorld (World.ask (e.ask (.button (.ofRaw n.constant.asInt)))) then runBranch chain n 0
  | .collision => do
    let object ← input produce n 0
    if let some contact ← inWorld (World.ask (e.ask (.collision object.asObj))) then
      writeSlot n 0 (.obj contact.object)
      writeSlot n 1 (.float contact.impulse)
      writeSlot n 2 (.vec3 contact.normal)
      runBranch chain n 0
  | .loop => runLoop produce chain n
  | .inspect type => do
    let v ← input produce n 0
    inWorld (World.ask (e.ask (.inspect v type n.constant.inspected n.block n.pos)))
  | .setVariable _ => do
    let v ← input produce n 0
    if let some var := n.constant.var? then onWorld (World.setVariable { var, index := 0 } v)
  | .setPointer _ => do
    let target ← input produce n 0
    let v ← input produce n 1
    if let some p := target.asPtr then onWorld (World.setVariable p v)
  | .increment => adjust produce n 1
  | .decrement => adjust produce n (-1)

/-- Runs statements in order, each with its branches and then with what follows it.  `depth` bounds
the length of a path along the control wires. -/
def runChain (e : Engine σ) (p : Program) : (depth : Nat) → List NodeId → Run σ Unit
  | 0, ids => ids.forM fun id => throw (.breach (.noNode id))
  | depth + 1, ids => ids.forM fun id => do
    let n ← check (p.node id)
    match n.kind with
    | .statement s =>
      execute e p.vars (produce e p (p.nodes.size + 1)) (runChain e p depth) id n s
    | kind => throw (.breach (.notStatement kind n.pos))
    runChain e p depth n.after

def run (e : Engine σ) (p : Program) (ids : List NodeId) : Run σ Unit :=
  runChain e p (p.nodes.size + 1) ids

end Interpreter
end SignalGraph
