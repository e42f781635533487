import SignalGraph.Compiler.Import
import SignalGraph.Run.World
import SignalGraph.Wasm.Machine

/-!
# The host of a compiled program

What each imported function does, on lanes.  Values are decoded by the types of the inputs, handed
to the same tables as in interpretation, and encoded again.
-/

namespace SignalGraph
namespace Host

open Wasm

variable {σ : Type}

def pinValue (pin : Pin) (lanes : List Lane) : Value :=
  match pin.type with
  | .value b => Lanes.toValue b lanes
  | _ => .void

def values : List Pin → List Lane → List Value
  | [], _ => []
  | pin :: rest, lanes =>
    let count := pin.type.lanes.length
    pinValue pin (lanes.take count) :: values rest (lanes.drop count)

/-- The values of the inputs of an effect, and the lanes after them. -/
def flaggedValues : List Pin → List Lane → List (Option Value) × List Lane
  | [], lanes => ([], lanes)
  | pin :: rest, lanes =>
    let count := pin.type.lanes.length
    let (present, lanes) :=
      if pin.optional then ((lanes.headD (.i32 0)).asInt != 0, lanes.drop 1) else (true, lanes)
    let v := if present then some (pinValue pin (lanes.take count)) else none
    let (more, lanes) := flaggedValues rest (lanes.drop count)
    (v :: more, lanes)

def idOf (n : Int32) : Nat := n.toUInt32.toNat

def runEffect (e : Engine σ) (effect : Effect) (lanes : List Lane) :
    StateM (World σ) (List Lane) := do
  let (inputs, rest) := flaggedValues effect.shape.inputs lanes
  match ← World.ask (effect.perform e (rest.headD (.i32 0)).asInt inputs) with
  | some v => return Lanes.ofValue v
  | none => return []

def runQuery (e : Engine σ) (q : Query) (lanes : List Lane) : StateM (World σ) (List Lane) := do
  return (← World.ask (q.ask e (values q.shape.inputs lanes))).flatMap Lanes.ofValue

def menuItem (e : Engine σ) (p : Program) (node var index picture : Int32) :
    StateM (World σ) Unit := do
  match (p.nodes[idOf node]?).map Node.constant with
  | some (.menu name maxCount priceStep) =>
    let count := Lanes.toPointer var index >>= Pointer.ref? p.vars
    World.ask (e.ask (.menuItem count picture name maxCount priceStep))
  | _ => return ()

/-- Shows a value to the engine in the name of an inspecting node. -/
def inspect (e : Engine σ) (p : Program) (f : Format) (node : Int32) (lanes : List Lane) :
    StateM (World σ) Unit := do
  match p.nodes[idOf node]? with
  | none => return ()
  | some n =>
    match n.kind with
    | .statement (.inspect type) =>
      World.ask (e.ask (.inspect (f.toValue type lanes) type n.constant.inspected n.block n.pos))
    | _ => return ()

def readVariable (w : World σ) (var index : Int32) : Value :=
  match Lanes.toPointer var index with
  | some p => w.vars.get p
  | none => .void

def writeVariable (p : Program) (f : Format) (var index : Int32) (lanes : List Lane)
    (w : World σ) : World σ :=
  match Lanes.toPointer var index with
  | some pointer =>
    let holder : WireType := match p.vars[pointer.var]? with
      | some v => .value v.type
      | none => .void
    w.setVariable pointer (f.toValue holder lanes)
  | none => w

def writeSlot (p : Program) (f : Format) (slot : Int32) (lanes : List Lane) (w : World σ) :
    World σ :=
  let holder : WireType := match p.slots[idOf slot]? with
    | some s => .value s.type
    | none => .void
  w.setSlot (idOf slot) (f.toValue holder lanes)

def truth (b : Bool) : List Lane := [ofBool b]

/-- A flag and the lanes of what it tells of; zeros stand for what is absent. -/
def flagged (absent : List Lane) : Option (List Lane) → List Lane
  | some lanes => .i32 1 :: lanes
  | none => .i32 0 :: absent

def contact (c : Contact) : List Lane := .i32 c.object :: .f32 c.impulse :: Lanes.vec3 c.normal

def run (e : Engine σ) (p : Program) : Import → List Lane → StateM (World σ) (List Lane)
  | .effect effect, lanes => runEffect e effect lanes
  | .query q, lanes => runQuery e q lanes
  | .routine r, lanes => return (r.apply (values r.shape.inputs lanes)).flatMap Lanes.ofValue
  | .menuItem, [node, var, index, picture] => do
    menuItem e p node.asInt var.asInt index.asInt picture.asInt
    return []
  | .touch, [state, finger] => do
    let found ← World.ask (e.ask (.touch (.ofRaw state.asInt) finger.asInt))
    return flagged [.f32 0, .f32 0] (found.map fun v => [.f32 v.x, .f32 v.y])
  | .swipe, _ => do
    let found ← World.ask (e.ask .swipe)
    return flagged (Lanes.vec3 .zero) (found.map Lanes.vec3)
  | .button, [style] => do
    return truth (← World.ask (e.ask (.button (.ofRaw style.asInt))))
  | .collision, [object] => do
    let found ← World.ask (e.ask (.collision object.asInt))
    return flagged (contact ⟨0, 0, .zero⟩) (found.map contact)
  | .inspect f, node :: lanes => do
    inspect e p f node.asInt lanes
    return []
  | .currentFrame, _ => do
    return [.i32 (← World.ask (e.ask .currentFrame)).toInt32]
  | .takingBoxArt, _ => do
    return truth (← World.ask (e.ask .takingBoxArt))
  | .getVariable f, [var, index] => do
    return f.ofValue (readVariable (← get) var.asInt index.asInt)
  | .setVariable f, var :: index :: lanes => do
    modify (writeVariable p f var.asInt index.asInt lanes)
    return []
  | .getSlot f, [slot] => do
    return f.ofValue ((← get).slots.get (idOf slot.asInt))
  | .setSlot f, slot :: lanes => do
    modify (writeSlot p f slot.asInt lanes)
    return []
  | .loopCount, [start, stop] =>
    return [.i32 (Routines.loopCount start.asFloat stop.asFloat).toInt32]
  | .loopCounter, [start, stop, k] =>
    return [.f32 (Routines.loopCounter start.asFloat stop.asFloat k.asInt.toUInt32)]
  | .deferLate, [node] => do
    modify (World.queue (idOf node.asInt))
    return []
  | _, _ => return []

def functions (e : Engine σ) (p : Program) : Wasm.Host (World σ) := fun f lanes =>
  match Import.table.toArray[f]? with
  | some i => run e p i lanes
  | none => return []

end Host
end SignalGraph
