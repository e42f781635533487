import SignalGraph.Number.Binary32
import SignalGraph.Wasm.Module

/-!
# Running modules

A body runs on a stack of its own, so lanes it leaves behind when it branches are gone with it.
-/

namespace SignalGraph
namespace Wasm

/-- Why a run ends early.  A well-typed module is never stuck. -/
inductive Trap where
  | stuck
  /-- Calls are too deep, or a loop was started too often. -/
  | exhausted
  deriving DecidableEq, Repr

/-- What a run changes: the state of the host, the globals, and the locals of the current call. -/
structure Machine (τ : Type) where
  host : τ
  globals : Array Lane
  locals : Array Lane

abbrev Exec (τ : Type) := EStateM Trap (Machine τ)

inductive Outcome where
  /-- Control goes on with this stack, the top first. -/
  | next (stack : List Lane)
  /-- Control leaves bodies, `label` of them before the one it ends. -/
  | jump (label : Nat)

/-- The host's functions: results from arguments, both in order. -/
abbrev Host (τ : Type) := Nat → List Lane → StateM τ (List Lane)

variable {τ α : Type}

def ofBool (b : Bool) : Lane := .i32 (if b then 1 else 0)

namespace Numeric

def apply : Numeric → List Lane → Option (List Lane)
  | i32Eqz, .i32 a :: s => some (ofBool (a == 0) :: s)
  | i32Eq, .i32 b :: .i32 a :: s => some (ofBool (a == b) :: s)
  | i32Ne, .i32 b :: .i32 a :: s => some (ofBool (a != b) :: s)
  | i32GeU, .i32 b :: .i32 a :: s => some (ofBool (b.toUInt32 ≤ a.toUInt32) :: s)
  | i32Add, .i32 b :: .i32 a :: s => some (.i32 (a + b) :: s)
  | f32Lt, .f32 b :: .f32 a :: s => some (ofBool (decide (a < b)) :: s)
  | f32Gt, .f32 b :: .f32 a :: s => some (ofBool (decide (b < a)) :: s)
  | f32Abs, .f32 a :: s => some (.f32 a.abs :: s)
  | f32Neg, .f32 a :: s => some (.f32 (-a) :: s)
  | f32Ceil, .f32 a :: s => some (.f32 a.ceil :: s)
  | f32Floor, .f32 a :: s => some (.f32 a.floor :: s)
  | f32Nearest, .f32 a :: s => some (.f32 (Binary32.roundEven a) :: s)
  | f32Add, .f32 b :: .f32 a :: s => some (.f32 (a + b) :: s)
  | f32Sub, .f32 b :: .f32 a :: s => some (.f32 (a - b) :: s)
  | f32Mul, .f32 b :: .f32 a :: s => some (.f32 (a * b) :: s)
  | f32Div, .f32 b :: .f32 a :: s => some (.f32 (a / b) :: s)
  | f32ConvertI32U, .i32 a :: s => some (.f32 (.ofUInt32 a.toUInt32) :: s)
  | i32TruncSatF32S, .f32 a :: s => some (.i32 a.toInt32 :: s)
  | _, _ => none

end Numeric

namespace Machine

def orStuck (a : Option α) : Exec τ α :=
  match a with
  | some a => return a
  | none => throw .stuck

def setLocal (i : Nat) (lane : Lane) : Exec τ Unit :=
  modify fun
    | ⟨host, globals, locals⟩ => ⟨host, globals, locals.setIfInBounds i lane⟩

def setGlobal (i : Nat) (lane : Lane) : Exec τ Unit :=
  modify fun
    | ⟨host, globals, locals⟩ => ⟨host, globals.setIfInBounds i lane, locals⟩

/-- The outcome of a body for the instructions after it, whose stack was `below`. -/
def leave (below : List Lane) : Outcome → Outcome
  | .next stack => .next (stack ++ below)
  | .jump 0 => .next below
  | .jump (label + 1) => .jump label

/-- Runs a loop's body until it ends without starting again. -/
def iterate (body : Exec τ Outcome) : (bound : Nat) → Exec τ Outcome
  | 0 => throw .exhausted
  | bound + 1 => do
    match ← body with
    | .next stack => return .next stack
    | .jump 0 => iterate body bound
    | .jump (label + 1) => return .jump label

def loopBound : Nat := 4294967296

def push (lane : Lane) (stack : List Lane) : Exec τ Outcome := return .next (lane :: stack)

mutual

/-- One instruction.  `call` runs a function on a stack. -/
def instr (call : Nat → List Lane → Exec τ (List Lane)) : Instr → List Lane → Exec τ Outcome
  | .const lane, s => push lane s
  | .localGet i, s => do push (← orStuck (← get).locals[i]?) s
  | .localSet i, lane :: s => do
    setLocal i lane
    return .next s
  | .globalGet i, s => do push (← orStuck (← get).globals[i]?) s
  | .globalSet i, lane :: s => do
    setGlobal i lane
    return .next s
  | .call f, s => do return .next (← call f s)
  | .numeric op, s => do return .next (← orStuck (op.apply s))
  | .when body, .i32 c :: s => do
    if c != 0 then return leave s (← instrs call body []) else return .next s
  | .ifElse _ a b, .i32 c :: s => do
    if c != 0 then return leave s (← instrs call a []) else return leave s (← instrs call b [])
  | .block body, s => do return leave s (← instrs call body [])
  | .loop body, s => do
    match ← iterate (instrs call body []) loopBound with
    | .next stack => return .next (stack ++ s)
    | .jump label => return .jump label
  | .br label, _ => return .jump label
  | .brIf label, .i32 c :: s => return if c != 0 then .jump label else .next s
  | _, _ => throw .stuck

def instrs (call : Nat → List Lane → Exec τ (List Lane)) : List Instr → List Lane →
    Exec τ Outcome
  | [], s => return .next s
  | i :: rest, s => do
    match ← instr call i s with
    | .next s => instrs call rest s
    | .jump label => return .jump label

end

/-- Splits the arguments of a call off a stack and puts them in order. -/
def arguments (count : Nat) (stack : List Lane) : Exec τ (List Lane × List Lane) :=
  if stack.length < count then throw .stuck
  else return ((stack.take count).reverse, stack.drop count)

def callHost (host : Host τ) (f : Nat) (lanes : List Lane) : Exec τ (List Lane) :=
  modifyGet fun
    | ⟨state, globals, locals⟩ =>
      let (results, state) := host f lanes state
      (results, ⟨state, globals, locals⟩)

/-- Runs the body of a function with new locals and brings the old ones back. -/
def callBody (body : Exec τ Outcome) (locals : Array Lane) : Exec τ (List Lane) := do
  let saved := (← get).locals
  modify fun s => { s with locals }
  let outcome ← body
  modify fun s => { s with locals := saved }
  match outcome with
  | .next stack => return stack
  | .jump _ => throw .stuck

/-- Runs a function on a stack.  `depth` bounds the calls within calls. -/
def invoke (m : Module) (host : Host τ) : (depth : Nat) → Nat → List Lane → Exec τ (List Lane)
  | 0, _, _ => throw .exhausted
  | depth + 1, f, stack =>
    match m.imports[f]? with
    | some i => do
      let (lanes, below) ← arguments i.type.params.length stack
      return (← callHost host f lanes).reverse ++ below
    | none => do
      let function ← orStuck m.functions[f - m.imports.size]?
      let (lanes, below) ← arguments function.type.params.length stack
      let locals := (lanes ++ function.locals.map LaneType.zero).toArray
      return (← callBody (instrs (invoke m host depth) function.body []) locals) ++ below

def run (m : Module) (host : Host τ) (name : String) (lanes : List Lane) : Exec τ (List Lane) := do
  let f ← orStuck (m.export? name)
  invoke m host (m.functions.size + 2) f lanes.reverse

end Machine
end Wasm
end SignalGraph
