import SignalGraph.Wasm.Module

/-!
# Typing

Whether every instruction of a module finds the lanes it takes.  After an unconditional branch
nothing runs, so any lanes may be assumed there.
-/

namespace SignalGraph
namespace Wasm
namespace Numeric

/-- The lanes that an instruction takes, the lowest first, and the one that it leaves. -/
def type : Numeric → List LaneType × LaneType
  | i32Eqz => ([.i32], .i32)
  | i32Eq => ([.i32, .i32], .i32)
  | i32Ne => ([.i32, .i32], .i32)
  | i32GeU => ([.i32, .i32], .i32)
  | i32Add => ([.i32, .i32], .i32)
  | f32Lt => ([.f32, .f32], .i32)
  | f32Gt => ([.f32, .f32], .i32)
  | f32Abs => ([.f32], .f32)
  | f32Neg => ([.f32], .f32)
  | f32Ceil => ([.f32], .f32)
  | f32Floor => ([.f32], .f32)
  | f32Nearest => ([.f32], .f32)
  | f32Add => ([.f32, .f32], .f32)
  | f32Sub => ([.f32, .f32], .f32)
  | f32Mul => ([.f32, .f32], .f32)
  | f32Div => ([.f32, .f32], .f32)
  | f32ConvertI32U => ([.i32], .f32)
  | i32TruncSatF32S => ([.f32], .i32)

end Numeric

/-- The types on the stack, the top first.  Below an open stack there may be anything. -/
structure StackType where
  lanes : List LaneType
  isOpen : Bool := false
  deriving DecidableEq, Repr

namespace StackType

def push (t : LaneType) (s : StackType) : StackType := { s with lanes := t :: s.lanes }

def pop (t : LaneType) (s : StackType) : Option StackType :=
  match s.lanes with
  | u :: rest => if t = u then some { s with lanes := rest } else none
  | [] => if s.isOpen then some s else none

def pushAll (ts : List LaneType) (s : StackType) : StackType := ts.foldl (fun s t => s.push t) s

def popAll (ts : List LaneType) (s : StackType) : Option StackType :=
  ts.foldr (fun t s => s >>= pop t) (some s)

/-- Whether exactly these lanes, pushed in order, can be all that is on the stack. -/
def isExactly (ts : List LaneType) (s : StackType) : Bool :=
  match s.popAll ts with
  | some rest => rest.lanes.isEmpty
  | none => false

end StackType

structure TypingContext where
  locals : List LaneType
  globals : List LaneType
  functions : Nat → Option FunctionType

namespace Typing

open StackType

def leaves (results : List LaneType) : Option StackType → Bool
  | some s => s.isExactly results
  | none => false

mutual

/-- The stack after an instruction, if it is well typed.  `labels` holds the result of each
enclosing body, the innermost first; branches only leave bodies without one. -/
def instr (c : TypingContext) (labels : List (Option LaneType)) (s : StackType) :
    Instr → Option StackType
  | .const lane => some (s.push lane.type)
  | .localGet i => (c.locals[i]?).map s.push
  | .localSet i => c.locals[i]? >>= fun t => s.pop t
  | .globalGet i => (c.globals[i]?).map s.push
  | .globalSet i => c.globals[i]? >>= fun t => s.pop t
  | .call f => do
    let t ← c.functions f
    return (← s.popAll t.params).pushAll t.results
  | .numeric op => do return (← s.popAll op.type.1).push op.type.2
  | .when body => do
    let s ← s.pop .i32
    if leaves [] (instrs c (none :: labels) { lanes := [] } body) then some s else none
  | .ifElse result a b => do
    let s ← s.pop .i32
    if leaves result.toList (instrs c (result :: labels) { lanes := [] } a) &&
        leaves result.toList (instrs c (result :: labels) { lanes := [] } b) then
      some (s.pushAll result.toList)
    else none
  | .block body =>
    if leaves [] (instrs c (none :: labels) { lanes := [] } body) then some s else none
  | .loop body =>
    if leaves [] (instrs c (none :: labels) { lanes := [] } body) then some s else none
  | .br label => if labels[label]? = some none then some { lanes := [], isOpen := true } else none
  | .brIf label => if labels[label]? = some none then s.pop .i32 else none

def instrs (c : TypingContext) (labels : List (Option LaneType)) (s : StackType) :
    List Instr → Option StackType
  | [] => some s
  | i :: rest =>
    match instr c labels s i with
    | some s => instrs c labels s rest
    | none => none

end

def function (m : Module) (f : Function) : Bool :=
  let c : TypingContext :=
    { locals := f.type.params ++ f.locals, globals := m.globals.map Lane.type
      functions := m.functionType? }
  leaves f.type.results (instrs c [] { lanes := [] } f.body)

end Typing

def Module.isValid (m : Module) : Bool := m.functions.all (Typing.function m)

end Wasm
end SignalGraph
