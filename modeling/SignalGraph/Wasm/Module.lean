import SignalGraph.Number.Binary32

/-!
# Modules

A module of a stack machine with 32-bit lanes: structured instructions, functions, globals and
exports.  Only what the compiler emits is here, and control never carries values over a label.
-/

namespace SignalGraph
namespace Wasm

inductive LaneType where
  | i32
  | f32
  deriving DecidableEq, Repr, Inhabited

inductive Lane where
  | i32 (n : Int32)
  | f32 (x : Binary32)
  deriving DecidableEq, Inhabited

namespace Lane

def type : Lane → LaneType
  | i32 _ => .i32
  | f32 _ => .f32

def asInt : Lane → Int32
  | i32 n => n
  | f32 _ => 0

def asFloat : Lane → Binary32
  | i32 _ => 0
  | f32 x => x

end Lane

/-- What a local holds before it is set. -/
def LaneType.zero : LaneType → Lane
  | i32 => .i32 0
  | f32 => .f32 0

inductive Numeric where
  | i32Eqz
  | i32Eq
  | i32Ne
  | i32GeU
  | i32Add
  | f32Lt
  | f32Gt
  | f32Abs
  | f32Neg
  | f32Ceil
  | f32Floor
  | f32Nearest
  | f32Add
  | f32Sub
  | f32Mul
  | f32Div
  | f32ConvertI32U
  | i32TruncSatF32S
  deriving DecidableEq, Repr

inductive Instr where
  | const (lane : Lane)
  | localGet (i : Nat)
  | localSet (i : Nat)
  | globalGet (i : Nat)
  | globalSet (i : Nat)
  | call (function : Nat)
  | numeric (op : Numeric)
  /-- Runs its body if the top of the stack is not zero. -/
  | when (body : List Instr)
  | ifElse (result : Option LaneType) (onTrue onFalse : List Instr)
  | block (body : List Instr)
  | loop (body : List Instr)
  /-- Leaves enclosing bodies, `label` of them before the one it ends; a loop starts again. -/
  | br (label : Nat)
  | brIf (label : Nat)
  deriving Inhabited

structure FunctionType where
  params : List LaneType
  results : List LaneType
  deriving DecidableEq, Repr

structure Function where
  type : FunctionType
  locals : List LaneType
  body : List Instr

/-- A function that the host supplies, by the name of its module and its own. -/
structure ImportedFunction where
  source : String
  name : String
  type : FunctionType

/-- A module.  Imported functions come first in the numbering of functions, and a global is given by
the value it starts with. -/
structure Module where
  imports : Array ImportedFunction
  functions : Array Function
  globals : List Lane
  exports : List (String × Nat)

namespace Module

def functionType? (m : Module) (function : Nat) : Option FunctionType :=
  match m.imports[function]? with
  | some i => some i.type
  | none => (m.functions[function - m.imports.size]?).map (·.type)

def export? (m : Module) (name : String) : Option Nat := m.exports.lookup name

end Module
end Wasm
end SignalGraph
