import SignalGraph.Wasm.Module

namespace SignalGraph
namespace Wasm

abbrev Bytes := List UInt8

namespace Encode

/-- The groups of seven bits of a number, the lowest first; all but the last have the upper bit set.
The number of groups is bounded by the number itself. -/
def groups : (bound : Nat) → Nat → Bytes
  | 0, n => [n.toUInt8]
  | bound + 1, n =>
    if n < 128 then [n.toUInt8] else (n % 128 + 128).toUInt8 :: groups bound (n / 128)

def unsigned (n : Nat) : Bytes := groups n n

/-- The groups of a signed number: the last group's bit of weight 64 tells the sign. -/
def signedGroups : (bound : Nat) → Int → Bytes
  | 0, n => [(n % 128).toNat.toUInt8]
  | bound + 1, n =>
    if -64 ≤ n ∧ n < 64 then [(n % 128).toNat.toUInt8]
    else ((n % 128).toNat + 128).toUInt8 :: signedGroups bound (n / 128)

def signed (n : Int) : Bytes := signedGroups n.natAbs n

def word (w : UInt32) : Bytes :=
  [w.toUInt8, (w >>> 8).toUInt8, (w >>> 16).toUInt8, (w >>> 24).toUInt8]

/-- Items with their number in front. -/
def vector {α : Type} (item : α → Bytes) (items : List α) : Bytes :=
  unsigned items.length ++ items.flatMap item

def sized (bytes : Bytes) : Bytes := unsigned bytes.length ++ bytes

def name (s : String) : Bytes := sized s.toUTF8.toList

def laneType : LaneType → Bytes
  | .i32 => [0x7f]
  | .f32 => [0x7d]

/-- The type of a body: what it leaves on the stack. -/
def bodyType : Option LaneType → Bytes
  | none => [0x40]
  | some t => laneType t

def const : Lane → Bytes
  | .i32 n => 0x41 :: signed n.toInt
  | .f32 x => 0x43 :: word x.bits

def numeric : Numeric → Bytes
  | .i32Eqz => [0x45]
  | .i32Eq => [0x46]
  | .i32Ne => [0x47]
  | .i32GeU => [0x4f]
  | .i32Add => [0x6a]
  | .f32Lt => [0x5d]
  | .f32Gt => [0x5e]
  | .f32Abs => [0x8b]
  | .f32Neg => [0x8c]
  | .f32Ceil => [0x8d]
  | .f32Floor => [0x8e]
  | .f32Nearest => [0x90]
  | .f32Add => [0x92]
  | .f32Sub => [0x93]
  | .f32Mul => [0x94]
  | .f32Div => [0x95]
  | .f32ConvertI32U => [0xb3]
  | .i32TruncSatF32S => [0xfc, 0x00]

def finish : UInt8 := 0x0b

mutual

def instr : Instr → Bytes
  | .const lane => const lane
  | .localGet i => 0x20 :: unsigned i
  | .localSet i => 0x21 :: unsigned i
  | .globalGet i => 0x23 :: unsigned i
  | .globalSet i => 0x24 :: unsigned i
  | .call f => 0x10 :: unsigned f
  | .numeric op => numeric op
  | .when body => 0x04 :: (bodyType none ++ instrs body ++ [finish])
  | .ifElse result a b => 0x04 :: (bodyType result ++ instrs a ++ 0x05 :: (instrs b ++ [finish]))
  | .block body => 0x02 :: (bodyType none ++ instrs body ++ [finish])
  | .loop body => 0x03 :: (bodyType none ++ instrs body ++ [finish])
  | .br label => 0x0c :: unsigned label
  | .brIf label => 0x0d :: unsigned label

def instrs : List Instr → Bytes
  | [] => []
  | i :: rest => instr i ++ instrs rest

end

def functionType (t : FunctionType) : Bytes :=
  0x60 :: (vector laneType t.params ++ vector laneType t.results)

/-- Runs of equal locals, each with its length. -/
def runs : List LaneType → List (Nat × LaneType)
  | [] => []
  | t :: rest =>
    match runs rest with
    | (n, u) :: more => if t = u then (n + 1, u) :: more else (1, t) :: (n, u) :: more
    | [] => [(1, t)]

def body (f : Function) : Bytes :=
  vector (fun (n, t) => unsigned n ++ laneType t) (runs f.locals) ++ instrs f.body ++ [finish]

/-- The types of a module's functions, each once, in the order of the functions. -/
def types (m : Module) : List FunctionType :=
  (m.imports.map (·.type) ++ m.functions.map (·.type)).toList.eraseDups

def typeIndex (m : Module) (t : FunctionType) : Bytes := unsigned ((types m).idxOf t)

def importedFunction (m : Module) (i : ImportedFunction) : Bytes :=
  name i.source ++ name i.name ++ 0x00 :: typeIndex m i.type

def global (start : Lane) : Bytes := laneType start.type ++ 0x01 :: (const start ++ [finish])

def exported (e : String × Nat) : Bytes := name e.1 ++ 0x00 :: unsigned e.2

end Encode

namespace Module

/-- The sections with their numbers, in order. -/
def sections (m : Module) : List (UInt8 × Bytes) :=
  [(1, Encode.vector Encode.functionType (Encode.types m)),
    (2, Encode.vector (Encode.importedFunction m) m.imports.toList),
    (3, Encode.vector (fun f => Encode.typeIndex m f.type) m.functions.toList),
    (6, Encode.vector Encode.global m.globals),
    (7, Encode.vector Encode.exported m.exports),
    (10, Encode.vector (fun f => Encode.sized (Encode.body f)) m.functions.toList)]

def header : Bytes := [0x00, 0x61, 0x73, 0x6d, 0x01, 0x00, 0x00, 0x00]

def bytes (m : Module) : Bytes :=
  header ++ m.sections.flatMap fun (id, content) => id :: Encode.sized content

end Module
end Wasm
end SignalGraph
