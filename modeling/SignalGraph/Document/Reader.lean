import SignalGraph.Document.Basic
import SignalGraph.Json.Decode
import SignalGraph.Json.Reader

namespace SignalGraph

open Json

def Pos.ofJson? : Decoder Pos := fun j => do
  let (x, y, z) ← triple? index? j
  return { x, y, z }

def Footprint.ofJson? : Decoder Footprint := fun j => do
  let fields ← record? ["width", "depth"] j
  return { width := ← required fields "width" index?, depth := ← required fields "depth" index? }

def Direction.ofTag? : String → Option Direction
  | "in" => some .input
  | "out" => some .output
  | _ => none

def TerminalDecl.ofJson? : Decoder TerminalDecl := fun j => do
  let fields ← record? ["ty", "dir", "name"] j
  return {
    type := ← required fields "ty" (variant? WireType.ofTag?)
    dir := ← required fields "dir" (variant? Direction.ofTag?)
    name := ← optional fields "name" (option? string?) none }

/-- A setting is an object whose one key tells the kind of constant. -/
def Setting.ofJson? : Decoder Setting
  | .object [(some "float", j)] => (float32? j).map .float
  | .object [(some "int", j)] => (index? j).map fun i => .int (Int32.ofInt i)
  | .object [(some "bool", j)] => (Json.bool? j).map .bool
  | .object [(some "vec3", j)] => (triple? float32? j).map fun (x, y, z) => .vec3 x y z
  | .object [(some "text", j)] => (string? j).map .text
  | _ => none

def NodeDecl.ofJson? : Decoder NodeDecl := fun j => do
  let fields ← record? ["pos", "kind", "settings"] j
  return {
    pos := ← required fields "pos" Pos.ofJson?
    kind := ← required fields "kind" uint16?
    settings := ← optional fields "settings" (list? Setting.ofJson?) [] }

def Connection.ofJson? : Decoder Connection := fun j => do
  let fields ← record? ["from", "from_terminal", "to", "to_terminal", "is_to_from_outside"] j
  return {
    source := ← required fields "from" Pos.ofJson?
    sourceTerminal := ← required fields "from_terminal" Pos.ofJson?
    target := ← required fields "to" Pos.ofJson?
    targetTerminal := ← required fields "to_terminal" Pos.ofJson?
    crossing := ← optional fields "is_to_from_outside" Json.bool? false }

def Graph.ofJson? : Decoder Graph := fun j => do
  let fields ← record? ["id", "nodes", "connections"] j
  return {
    id := ← required fields "id" uint16?
    nodes := ← optional fields "nodes" (list? NodeDecl.ofJson?) []
    connections := ← optional fields "connections" (list? Connection.ofJson?) [] }

def CustomBlock.ofJson? : Decoder CustomBlock := fun j => do
  let fields ← record? ["id", "name", "footprint", "active", "terminals", "graph"] j
  return {
    id := ← required fields "id" uint16?
    name := ← required fields "name" string?
    footprint := ← required fields "footprint" Footprint.ofJson?
    active := ← optional fields "active" Json.bool? false
    terminals := ← optional fields "terminals" (list? TerminalDecl.ofJson?) []
    graph := ← required fields "graph" Graph.ofJson? }

def Document.ofJson? : Decoder Document := fun j => do
  let fields ← record? ["main", "custom_blocks"] j
  return {
    main := ← required fields "main" Graph.ofJson?
    blocks := ← optional fields "custom_blocks" (list? CustomBlock.ofJson?) [] }

def Json.read {α : Type} (decoder : Decoder α) (text : String) : Except Fault α :=
  match Json.parse? text >>= decoder with
  | some a => .ok a
  | none => .error .malformed

def Document.parse (text : String) : Except Fault Document := Json.read Document.ofJson? text

def CustomBlock.parse (text : String) : Except Fault CustomBlock :=
  Json.read CustomBlock.ofJson? text

end SignalGraph
