import SignalGraph.Block.Shape
import SignalGraph.Block.Stock
import SignalGraph.Document.Basic

/-!
# Catalogs

The blocks that documents may use, by number.  A catalog is a list that only grows at the front, so
what was registered before an attempt is what is there if the attempt fails.
-/

namespace SignalGraph

inductive Template where
  | builtin (kind : Kind)
  /-- The block expands to the graph of that number. -/
  | custom (graph : GraphId)
  /-- The block is kept in documents and does nothing. -/
  | inert
  deriving DecidableEq, Repr

structure Block where
  id : KindId
  name : String
  footprint : Footprint
  active : Bool
  terminals : List Terminal
  template : Template
  /-- For each data input, whether the engine is told that it is unconnected. -/
  optional : List Bool
  deriving Repr

namespace Block

def terminalAt (b : Block) (pos : Pos) : Option Terminal := b.terminals.find? (·.pos = pos)

def group (b : Block) (dir : Direction) (control : Bool) : List Terminal :=
  b.terminals.filter fun t => t.dir = dir && t.isControl == control

def before (b : Block) : Option Terminal := (b.group .input true).head?

def dataInputs (b : Block) : List Terminal := b.group .input false

def dataOutputs (b : Block) : List Terminal := b.group .output false

/-- Branches in order, and last the one that runs after the block. -/
def controlOutputs (b : Block) : List Terminal := b.group .output true

def ordinal (b : Block) (t : Terminal) : Nat :=
  (b.terminals.take t.index).countP fun u => u.dir = t.dir && u.isControl == t.isControl

def ofKind (id : KindId) (kind : Kind) : Except Fault Block := do
  let shape := kind.shape
  let declare := fun dir (pin : Pin) =>
    ({ type := pin.type, dir, name := some pin.name } : TerminalDecl)
  let terminals ← layout shape.name shape.footprint
    (shape.inputs.map (declare .input) ++ shape.outputs.map (declare .output)) shape.active
  return {
    id, terminals
    name := shape.name
    footprint := shape.footprint
    active := shape.active
    template := if kind = .comment then .inert else .builtin kind
    optional := shape.inputs.map (·.optional) }

def ofCustom (decl : CustomBlock) : Except Fault Block := do
  let terminals ← layout decl.name decl.footprint decl.terminals decl.active
  let inputs := decl.terminals.countP fun t => t.dir = .input && t.type ≠ .void
  return {
    terminals
    id := decl.id
    name := decl.name
    footprint := decl.footprint
    active := decl.active
    template := .custom decl.graph.id
    optional := List.replicate inputs false }

end Block

/-- Registered blocks, and the numbers of the built-in ones, both from the latest to the first. -/
structure Catalog where
  blocks : List Block := []
  numbers : List (Kind × KindId) := []

namespace Catalog

def empty : Catalog := {}

def find? (c : Catalog) (id : KindId) : Option Block := c.blocks.find? (·.id = id)

def numberOf? (c : Catalog) (kind : Kind) : Option KindId := c.numbers.lookup kind

def size (c : Catalog) : Nat := c.blocks.length

def isEmpty (c : Catalog) : Bool := c.blocks.isEmpty

def insert (c : Catalog) (b : Block) : Except Fault Catalog :=
  match c.find? b.id with
  | some _ => .error (.duplicateKind b.id)
  | none => .ok { c with blocks := b :: c.blocks }

def addBuiltin (c : Catalog) (id : KindId) (kind : Kind) : Except Fault Catalog := do
  let c ← c.insert (← Block.ofKind id kind)
  return { c with numbers := (kind, id) :: c.numbers }

def addCustom (c : Catalog) (decl : CustomBlock) : Except Fault Catalog := do
  c.insert (← Block.ofCustom decl)

def stock : Except Fault Catalog :=
  Stock.all.foldlM (fun c (id, kind) => c.addBuiltin id kind) empty

end Catalog
end SignalGraph
