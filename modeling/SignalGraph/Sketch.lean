import SignalGraph.Analysis.Analyse
import SignalGraph.Text.Quoted

/-!
# Sketches

A sketch is a document in the making.  Nodes are known by the order in which they were placed, and
wires are drawn between terminals by name.  The sketch finds the positions, so that what it has
drawn leads where the names say.
-/

namespace SignalGraph

structure Outline where
  footprint : Footprint
  active : Bool
  terminals : List TerminalDecl

structure Sketch where
  catalog : Catalog
  graph : Graph
  blocks : List CustomBlock := []
  /-- The custom block that the graph is the inside of. -/
  outline : Option Outline := none
  /-- The terminals of that block. -/
  boundary : List Terminal := []

namespace Sketch

inductive Misuse where
  | noKind
  | noNode (count index : Nat)
  | noBlock
  | noTerminal (block : String) (dir : Direction) (name : String)
  | noBoundary (dir : Direction) (name : String)
  /-- The sketch to be placed is not the inside of a custom block. -/
  | noOutline
  | noLayout (message : String)
  | rejected (fault : Fault)
  deriving DecidableEq, Repr

def side : Direction → String
  | .input => "In"
  | .output => "Out"

/-- The name that stands for a block whose number is not known yet. -/
def unnamed : String := "custom"

def Misuse.message : Misuse → String
  | noKind => "stock kind"
  | noNode count index => s!"index out of bounds: the len is {count} but the index is {index}"
  | noBlock => "registered kind"
  | noTerminal block dir name => s!"{block} has no {side dir} terminal {name}"
  | noBoundary dir name => s!"custom block has no {side dir} terminal {name}"
  | noOutline => "custom builder"
  | noLayout message =>
    "layout: Layout \x7b block: " ++ Text.quoted unnamed ++ ", message: " ++ Text.quoted message ++
      " \x7d"
  | rejected fault => "register custom block: " ++ fault.message

def ofCatalog (c : Catalog) : Sketch := { catalog := c, graph := { id := 0 } }

def inside (c : Catalog) (graph : GraphId) (o : Outline) : Except Misuse Sketch :=
  match layout unnamed o.footprint o.terminals o.active with
  | .ok boundary => .ok { catalog := c, graph := { id := graph }, outline := some o, boundary }
  | .error (.layout _ message) => .error (.noLayout message)
  | .error fault => .error (.rejected fault)

def spot (index : Nat) : Pos := ⟨index * 4, 0, index * 4⟩

/-- Places a node, whether or not its kind is known; returns its number. -/
def place (s : Sketch) (kind : KindId) (settings : List Setting := []) : Nat × Sketch :=
  let index := s.graph.nodes.length
  let node : NodeDecl := { pos := spot index, kind, settings }
  (index, { s with graph := { s.graph with nodes := s.graph.nodes ++ [node] } })

def placeKind (s : Sketch) (kind : Kind) (settings : List Setting := []) :
    Except Misuse (Nat × Sketch) :=
  match s.catalog.numberOf? kind with
  | some id => .ok (s.place id settings)
  | none => .error .noKind

def number (s : Sketch) (x : Binary32) : Except Misuse (Nat × Sketch) :=
  s.placeKind (.expression (.literal .number)) [.float x]

def vector (s : Sketch) (v : Vec3) : Except Misuse (Nat × Sketch) :=
  s.placeKind (.expression (.literal .vector)) [.vec3 v.x v.y v.z]

def getVariable (s : Sketch) (name : String) (type : WireType) : Except Misuse (Nat × Sketch) :=
  s.placeKind (.expression (.getVariable type)) [.text name]

def setVariable (s : Sketch) (name : String) (type : WireType) : Except Misuse (Nat × Sketch) :=
  s.placeKind (.statement (.setVariable type)) [.text name]

def node (s : Sketch) (index : Nat) : Except Misuse NodeDecl :=
  match s.graph.nodes[index]? with
  | some n => .ok n
  | none => .error (.noNode s.graph.nodes.length index)

def addSettings (s : Sketch) (index : Nat) (settings : List Setting) : Except Misuse Sketch := do
  let _ ← s.node index
  let nodes := s.graph.nodes.modify index fun n => { n with settings := n.settings ++ settings }
  return { s with graph := { s.graph with nodes } }

def named (terminals : List Terminal) (dir : Direction) (name : String) : Option Terminal :=
  terminals.find? fun t => t.text = name ∧ t.dir = dir

/-- The end of a wire at a node: the positions of the node and of the terminal. -/
def terminal (s : Sketch) (index : Nat) (dir : Direction) (name : String) :
    Except Misuse (Pos × Pos) := do
  let n ← s.node index
  let some block := s.catalog.find? n.kind | throw .noBlock
  let some t := named block.terminals dir name | throw (.noTerminal block.name dir name)
  return (n.pos, t.pos)

def boundaryTerminal (s : Sketch) (dir : Direction) (name : String) :
    Except Misuse (Pos × Pos) :=
  match named s.boundary dir name with
  | some t => .ok (.outside, t.pos)
  | none => .error (.noBoundary dir name)

def draw (s : Sketch) (source target : Pos × Pos) : Sketch :=
  let wire := Connection.between source.1 source.2 target.1 target.2
  { s with graph := { s.graph with connections := s.graph.connections ++ [wire] } }

def wire (s : Sketch) (source : Nat) (output : String) (target : Nat) (input : String) :
    Except Misuse Sketch := do
  return s.draw (← s.terminal source .output output) (← s.terminal target .input input)

def flow (s : Sketch) (source : Nat) (output : String) (target : Nat) : Except Misuse Sketch :=
  s.wire source output target Layout.beforeName

def fromOutside (s : Sketch) (name : String) (target : Nat) (input : String) :
    Except Misuse Sketch := do
  return s.draw (← s.boundaryTerminal .input name) (← s.terminal target .input input)

def toOutside (s : Sketch) (source : Nat) (output name : String) : Except Misuse Sketch := do
  return s.draw (← s.terminal source .output output) (← s.boundaryTerminal .output name)

/-- Adds a block unless its number is taken. -/
def addBlock (s : Sketch) (decl : CustomBlock) : Except Misuse Sketch :=
  match s.catalog.find? decl.id with
  | some _ => .ok s
  | none =>
    match s.catalog.addCustom decl with
    | .ok catalog => .ok { s with catalog, blocks := s.blocks ++ [decl] }
    | .error fault => .error (.rejected fault)

/-- Places a custom block whose inside is another sketch, and adds the blocks of that sketch. -/
def placeCustom (s : Sketch) (id : KindId) (inner : Sketch) : Except Misuse (Nat × Sketch) := do
  let some o := inner.outline | throw .noOutline
  let s ← inner.blocks.foldlM addBlock s
  let s ← s.addBlock {
    id
    name := s!"Custom {id}"
    footprint := o.footprint
    active := o.active
    terminals := o.terminals
    graph := inner.graph }
  return s.place id

def document (s : Sketch) : Document := { main := s.graph, blocks := s.blocks }

def analyse (s : Sketch) : Except Fault Program := Program.analyse s.catalog s.document

/-- The smallest sketch in which control enters a custom block: a statement that loses, and after it
a block around a statement that wins. -/
def nested (c : Catalog) : Except Misuse Sketch := do
  let inner ← inside c 7 { footprint := ⟨2, 2⟩, active := true, terminals := [] }
  let (win, inner) ← inner.placeKind (.statement (.effect .win))
  let inner ← inner.fromOutside Layout.beforeName win Layout.beforeName
  let (lose, outer) ← (ofCatalog c).placeKind (.statement (.effect .lose))
  let (custom, outer) ← outer.placeCustom 1000 inner
  outer.flow lose Layout.afterName custom

end Sketch
end SignalGraph
