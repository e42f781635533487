import SignalGraph.Document.Basic
import SignalGraph.Json.Writer

/-!
# Writing documents

Every field is written, in the order in which a reader of arrays expects it.
-/

namespace SignalGraph

open Json

def Pos.write (p : Pos) : String := Write.array [toString p.x, toString p.y, toString p.z]

def Footprint.write (f : Footprint) : String :=
  Write.object [("width", toString f.width), ("depth", toString f.depth)]

def TerminalDecl.write (t : TerminalDecl) : String :=
  Write.object [("ty", Write.string t.type.tag), ("dir", Write.string t.dir.tag),
    ("name", match t.name with
      | some name => Write.string name
      | none => "null")]

def Setting.write : Setting → String
  | .float x => Write.object [("float", Write.float x)]
  | .int n => Write.object [("int", toString n.toInt)]
  | .bool b => Write.object [("bool", Write.bool b)]
  | .vec3 x y z =>
    Write.object [("vec3", Write.array [Write.float x, Write.float y, Write.float z])]
  | .text s => Write.object [("text", Write.string s)]

def NodeDecl.write (n : NodeDecl) : String :=
  Write.object [("pos", n.pos.write), ("kind", toString n.kind),
    ("settings", Write.array (n.settings.map Setting.write))]

def Connection.write (c : Connection) : String :=
  Write.object [("from", c.source.write), ("from_terminal", c.sourceTerminal.write),
    ("to", c.target.write), ("to_terminal", c.targetTerminal.write),
    ("is_to_from_outside", Write.bool c.crossing)]

def Graph.write (g : Graph) : String :=
  Write.object [("id", toString g.id), ("nodes", Write.array (g.nodes.map NodeDecl.write)),
    ("connections", Write.array (g.connections.map Connection.write))]

def CustomBlock.write (b : CustomBlock) : String :=
  Write.object [("id", toString b.id), ("name", Write.string b.name),
    ("footprint", b.footprint.write), ("active", Write.bool b.active),
    ("terminals", Write.array (b.terminals.map TerminalDecl.write)), ("graph", b.graph.write)]

def Document.write (d : Document) : String :=
  Write.object [("main", d.main.write),
    ("custom_blocks", Write.array (d.blocks.map CustomBlock.write))]

end SignalGraph
