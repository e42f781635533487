import SignalGraph.Place.Terminal

/-!
# Documents

A program as it is saved.  Nodes are known by their position in their graph and wires by the
positions of the two nodes and of the two terminals.  Nothing is resolved: kinds are numbers, and a
wire may lead nowhere.
-/

namespace SignalGraph

inductive Setting where
  | float (x : Binary32)
  | int (n : Int32)
  | bool (b : Bool)
  | vec3 (x y z : Binary32)
  | text (s : String)
  deriving DecidableEq

namespace Setting

def float? : Setting → Option Binary32
  | float x => some x
  | int n => some (.ofInt32 n)
  | _ => none

def int? : Setting → Option Int32
  | int n => some n
  | float x => some x.toInt32
  | bool b => some (if b then 1 else 0)
  | _ => none

def bool? : Setting → Option Bool
  | bool b => some b
  | int n => some (n != 0)
  | _ => none

def vec3? : Setting → Option (Binary32 × Binary32 × Binary32)
  | vec3 x y z => some (x, y, z)
  | _ => none

def text? : Setting → Option String
  | text s => some s
  | _ => none

end Setting

structure NodeDecl where
  pos : Pos
  kind : KindId
  settings : List Setting := []
  deriving DecidableEq

namespace NodeDecl

/-- The setting at `i` as a number; integers count. -/
def float? (n : NodeDecl) (i : Nat) : Option Binary32 := n.settings[i]? >>= Setting.float?

def int? (n : NodeDecl) (i : Nat) : Option Int32 := n.settings[i]? >>= Setting.int?

def bool? (n : NodeDecl) (i : Nat) : Option Bool := n.settings[i]? >>= Setting.bool?

def vec3? (n : NodeDecl) (i : Nat) : Option (Binary32 × Binary32 × Binary32) :=
  n.settings[i]? >>= Setting.vec3?

def text? (n : NodeDecl) (i : Nat) : Option String := n.settings[i]? >>= Setting.text?

end NodeDecl

/-- A wire.  In the graph of a custom block, the end at `Pos.outside` names a terminal of the block
itself.  `crossing` records that one end does, and nothing depends on it. -/
structure Connection where
  source : Pos
  sourceTerminal : Pos
  target : Pos
  targetTerminal : Pos
  crossing : Bool := false
  deriving DecidableEq, Repr

def Connection.between (source sourceTerminal target targetTerminal : Pos) : Connection :=
  { source, sourceTerminal, target, targetTerminal
    crossing := source = .outside ∨ target = .outside }

structure Graph where
  id : GraphId
  nodes : List NodeDecl := []
  connections : List Connection := []
  deriving DecidableEq

structure CustomBlock where
  id : KindId
  name : String
  footprint : Footprint
  active : Bool := false
  terminals : List TerminalDecl := []
  graph : Graph
  deriving DecidableEq

structure Document where
  main : Graph
  blocks : List CustomBlock := []
  deriving DecidableEq

end SignalGraph
