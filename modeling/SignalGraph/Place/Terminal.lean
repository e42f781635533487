import SignalGraph.Fault

/-!
# Terminals

Where the terminals of a block sit.  Saved wires refer to terminals by position, so the placement is
a function of the declaration alone.  Inputs lie on the near face across the width and outputs on
the far one, one per cell of depth.  A side with fewer terminals than cells leaves the far cells
empty: a terminal's row is the number of terminals that come after it on its side.

Positions are computed over all integers.  In 32-bit words the same comes out for footprints below
2^28 cells a side; larger ones pass the ends of the words.
-/

namespace SignalGraph

inductive Direction where
  | input
  | output
  deriving DecidableEq, Repr, Inhabited

def Direction.tag : Direction → String
  | input => "in"
  | output => "out"

structure TerminalDecl where
  type : WireType
  dir : Direction
  name : Option String := none
  deriving DecidableEq, Repr

structure Terminal where
  type : WireType
  dir : Direction
  name : Option String
  index : Nat
  pos : Pos
  deriving DecidableEq, Repr, Inhabited

namespace Terminal

def isControl (t : Terminal) : Bool := t.type = .void

def text (t : Terminal) : String := t.name.getD ""

end Terminal

namespace Layout

def beforeName : String := "Before"

def afterName : String := "After"

/-- Voxels along one side of a cell. -/
def cell : Int := 8

/-- Every terminal is one voxel above the floor. -/
def height : Int := 1

def side (dir : Direction) (decls : List TerminalDecl) : Nat := decls.countP (·.dir = dir)

/-- Declared terminals in their rows.  Indices are given once the whole list is known. -/
def rows (f : Footprint) : List TerminalDecl → List Terminal
  | [] => []
  | d :: rest =>
    let x := match d.dir with
      | .input => 0
      | .output => f.width * cell - 1
    let pos := ⟨x, height, side d.dir rest * cell + 3⟩
    { type := d.type, dir := d.dir, name := d.name, index := 0, pos := pos } :: rows f rest

/-- The control input of an active block, at its far edge. -/
def before (f : Footprint) : Terminal :=
  { type := .void, dir := .input, name := some beforeName, index := 0,
    pos := ⟨3, height, f.depth * cell - 1⟩ }

/-- The control output of an active block, at its near edge. -/
def after : Terminal :=
  { type := .void, dir := .output, name := some afterName, index := 0, pos := ⟨3, height, 0⟩ }

/-- All terminals in their order, the control terminals of an active block first and last. -/
def terminals (f : Footprint) (decls : List TerminalDecl) (active : Bool) : List Terminal :=
  let declared := rows f decls
  let all := if active then before f :: (declared ++ [after]) else declared
  all.mapIdx fun i t => { t with index := i }

def obstacle (f : Footprint) (decls : List TerminalDecl) : Option String :=
  let inputs := side .input decls
  let outputs := side .output decls
  if f.width < 1 ∨ f.depth < 1 then some s!"footprint {f.width}x{f.depth} is empty"
  else if f.depth < inputs then some s!"{inputs} input terminals do not fit a depth of {f.depth}"
  else if f.depth < outputs then
    some s!"{outputs} output terminals do not fit a depth of {f.depth}"
  else none

end Layout

def layout (block : String) (f : Footprint) (decls : List TerminalDecl) (active : Bool) :
    Except Fault (List Terminal) :=
  match Layout.obstacle f decls with
  | some message => .error (.layout block message)
  | none => .ok (Layout.terminals f decls active)

end SignalGraph
