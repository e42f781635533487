/-!
# Positions

Integer positions of nodes in a graph and of terminals on a node.  They are of any size here, while
documents hold them, and the sides of footprints, in words of 32 bits.  To compute with words gives
the same for footprints of fewer than 2^28 cells a side, each of which is eight voxels long.
-/

namespace SignalGraph

structure Pos where
  x : Int
  y : Int
  z : Int
  deriving DecidableEq, Repr, Inhabited

namespace Pos

/-- The node position of the far end of a wire that crosses the boundary of a custom block. -/
def outside : Pos := ⟨32767, 32767, 32767⟩

def text (p : Pos) : String := s!"({p.x}, {p.y}, {p.z})"

end Pos

/-- The size of a block in cells, fewer than 2^28 a side where words are to agree. -/
structure Footprint where
  width : Int
  depth : Int
  deriving DecidableEq, Repr, Inhabited

end SignalGraph
