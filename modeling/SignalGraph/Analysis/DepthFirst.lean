/-!
# Depth-first search

A search in a directed graph on the numbers below a bound, given by the successors of each vertex.
It fails at a vertex that it meets again while the vertex is still open, which lies on a cycle.
-/

namespace SignalGraph
namespace DepthFirst

/-- Visits a vertex and all it leads to.  `path` holds the open vertices and `closed` the finished
ones, the latest first.  `depth` bounds the length of the path. -/
def visit (next : Nat → List Nat) : (depth : Nat) → (path closed : List Nat) → Nat →
    Except Nat (List Nat)
  | 0, _, _, v => .error v
  | depth + 1, path, closed, v =>
    if closed.contains v then .ok closed
    else if path.contains v then .error v
    else do
      let closed ← (next v).foldlM (visit next depth (v :: path)) closed
      return v :: closed

/-- The vertices below `bound` that the roots lead to, each after all it leads to, latest first; or
a vertex on a cycle. -/
def search (next : Nat → List Nat) (bound : Nat) (roots : List Nat) : Except Nat (List Nat) :=
  roots.foldlM (visit next (bound + 1) []) []

end DepthFirst
end SignalGraph
