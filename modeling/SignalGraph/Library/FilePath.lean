/-!
# Paths

Paths are texts with slashes between their pieces.  A path is a walk through the directories of a
tree: every piece leads down to an entry, up to the directory around, or nowhere.
-/

namespace SignalGraph
namespace FilePath

inductive Step where
  | stay
  | up
  | down (name : String)
  deriving DecidableEq, Repr

/-- An empty piece, before, between or after slashes, stays as a single point does. -/
def Step.ofPiece : String → Step
  | "" => .stay
  | "." => .stay
  | ".." => .up
  | name => .down name

def steps (path : String) : List Step := (path.splitOn "/").map Step.ofPiece

/-- Pieces of a path without the empty ones and points at the end.  The first piece stays: it is a
name, or it is empty and stands for the root. -/
def trimmed : List String → List String
  | [] => []
  | first :: rest =>
    first :: (rest.reverse.dropWhile fun piece => piece = "" || piece = ".").reverse

/-- The path of the directory that a path lies in, which is empty for a single name.  Nothing holds
the root.  This is a matter of the text alone: a piece that leads up is dropped like a name. -/
def parent? (path : String) : Option String :=
  match trimmed (path.splitOn "/") with
  | [] => none
  | [name] => if name = "" then none else some ""
  | pieces =>
    match trimmed pieces.dropLast with
    | [""] => some "/"
    | pieces => some ("/".intercalate pieces)

end FilePath
end SignalGraph
