import SignalGraph.Fault
import SignalGraph.Library.FilePath

/-!
# File trees

A directory with everything in it, as a value.  A place in a tree is the list of names that lead to
it from the root; walks along paths go from place to place.
-/

namespace SignalGraph

inductive FileTree where
  | file (content : ByteArray)
  | directory (entries : List (String × FileTree))
  deriving Inhabited

namespace FileTree

open FilePath

abbrev Place := List String

def at? : FileTree → Place → Option FileTree
  | t, [] => some t
  | file _, _ :: _ => none
  | directory entries, name :: rest =>
    match entries.lookup name with
    | none => none
    | some t => t.at? rest

def setEntry (name : String) (t : FileTree) : List (String × FileTree) → List (String × FileTree)
  | [] => [(name, t)]
  | (other, u) :: rest =>
    if other = name then (name, t) :: rest else (other, u) :: setEntry name t rest

/-- The tree with something else at a place in a directory that exists. -/
def put : FileTree → Place → FileTree → FileTree
  | _, [], new => new
  | file content, _ :: _, _ => file content
  | directory entries, name :: rest, new =>
    directory (setEntry name (((entries.lookup name).getD (directory [])).put rest new) entries)

/-- The longest name of an entry, in bytes. -/
def maxNameLength : Nat := 255

/-- The place one step further.  Only directories can be left, and nothing is around the root.  The
place need not have anything yet. -/
def advance (t : FileTree) (place : Place) (s : Step) : Except ReadFault Place :=
  match t.at? place with
  | none => .error .missing
  | some (file _) => .error .notDirectory
  | some (directory _) =>
    match s with
    | .stay => .ok place
    | .up => .ok place.dropLast
    | .down name =>
      if maxNameLength < name.utf8ByteSize then .error .nameTooLong else .ok (place ++ [name])

/-- The place a path leads to.  No path has the character zero in it. -/
def locate (t : FileTree) (path : String) : Except ReadFault Place :=
  if path.contains '\x00' then .error .invalidPath else (steps path).foldlM t.advance []

def find (t : FileTree) (path : String) : Except ReadFault FileTree := do
  match t.at? (← t.locate path) with
  | none => .error .missing
  | some found => .ok found

def readText (t : FileTree) (path : String) : Except Fault String :=
  match t.find path with
  | .error cause => .error (.unreadable cause)
  | .ok (directory _) => .error (.unreadable .isDirectory)
  | .ok (file content) =>
    match String.fromUTF8? content with
    | some text => .ok text
    | none => .error (.unreadable .notText)

/-- Walks on from a place and makes every directory that is missing.  Returns whether the walk came
to its end, with the tree as it is then: what was made before a failure stays. -/
def makeDirectories : List Step → Place → FileTree → Bool × FileTree
  | [], _, t => (true, t)
  | s :: rest, place, t =>
    match t.advance place s with
    | .error _ => (false, t)
    | .ok place =>
      match t.at? place with
      | none => makeDirectories rest place (t.put place (directory []))
      | some (directory _) => makeDirectories rest place t
      | some (file _) => (false, t)

def writeFile (t : FileTree) (path : String) (content : ByteArray) : Option FileTree :=
  match t.locate path with
  | .error _ => none
  | .ok place =>
    match t.at? place with
    | some (directory _) => none
    | _ => some (t.put place (file content))

def addFile (t : FileTree) (path : String) (content : ByteArray) : Option FileTree :=
  (makeDirectories (steps path).dropLast [] t).2.writeFile path content

end FileTree
end SignalGraph
