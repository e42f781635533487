import SignalGraph.Document.Reader
import SignalGraph.Library.FileTree

/-!
# Libraries

A library is a directory with a custom block in each of its documents, at any depth.  Documents come
in the order of their paths, name by name, which decides between blocks of one number.
-/

namespace SignalGraph

/-- A block of a library and where it was found, as the names on the path. -/
structure LibraryFile where
  path : List String
  block : CustomBlock

namespace Library

/-- Whether a file of that name is a document.  Something must come before the point. -/
def isDocument (name : String) : Bool := name.endsWith ".json" && name ≠ ".json"

mutual

/-- The documents of a directory in the order of their paths. -/
def documents : FileTree → List (List String × ByteArray)
  | .file _ => []
  | .directory entries =>
    ((entryDocuments entries).mergeSort fun a b => decide (a.1 ≤ b.1)).flatMap fun (name, found) =>
      found.map fun (path, content) => (name :: path, content)

def entryDocuments : List (String × FileTree) → List (String × List (List String × ByteArray))
  | [] => []
  | (name, tree) :: rest =>
    let found := match tree with
      | .file content => if isDocument name then [([], content)] else []
      | .directory entries => documents (.directory entries)
    (name, found) :: entryDocuments rest

end

def parseFile (path : List String) (content : ByteArray) : Except Fault LibraryFile :=
  match String.fromUTF8? content with
  | none => .error (.unreadable .notText)
  | some text => return { path, block := ← CustomBlock.parse text }

def load : Option FileTree → Except Fault (List LibraryFile)
  | some (.directory entries) =>
    (documents (.directory entries)).mapM fun (path, content) => parseFile path content
  | _ => .error .missingLibrary

end Library

/-- A document with the blocks of a library added.  A block the document already has, from itself
or from an earlier file, hides a later one of the same number. -/
def Document.withLibrary (d : Document) (library : List LibraryFile) : Document :=
  library.foldl (fun d file =>
    if d.blocks.any (·.id = file.block.id) then d
    else { d with blocks := d.blocks ++ [file.block] }) d

end SignalGraph
