import SignalGraph.Library.FileTree

/-!
# File systems

What a command needs of the files around it, in any monad.  A file tree is a file system, so that a
whole command is a function of the files it finds.
-/

namespace SignalGraph

structure FileSystem (m : Type → Type) where
  readText : (path : String) → m (Except Fault String)
  /-- A file or a directory with everything in it. -/
  readTree : (path : String) → m (Option FileTree)
  /-- Whether the directory exists afterwards. -/
  makeDirectories : (path : String) → m Bool
  /-- Whether the file was written. -/
  writeFile : (path : String) → (content : ByteArray) → m Bool

namespace FileSystem

def ofTree : FileSystem (StateM FileTree) where
  readText path := fun t => (t.readText path, t)
  readTree path := fun t => ((t.find path).toOption, t)
  makeDirectories path := FileTree.makeDirectories (FilePath.steps path) []
  writeFile path content := fun t =>
    match t.writeFile path content with
    | some t => (true, t)
    | none => (false, t)

end FileSystem
end SignalGraph
