import SignalGraph.CommandLine.Run

namespace SignalGraph
namespace Main

/-- The number of an error tells a directory from what is not one. -/
def readFault : IO.Error → ReadFault
  | .noFileOrDirectory .. => .missing
  | .inappropriateType _ 21 _ => .isDirectory
  | .invalidArgument _ 36 _ => .nameTooLong
  | .invalidArgument .. => .invalidPath
  | _ => .notDirectory

def readText (path : String) : IO (Except Fault String) := do
  try
    match String.fromUTF8? (← IO.FS.readBinFile path) with
    | some text => return .ok text
    | none => return .error (.unreadable .notText)
  catch e => return .error (.unreadable (readFault e))

partial def readEntry (e : IO.FS.DirEntry) : IO (String × FileTree) := do
  if ← e.path.isDir then
    let entries ← (← e.path.readDir).toList.mapM readEntry
    return (e.fileName, .directory entries)
  else return (e.fileName, .file (← IO.FS.readBinFile e.path))

def readTree (path : String) : IO (Option FileTree) := do
  try return some (← readEntry { root := path, fileName := "." }).2
  catch _ => return none

def succeeds (action : IO Unit) : IO Bool := do
  try
    action
    return true
  catch _ => return false

def files : FileSystem IO where
  readText := readText
  readTree := readTree
  makeDirectories path := succeeds (IO.FS.createDirAll path)
  writeFile path content := succeeds (IO.FS.writeBinFile path content)

def report (failure : CommandLine.Failure) : IO Unit := do
  IO.eprintln ("Error: " ++ failure.message)
  if let some fault := failure.cause? then
    IO.eprintln ("\nCaused by:\n    " ++ fault.message)

end Main
end SignalGraph

def main (arguments : List String) : IO UInt32 := do
  let outcome ← SignalGraph.CommandLine.execute SignalGraph.Main.files arguments
  outcome.output.forM IO.println
  if let some failure := outcome.failure then SignalGraph.Main.report failure
  if outcome.code = 2 then IO.eprintln "error: the arguments are not understood; try --help"
  return outcome.code
