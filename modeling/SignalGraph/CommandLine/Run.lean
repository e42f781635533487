import SignalGraph.Analysis.Analyse
import SignalGraph.Backend
import SignalGraph.CommandLine.Invocation
import SignalGraph.Engine.Headless
import SignalGraph.Library.FileSystem

/-!
# The command

Reads a program, runs it without an engine behind it, and lists what it asked for and what its
variables hold at the end.  Nothing is listed if the run fails.
-/

namespace SignalGraph
namespace CommandLine

inductive Failure where
  | config (path : String) (fault : Fault)
  | backend (name : String)
  | input (path : String) (fault : Fault)
  | library (path : String) (fault : Fault)
  | program (fault : Fault)
  | directory (path : String)
  | output (path : String)
  | run (why : Backend.Interruption)

namespace Failure

def message : Failure → String
  | config path _ => "failed to read config " ++ path
  | backend name => "unsupported backend: " ++ name
  | input path _ => "failed to read program " ++ path
  | library path _ => "failed to load library " ++ path
  | program fault => fault.message
  | directory path => "failed to create directory " ++ Text.quotedPath path
  | output path => "failed to write output file " ++ path
  | run (.frame number _) => s!"frame {number} failed"
  | run (.late number _) => s!"late update of frame {number} failed"

def cause? : Failure → Option Fault
  | config _ fault | input _ fault | library _ fault => some fault
  | run why => some why.fault
  | _ => none

end Failure

variable {m : Type → Type} [Monad m]

abbrev Command (m : Type → Type) := ExceptT Failure m

def lift {α : Type} (fail : Fault → Failure) (result : Except Fault α) : Command m α :=
  ExceptT.mk (pure (result.mapError fail))

/-- The settings of the file, with those of the command line in their place. -/
def resolve (files : FileSystem m) (i : Invocation) : Command m RunConfig := do
  let config ← match i.config with
    | none => pure {}
    | some path => do
      let text ← files.readText path
      lift (.config path) (text >>= RunConfig.parse)
  let strategy ← match i.backend with
    | none => pure config.strategy
    | some name =>
      match Strategy.ofTag? name with
      | some strategy => pure strategy
      | none => throw (.backend name)
  return { config with
    strategy
    frames := i.frames.getD config.frames
    logLevel := i.logLevel.getD config.logLevel }

def readProgram (files : FileSystem m) (i : Invocation) : Command m Program := do
  let text ← files.readText i.input
  let document ← lift (.input i.input) (text >>= Document.parse)
  let library ← match i.library with
    | none => pure []
    | some path => do
      let tree ← files.readTree path
      lift (.library path) (Library.load tree)
  let catalog ← lift .program Catalog.stock
  lift .program (Program.load catalog document library)

/-- Writes a file, and makes the directory it lies in. -/
def write (files : FileSystem m) (path : String) (content : ByteArray) : Command m Unit := do
  match FilePath.parent? path with
  | none | some "" => pure ()
  | some parent =>
    if ¬(← files.makeDirectories parent) then throw (.directory parent)
  if ¬(← files.writeFile path content) then throw (.output path)

def listing (cell : Cell) : String :=
  cell.decl.name ++ ": " ++ (WireType.value cell.decl.type).text ++ " = " ++
    Text.values cell.values.toList

def engine (config : RunConfig) : Headless :=
  { Headless.ofSeed config.seed with screen := config.screen }

def simulate (config : RunConfig) (p : Program) : Except Failure (List String) := do
  let b ← (Backend.start config.strategy p (engine config)).mapError .program
  match b.runFrames Headless.engine 0 config.frames.toNat with
  | (.error why, _) => .error (.run why)
  | (.ok (), b) =>
    .ok (b.world.engine.log.toList ++ b.vars.cells.toList.map listing)

def perform (files : FileSystem m) (i : Invocation) : Command m (List String) := do
  let config ← resolve files i
  let p ← readProgram files i
  match i.emitWasm with
  | none => pure ()
  | some path => do
    let code ← lift .program (Compiler.compile p)
    write files path ⟨code.bytes.toArray⟩
  ExceptT.mk (pure (simulate config p))

structure Outcome where
  code : UInt32
  output : List String := []
  failure : Option Failure := none

def helpText : List String :=
  ["Run a block program headlessly and print what it did",
   "",
   "Usage: signal-graph [OPTIONS] --input <PATH>",
   "",
   "Options:",
   "  -i, --input <PATH>        Program document (.json)",
   "      --library <DIR>       Directory of custom-block documents to load alongside the program",
   "      --config <PATH>       Run settings (.json)",
   "      --backend <BACKEND>   Execution backend: interpreter, compiled",
   "      --frames <FRAMES>     Number of frames to simulate",
   "      --emit-wasm <PATH>    Also write the compiled wasm module here",
   "      --log-level <FILTER>  Level of diagnostic messages",
   "  -h, --help                Print help",
   "  -V, --version             Print version"]

def Stop.outcome : Stop → Outcome
  | .help => { code := 0, output := helpText }
  | .version => { code := 0, output := ["signal-graph 0.1.0"] }
  | .misused => { code := 2 }

def execute (files : FileSystem m) (arguments : List String) : m Outcome :=
  match Invocation.parse arguments with
  | .error why => return Stop.outcome why
  | .ok i => do
    match ← (perform files i).run with
    | .ok output => return { code := 0, output }
    | .error failure => return { code := 1, failure := some failure }

end CommandLine
end SignalGraph
