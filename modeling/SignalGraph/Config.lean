import SignalGraph.Document.Reader
import SignalGraph.Document.Writer
import SignalGraph.Geometry.Vector

namespace SignalGraph

/-- How a program is run: node by node, or compiled first. -/
inductive Strategy where
  | interpreter
  | compiled
  deriving DecidableEq, Repr, Inhabited

namespace Strategy

def tag : Strategy → String
  | interpreter => "interpreter"
  | compiled => "compiled"

def ofTag? : String → Option Strategy
  | "interpreter" => some interpreter
  | "compiled" => some compiled
  | _ => none

end Strategy

/-- Settings of a run; every one has a value if it is not given. -/
structure RunConfig where
  strategy : Strategy := .interpreter
  frames : UInt32 := 1
  /-- The size of the screen that the program sees, in pixels. -/
  screen : Vec2 := ⟨1080, 1920⟩
  seed : UInt64 := 0
  logLevel : String := "warn"
  deriving DecidableEq

namespace RunConfig

def ofJson? : Decoder RunConfig := fun j => do
  let fields ← Json.record? ["backend", "frames", "screen_size", "random_seed", "log_level"] j
  let absent : RunConfig := {}
  let (x, y) ← Json.optional fields "screen_size" (Json.pair? Json.float32?)
    (absent.screen.x, absent.screen.y)
  return {
    strategy := ← Json.optional fields "backend" (Json.variant? Strategy.ofTag?) absent.strategy
    frames := ← Json.optional fields "frames" Json.uint32? absent.frames
    screen := ⟨x, y⟩
    seed := ← Json.optional fields "random_seed" Json.uint64? absent.seed
    logLevel := ← Json.optional fields "log_level" Json.string? absent.logLevel }

def parse (text : String) : Except Fault RunConfig := Json.read ofJson? text

open Json in
def write (c : RunConfig) : String :=
  Write.object [("backend", Write.string c.strategy.tag), ("frames", toString c.frames),
    ("screen_size", Write.array [Write.float c.screen.x, Write.float c.screen.y]),
    ("random_seed", toString c.seed), ("log_level", Write.string c.logLevel)]

end RunConfig
end SignalGraph
