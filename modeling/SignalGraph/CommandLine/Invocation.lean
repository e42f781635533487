/-!
# Invocations

The options of a command line.  Every option has a value, which follows as the next argument or is
attached to the name, and is given at most once.
-/

namespace SignalGraph
namespace CommandLine

inductive Flag where
  | input
  | library
  | config
  | backend
  | frames
  | emitWasm
  | logLevel
  deriving DecidableEq, Repr

inductive Stop where
  | help
  | version
  | misused
  deriving DecidableEq, Repr

structure Invocation where
  input : String
  library : Option String := none
  config : Option String := none
  backend : Option String := none
  frames : Option UInt32 := none
  emitWasm : Option String := none
  logLevel : Option String := none
  deriving DecidableEq, Repr

namespace Flag

def ofLong? : String → Option Flag
  | "input" => some input
  | "library" => some library
  | "config" => some config
  | "backend" => some backend
  | "frames" => some frames
  | "emit-wasm" => some emitWasm
  | "log-level" => some logLevel
  | _ => none

def frameCount? (text : String) : Option UInt32 :=
  let (sign, digits) := match text.toList with
    | '+' :: digits => (1, digits)
    | '-' :: digits => (-1, digits)
    | digits => ((1 : Int), digits)
  if digits = [] ∨ ¬digits.all Char.isDigit then none
  else
    let n := sign * (digits.foldl (fun n c => n * 10 + (c.toNat - 48)) 0 : Nat)
    if 0 ≤ n ∧ n < UInt32.size then some (UInt32.ofNat n.toNat) else none

/-- Whether an option can have the value.  Paths are not empty. -/
def accepts (flag : Flag) (value : String) : Bool :=
  match flag with
  | input | library | config | emitWasm => value ≠ ""
  | backend | logLevel => true
  | frames => (frameCount? value).isSome

end Flag

inductive Argument where
  | stop (why : Stop)
  /-- Nothing after it is an option. -/
  | separator
  /-- The value is the next argument. -/
  | flag (f : Flag)
  | attached (f : Flag) (value : String)
  deriving DecidableEq, Repr

namespace Argument

def ofFlag? : Option Flag → Argument
  | some f => flag f
  | none => stop .misused

def long (body : String) : Argument :=
  match body.splitOn "=" with
  | [] => separator
  | ["help"] => stop .help
  | ["version"] => stop .version
  | [name] => ofFlag? (Flag.ofLong? name)
  | name :: value =>
    match Flag.ofLong? name with
    | some f => attached f ("=".intercalate value)
    | none => stop .misused

def read (argument : String) : Argument :=
  match argument.toList with
  | ['-', '-'] => separator
  | '-' :: '-' :: body => long (String.ofList body)
  | '-' :: 'h' :: _ => stop .help
  | '-' :: 'V' :: _ => stop .version
  | ['-', 'i'] => flag .input
  | '-' :: 'i' :: '=' :: value => attached .input (String.ofList value)
  | '-' :: 'i' :: value => attached .input (String.ofList value)
  | _ => stop .misused

def isValue (argument : String) : Bool := argument = "-" || !argument.startsWith "-"

end Argument

/-- Options with their values, the latest first. -/
abbrev Given := List (Flag × String)

def give (given : Given) (flag : Flag) (value : String) : Except Stop Given :=
  if (given.lookup flag).isSome ∨ ¬flag.accepts value then .error .misused
  else .ok ((flag, value) :: given)

/-- Reads arguments from left to right.  The first that is wrong, or that asks for something else
than a run, decides. -/
def collect (given : Given) : List String → Except Stop Given
  | [] => .ok given
  | argument :: rest =>
    match Argument.read argument with
    | .stop why => .error why
    | .separator => if rest.isEmpty then .ok given else .error .misused
    | .attached flag value => do collect (← give given flag value) rest
    | .flag flag =>
      match rest with
      | [] => .error .misused
      | value :: rest =>
        if Argument.isValue value then do collect (← give given flag value) rest
        else .error .misused

def Invocation.parse (arguments : List String) : Except Stop Invocation := do
  let given ← collect [] arguments
  match given.lookup .input with
  | none => .error .misused
  | some input => .ok {
      input
      library := given.lookup .library
      config := given.lookup .config
      backend := given.lookup .backend
      frames := given.lookup .frames >>= Flag.frameCount?
      emitWasm := given.lookup .emitWasm
      logLevel := given.lookup .logLevel }

end CommandLine
end SignalGraph
