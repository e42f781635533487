import SignalGraph.Block.Shape

/-!
# Faults

Everything that can go wrong, by cause.  The wording is in one place, `Fault.message`.
-/

namespace SignalGraph

abbrev KindId := UInt16

abbrev GraphId := UInt16

inductive ReadFault where
  | missing
  | isDirectory
  | notDirectory
  | nameTooLong
  /-- No file can have such a path. -/
  | invalidPath
  | notText
  deriving DecidableEq, Repr

def ReadFault.text : ReadFault → String
  | missing => "No such file or directory (os error 2)"
  | isDirectory => "Is a directory (os error 21)"
  | notDirectory => "Not a directory (os error 20)"
  | nameTooLong => "File name too long (os error 36)"
  | invalidPath => "file name contained an unexpected NUL byte"
  | notText => "stream did not contain valid UTF-8"

/-- A broken rule of documents, or of programs.  Analysis never returns a program that breaks one of
the latter; a program made in another way may. -/
inductive Breach where
  | selfInstance (graph : GraphId)
  | sharedPosition (pos : Pos) (graph : GraphId)
  | backwardWire (source sourceTerminal target targetTerminal : Pos)
  | noNode (id : Nat)
  | noSlot (id : Nat)
  | noInput (kind : Kind) (pos : Pos) (input : Nat)
  | noBranch (kind : Kind) (pos : Pos) (branch : Nat)
  | noOwnSlot (kind : Kind) (pos : Pos) (slot : Nat)
  | noOutput (kind : Kind) (pos : Pos) (output : Nat)
  | notExpression (kind : Kind) (pos : Pos)
  | notStatement (kind : Kind) (pos : Pos)
  | notLate (id : Nat) (kind : Kind)
  deriving DecidableEq, Repr

def Breach.text : Breach → String
  | selfInstance graph => s!"custom block graph {graph} instantiates itself"
  | sharedPosition pos graph => s!"two nodes share position {pos.text} in graph {graph}"
  | backwardWire source sourceTerminal target targetTerminal =>
    s!"wire from {source.text} {sourceTerminal.text} to {target.text} {targetTerminal.text} " ++
      "runs against terminal directions"
  | noNode id => s!"no node {id}"
  | noSlot id => s!"no slot {id}"
  | noInput kind pos input => s!"{kind.label} at {pos.text} has no input {input}"
  | noBranch kind pos branch => s!"{kind.label} at {pos.text} has no branch output {branch}"
  | noOwnSlot kind pos slot => s!"{kind.label} at {pos.text} owns no slot {slot}"
  | noOutput kind pos output => s!"{kind.label} at {pos.text} has no output {output}"
  | notExpression kind pos => s!"{kind.label} at {pos.text} is not an expression"
  | notStatement kind pos => s!"{kind.label} at {pos.text} is not a statement"
  | notLate id kind => s!"late task {id} is a {kind.label}"

inductive Fault where
  | unreadable (cause : ReadFault)
  | malformed
  | missingLibrary
  | unknownKind (id : KindId) (pos : Pos)
  | duplicateKind (id : KindId)
  | unknownGraph (id : GraphId)
  | layout (block message : String)
  | unknownTerminal (node terminal : Pos)
  | danglingWire (node : Pos)
  | multipleDrivers (node terminal : Pos)
  | typeMismatch (node : Pos) (expected found : WireType)
  | pointerVariable (name : String) (type : WireType)
  | cycle (node : Pos)
  | breach (b : Breach)
  /-- The compiled module breaks the typing rules of its format. -/
  | invalidModule
  deriving DecidableEq, Repr

namespace Fault

def message : Fault → String
  | unreadable cause => s!"failed to read graph document: {cause.text}"
  | malformed => "malformed graph document"
  | missingLibrary => "custom block library directory was not found"
  | unknownKind id pos => s!"unknown block kind id {id} at {pos.text}"
  | duplicateKind id => s!"block kind id {id} is registered twice"
  | unknownGraph id => s!"graph {id} is referenced but was never declared"
  | layout block message => "layout error for '" ++ block ++ "': " ++ message
  | unknownTerminal node terminal => s!"no terminal at {terminal.text} on node at {node.text}"
  | danglingWire node => s!"no node at {node.text}"
  | multipleDrivers node terminal =>
    s!"input terminal {terminal.text} on node at {node.text} has more than one driver"
  | typeMismatch node expected found =>
    s!"wire into {node.text} carries {found.text} but the terminal expects {expected.text}"
  | pointerVariable name type =>
    "variable '" ++ name ++ "' cannot have pointer type " ++ type.text
  | cycle node => s!"expression cycle through node at {node.text}"
  | breach b => "invariant violated: " ++ b.text
  | invalidModule => "wasm backend error"

end Fault
end SignalGraph
