import SignalGraph.Analysis.Scope

/-!
# Wiring

The rules for wires: both ends exist, a wire runs from a source to a sink of a type that the source
can drive, and a data input has one driver.  Seen from inside a custom block, its inputs are sources
and its outputs are sinks.
-/

namespace SignalGraph
namespace Wiring

def terminal (block : Block) (node pos : Pos) : Except Fault Terminal :=
  match block.terminalAt pos with
  | some t => .ok t
  | none => .error (.unknownTerminal node pos)

def sourceDirection (node : Pos) : Direction := if node = .outside then .input else .output

def sinkDirection (node : Pos) : Direction := if node = .outside then .output else .input

/-- Checks a wire against the blocks and against the wires before it. -/
def checkWire (x : Expansion) (env : EnvId) (earlier : List Connection) (c : Connection) :
    Except Fault Unit := do
  let source ← x.owner env c.source
  let target ← x.owner env c.target
  let start ← terminal source c.source c.sourceTerminal
  let finish ← terminal target c.target c.targetTerminal
  if start.dir ≠ sourceDirection c.source ∨ finish.dir ≠ sinkDirection c.target then
    throw (.breach (.backwardWire c.source c.sourceTerminal c.target c.targetTerminal))
  if ¬start.type.drives finish.type then
    throw (.typeMismatch c.target finish.type start.type)
  let taken := earlier.any fun e => e.target = c.target ∧ e.targetTerminal = c.targetTerminal
  if ¬finish.isControl ∧ taken then throw (.multipleDrivers c.target c.targetTerminal)

def checkWires (x : Expansion) (env : EnvId) :
    (earlier rest : List Connection) → Except Fault Unit
  | _, [] => .ok ()
  | earlier, c :: rest => do
    checkWire x env earlier c
    checkWires x env (c :: earlier) rest

def check (x : Expansion) : Except Fault Unit :=
  x.scopes.zipIdx.forM fun (s, env) => checkWires x env [] s.connections

end Wiring
end SignalGraph
