import SignalGraph.Block.Catalog
import SignalGraph.Program.Basic

/-!
# Scopes

Environments while a document is analysed: the blocks of each copy of a graph, and the wires between
them.  A custom block and the environment that stands for it find each other by the parent link,
which is the only record of the nesting.
-/

namespace SignalGraph

structure Member where
  decl : NodeDecl
  block : Block
  /-- How many built-in nodes come before this one, which is its number if it is built in. -/
  id : NodeId

namespace Member

def kind? (m : Member) : Option Kind :=
  match m.block.template with
  | .builtin kind => some kind
  | _ => none

def isBuiltin (m : Member) : Bool := m.kind?.isSome

def graph? (m : Member) : Option GraphId :=
  match m.block.template with
  | .custom graph => some graph
  | _ => none

end Member

structure Scope where
  environment : Environment
  members : List Member
  connections : List Connection

namespace Scope

def member? (s : Scope) (pos : Pos) : Option Member := s.members.find? (·.decl.pos = pos)

def driver? (s : Scope) (node terminal : Pos) : Option Connection :=
  s.connections.find? fun c => c.target = node ∧ c.targetTerminal = terminal

def incoming (s : Scope) (node terminal : Pos) : List Connection :=
  s.connections.filter fun c => c.target = node ∧ c.targetTerminal = terminal

def outgoing (s : Scope) (node terminal : Pos) : List Connection :=
  s.connections.filter fun c => c.source = node ∧ c.sourceTerminal = terminal

end Scope

/-- A terminal seen from one environment.  At `Pos.outside` it is one of the custom block that the
environment stands for. -/
structure Place where
  env : EnvId
  node : Pos
  terminal : Pos
  deriving DecidableEq, Repr

structure Expansion where
  scopes : List Scope

namespace Expansion

def builtinCount (scopes : List Scope) : Nat :=
  (scopes.flatMap fun s => s.members).countP Member.isBuiltin

/-- The enclosing environment, and the custom block there that stands for this one. -/
def parent? (x : Expansion) (env : EnvId) : Option (EnvId × Pos) :=
  x.scopes[env]? >>= fun s => s.environment.parent

def child? (x : Expansion) (env : EnvId) (pos : Pos) : Option EnvId :=
  x.scopes.findIdx? fun s => s.environment.parent = some (env, pos)

def member (x : Expansion) (env : EnvId) (pos : Pos) : Except Fault Member :=
  match x.scopes[env]? >>= fun s => s.member? pos with
  | some m => .ok m
  | none => .error (.danglingWire pos)

/-- The block whose terminals a wire of `env` means by a node position. -/
def owner (x : Expansion) (env : EnvId) (pos : Pos) : Except Fault Block :=
  if pos = .outside then
    match x.parent? env with
    | none => .error (.danglingWire pos)
    | some (env, pos) => return (← x.member env pos).block
  else return (← x.member env pos).block

def driver? (x : Expansion) (p : Place) : Option Connection :=
  x.scopes[p.env]? >>= fun s => s.driver? p.node p.terminal

def incoming (x : Expansion) (p : Place) : List Connection :=
  match x.scopes[p.env]? with
  | some s => s.incoming p.node p.terminal
  | none => []

def targets (x : Expansion) (p : Place) : List Place :=
  match x.scopes[p.env]? with
  | some s => (s.outgoing p.node p.terminal).map fun c => ⟨p.env, c.target, c.targetTerminal⟩
  | none => []

def wireCount (x : Expansion) : Nat := (x.scopes.flatMap fun s => s.connections).length

/-- The built-in nodes of the program in the order of their numbers, each with its environment. -/
def instances (x : Expansion) : List (EnvId × Member) :=
  x.scopes.zipIdx.flatMap fun (s, env) => (s.members.filter Member.isBuiltin).map (env, ·)

end Expansion
end SignalGraph
