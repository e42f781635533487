import SignalGraph.Analysis.Scope

/-!
# Tracing

Following wires through the boundaries of custom blocks to the built-in blocks at their ends.  A
boundary can be crossed for ever where blocks are wired in a circle, so every walk has a budget of
crossings: one more than there are wires.
-/

namespace SignalGraph
namespace Expansion

/-- How many places a walk may visit. -/
def budget (x : Expansion) : Nat := x.wireCount + 1

/-- The other side of the boundary that a wire's far end lies on, or the node it lies on. -/
inductive End where
  | builtin (m : Member)
  | beyond (p : Place)
  | nothing

def follow (x : Expansion) (env : EnvId) (node terminal : Pos) : Except Fault End :=
  if node = .outside then
    match x.parent? env with
    | none => .error (.danglingWire node)
    | some (parent, custom) => .ok (.beyond ⟨parent, custom, terminal⟩)
  else do
    let m ← x.member env node
    match m.block.template with
    | .builtin _ => return .builtin m
    | .inert => return .nothing
    | .custom _ =>
      match x.child? env node with
      | some child => return .beyond ⟨child, .outside, terminal⟩
      | none => return .nothing

/-- The output of a built-in node that a terminal belongs to, with its type. -/
def producer (m : Member) (node terminal : Pos) : Except Fault (Producer × WireType) :=
  match m.block.terminalAt terminal with
  | none => .error (.unknownTerminal node terminal)
  | some t => .ok ({ node := m.id, output := m.block.ordinal t }, t.type)

def traceBack (x : Expansion) : (hops : Nat) → Place → Except Fault (Option (Producer × WireType))
  | 0, p => .error (.cycle p.node)
  | hops + 1, p =>
    match x.driver? p with
    | none => .ok none
    | some c => do
      match ← x.follow p.env c.source c.sourceTerminal with
      | .nothing => return none
      | .builtin m => return some (← producer m c.source c.sourceTerminal)
      | .beyond p => traceBack x hops p

def driver (x : Expansion) (p : Place) : Except Fault (Option (Producer × WireType)) :=
  x.traceBack x.budget p

/-- The built-in nodes that are reached from the places of a stack, in order.  What a boundary hides
takes the place of the boundary. -/
def traceForward (x : Expansion) : (hops : Nat) → List Place → Except Fault (List NodeId)
  | _, [] => .ok []
  | 0, p :: _ => .error (.cycle p.node)
  | hops + 1, p :: rest => do
    match ← x.follow p.env p.node p.terminal with
    | .nothing => traceForward x hops rest
    | .builtin m => return m.id :: (← traceForward x hops rest)
    | .beyond q => traceForward x hops (x.targets q ++ rest)

/-- The statements that a control output starts, in the order of the wires. -/
def successors (x : Expansion) (p : Place) : Except Fault (List NodeId) :=
  x.traceForward x.budget (x.targets p)

/-- Whether a walk against the control wires, from the places of a stack, meets a built-in node.
Each place is entered once. -/
def searchBack (x : Expansion) : (hops : Nat) → (seen stack : List Place) → Except Fault Bool
  | _, _, [] => .ok false
  | 0, _, _ :: _ => .ok false
  | hops + 1, seen, p :: rest =>
    if seen.contains p then searchBack x hops seen rest
    else do
      let ends ← (x.incoming p).mapM fun c => x.follow p.env c.source c.sourceTerminal
      if ends.any fun e => e matches .builtin _ then return true
      let found := ends.filterMap fun
        | .beyond q => some q
        | _ => none
      searchBack x hops (p :: seen) (found ++ rest)

def isDriven (x : Expansion) (p : Place) : Except Fault Bool := x.searchBack x.budget [] [p]

end Expansion
end SignalGraph
