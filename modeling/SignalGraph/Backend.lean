import SignalGraph.Compiler.Session
import SignalGraph.Config
import SignalGraph.Interpreter.Session

/-!
# Backends

A running program under either strategy, with one way to run frames and one way to reach the world.
-/

namespace SignalGraph

inductive Backend (σ : Type) where
  | interpreted (s : Interpreter.Session σ)
  | compiled (s : Compiler.Session σ)

namespace Backend

variable {σ α : Type}

/-- Only compilation can fail. -/
def start (strategy : Strategy) (p : Program) (engine : σ) : Except Fault (Backend σ) :=
  match strategy with
  | .interpreter => .ok (.interpreted (.start p engine))
  | .compiled => (Compiler.Session.start p engine).map .compiled

def program : Backend σ → Program
  | interpreted s => s.program
  | compiled s => s.program

def world : Backend σ → World σ
  | interpreted s => s.state.world
  | compiled s => s.state.host

/-- Runs a frame; returns the late tasks that it queued. -/
def runFrame (e : Engine σ) : Backend σ → Except Fault (List NodeId) × Backend σ
  | interpreted s => (s.runFrame e).map id interpreted
  | compiled s => (s.runFrame e).map id compiled

/-- Runs late tasks, after the physics step. -/
def runLate (e : Engine σ) (tasks : List NodeId) : Backend σ → Except Fault Unit × Backend σ
  | interpreted s => (s.runLate e tasks).map id interpreted
  | compiled s => (s.runLate e tasks).map id compiled

/-- Changes the world between two calls, as the host of a session may. -/
def inWorld (action : World σ → α × World σ) : Backend σ → α × Backend σ
  | interpreted ⟨program, frames, ⟨world, memo⟩⟩ =>
    let (a, world) := action world
    (a, interpreted ⟨program, frames, ⟨world, memo⟩⟩)
  | compiled ⟨program, code, frames, ⟨world, globals, locals⟩⟩ =>
    let (a, world) := action world
    (a, compiled ⟨program, code, frames, ⟨world, globals, locals⟩⟩)

def vars (b : Backend σ) : VariableStore := b.world.vars

def setVariable (b : Backend σ) (p : Pointer) (v : Value) : Backend σ :=
  (b.inWorld fun w => ((), w.setVariable p v)).2

/-- Takes over the variables that an earlier session kept. -/
def restore (b : Backend σ) (entries : List SavedVariable) : Backend σ :=
  (b.inWorld fun w => ((), { w with vars := w.vars.restore entries })).2

def ask (b : Backend σ) (action : StateM σ α) : α × Backend σ := b.inWorld (World.ask action)

inductive Interruption where
  | frame (number : Nat) (fault : Fault)
  | late (number : Nat) (fault : Fault)

def Interruption.fault : Interruption → Fault
  | frame _ fault => fault
  | late _ fault => fault

/-- Runs frames, each with its late tasks right after it, from the one of that number on. -/
def runFrames (e : Engine σ) (number : Nat) :
    (count : Nat) → Backend σ → Except Interruption Unit × Backend σ
  | 0, b => (.ok (), b)
  | count + 1, b =>
    match b.runFrame e with
    | (.error fault, b) => (.error (.frame number fault), b)
    | (.ok tasks, b) =>
      match b.runLate e tasks with
      | (.error fault, b) => (.error (.late number fault), b)
      | (.ok (), b) => runFrames e (number + 1) count b

end Backend
end SignalGraph
