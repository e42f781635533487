import SignalGraph.Compiler.Compile
import SignalGraph.Compiler.Host

/-!
# Compiled sessions

A session that runs the module of a program.  The module is checked before it runs.
-/

namespace SignalGraph
namespace Compiler

open Wasm

variable {σ : Type}

abbrev State (σ : Type) := Machine (World σ)

def call (e : Engine σ) (p : Program) (m : Wasm.Module) (name : String) (lanes : List Lane) :
    EStateM Fault (State σ) Unit := fun s =>
  match Machine.run m (Host.functions e p) name lanes s with
  | .ok _ s => .ok () s
  | .error _ s => .error .invalidModule s

def onWorld (change : World σ → World σ) : EStateM Fault (State σ) Unit :=
  modify fun
    | ⟨world, globals, locals⟩ => ⟨change world, globals, locals⟩

structure Session (σ : Type) where
  program : Program
  code : Wasm.Module
  /-- Frames that were started. -/
  frames : Nat := 0
  state : State σ

/-- Runs the frame function with an empty queue; returns the queue. -/
def frame (e : Engine σ) (p : Program) (m : Wasm.Module) :
    EStateM Fault (State σ) (List NodeId) := do
  onWorld World.clearQueue
  call e p m frameName []
  return (← get).host.late.toList

def lateTask (e : Engine σ) (p : Program) (m : Wasm.Module) (task : NodeId) :
    EStateM Fault (State σ) Unit := do
  match p.node task with
  | .error fault => throw fault
  | .ok n =>
    if n.kind ≠ .statement .lateUpdate then throw (.breach (.notLate task n.kind))
    call e p m lateName [.i32 (Int32.ofNat task)]

/-- Runs the bodies of late tasks in order.  What they queue is never run. -/
def late (e : Engine σ) (p : Program) (m : Wasm.Module) (tasks : List NodeId) :
    EStateM Fault (State σ) Unit := tasks.forM (lateTask e p m)

namespace Session

def start (p : Program) (engine : σ) : Except Fault (Session σ) := do
  let m ← compile p
  if ¬m.isValid then throw .invalidModule
  let state : State σ :=
    { host := .start p engine, globals := m.globals.toArray, locals := #[] }
  return { program := p, code := m, state }

def perform {α : Type} (s : Session σ) (action : EStateM Fault (State σ) α) :
    Except Fault α × Session σ :=
  match s with
  | ⟨program, code, frames, state⟩ =>
    match action state with
    | .ok a state => (.ok a, ⟨program, code, frames, state⟩)
    | .error fault state => (.error fault, ⟨program, code, frames, state⟩)

/-- Tells the engine that the next frame begins, except before the first. -/
def advance (e : Engine σ) (frames : Nat) : EStateM Fault (State σ) Unit :=
  if frames = 0 then return () else onWorld fun w => (World.ask (e.ask .advanceFrame) w).2

def runFrame (e : Engine σ) (s : Session σ) : Except Fault (List NodeId) × Session σ :=
  let frames := s.frames
  { s with frames := frames + 1 }.perform do
    advance e frames
    frame e s.program s.code

def runLate (e : Engine σ) (s : Session σ) (tasks : List NodeId) : Except Fault Unit × Session σ :=
  s.perform (late e s.program s.code tasks)

end Session
end Compiler
end SignalGraph
