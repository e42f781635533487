import SignalGraph.Interpreter.Run

/-!
# Interpreted sessions

A session runs a program frame by frame.  After a frame the caller runs its physics step and then
hands back the late tasks that the frame queued.
-/

namespace SignalGraph
namespace Interpreter

variable {σ : Type}

structure Session (σ : Type) where
  program : Program
  /-- Frames that were started. -/
  frames : Nat := 0
  state : State σ

/-- Runs every entry point with empty memo points and an empty queue; returns the queue. -/
def frame (e : Engine σ) (p : Program) : Run σ (List NodeId) := do
  modify fun s =>
    { world := s.world.clearQueue, memo := Array.replicate p.memoPoints.length none }
  run e p p.entryPoints
  return (← get).world.late.toList

def lateTask (e : Engine σ) (p : Program) (task : NodeId) : Run σ Unit := do
  let n ← check (p.node task)
  if n.kind ≠ .statement .lateUpdate then throw (.breach (.notLate task n.kind))
  runBranch (run e p) n 0

/-- Runs the bodies of late tasks in order.  What they queue is never run. -/
def late (e : Engine σ) (p : Program) (tasks : List NodeId) : Run σ Unit :=
  tasks.forM (lateTask e p)

namespace Session

def start (p : Program) (engine : σ) : Session σ :=
  { program := p
    state := { world := .start p engine, memo := Array.replicate p.memoPoints.length none } }

def perform {α : Type} (s : Session σ) (action : Run σ α) : Except Fault α × Session σ :=
  match s with
  | ⟨program, frames, state⟩ =>
    match action state with
    | .ok a state => (.ok a, ⟨program, frames, state⟩)
    | .error fault state => (.error fault, ⟨program, frames, state⟩)

def advance (e : Engine σ) (frames : Nat) : Run σ Unit :=
  if frames = 0 then return () else inWorld (World.ask (e.ask .advanceFrame))

def runFrame (e : Engine σ) (s : Session σ) : Except Fault (List NodeId) × Session σ :=
  let frames := s.frames
  { s with frames := frames + 1 }.perform do
    advance e frames
    frame e s.program

def runLate (e : Engine σ) (s : Session σ) (tasks : List NodeId) : Except Fault Unit × Session σ :=
  s.perform (late e s.program tasks)

end Session
end Interpreter
end SignalGraph
