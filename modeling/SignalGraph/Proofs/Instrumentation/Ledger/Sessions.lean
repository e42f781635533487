import SignalGraph.Backend
import SignalGraph.Proofs.Instrumentation.Ledger.Frames
import SignalGraph.Proofs.Instrumentation.Ledger.Runs

namespace SignalGraph

variable {σ : Type} {p : Program} {e : Engine σ}

namespace Interpreter

def Sound (p : Program) (s : State σ) (l : Ledger) : Prop :=
  s.Typed p ∧ Kept p (fun _ => False) s l

def watchedFrame (e : Engine σ) (p : Program) : Run (σ × Ledger) (List NodeId) :=
  frameWith ((watching e).run p) p

def watchedLate (e : Engine σ) (p : Program) (tasks : List NodeId) : Run (σ × Ledger) Unit :=
  tasks.forM (lateTaskWith ((watching e).run p) p)

/-- A frame returns its queue, with a ledger that it began. -/
theorem mirrors_watchedFrame (hp : p.WellFormed) (hshares : p.Shares) (frames : Nat)
    {E : State σ → Ledger → Prop} :
    Mirrors State.beside (fun s l => s.Typed p ∧ l = []) (fun _ => Sound p) E
      (do Session.advance (e.beside Ledger) frames; watchedFrame e p)
      (do Session.advance e frames; frame e p) := by
  have hsteady : Steady (σ := σ) fun _ l => l = ([] : Ledger) := fun _ _ _ _ h => h
  refine mirrors_mono (mirrors_frameWith e hp (echoes_advance hsteady e frames) ?_
    (carries_watching e hp hshares).chain) fun _ _ _ h => h.2
  rintro s l rfl
  exact kept_start p _

theorem mirrors_watchedLate (hp : p.WellFormed) (hshares : p.Shares) (tasks : List NodeId) :
    Mirrors State.beside (Sound p) (fun _ => Sound p) (Sound p) (watchedLate e p tasks)
      (late e p tasks) :=
  mirrors_forM fun _ _ => mirrors_lateTaskWith e hp
    (fun _ _ _ _ _ => (carries_watching e hp hshares).chain) fun _ _ _ h => h

namespace Session

def watchFrame (e : Engine σ) (s : Session (σ × Ledger)) :
    Except Fault (List NodeId) × Session (σ × Ledger) :=
  let frames := s.frames
  { s with frames := frames + 1 }.perform do
    advance (e.beside Ledger) frames
    watchedFrame e s.program

def watchLate (e : Engine σ) (s : Session (σ × Ledger)) (tasks : List NodeId) :
    Except Fault Unit × Session (σ × Ledger) :=
  s.perform (watchedLate e s.program tasks)

end Session
end Interpreter

namespace Compiler

open Wasm

namespace Session

def watchFrame (e : Engine σ) (s : Session (σ × Ledger)) :
    Except Fault (List NodeId) × Session (σ × Ledger) :=
  let frames := s.frames
  { s with frames := frames + 1 }.perform do
    advance (e.beside Ledger) frames
    watchedFrame e s.program s.code

def watchLate (e : Engine σ) (s : Session (σ × Ledger)) (tasks : List NodeId) :
    Except Fault Unit × Session (σ × Ledger) :=
  s.perform (watchedLate e s.program s.code tasks)

end Session
end Compiler
end SignalGraph
