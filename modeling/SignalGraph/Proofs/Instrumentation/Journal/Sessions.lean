import SignalGraph.Backend
import SignalGraph.Proofs.Instrumentation.Journal.Calls
import SignalGraph.Proofs.Instrumentation.Journal.Runs
import SignalGraph.Proofs.Instrumentation.Sessions

namespace SignalGraph

variable {σ : Type} {p : Program} {e : Engine σ}

namespace Interpreter
namespace Session

def traceFrame (e : Engine σ) (s : Session (σ × Journal)) :
    Except Fault (List NodeId) × Session (σ × Journal) :=
  let frames := s.frames
  { s with frames := frames + 1 }.perform do
    advance (e.beside Journal) frames
    tracedFrame e s.program

def traceLate (e : Engine σ) (s : Session (σ × Journal)) (tasks : List NodeId) :
    Except Fault Unit × Session (σ × Journal) :=
  s.perform (tracedLate e s.program tasks)

end Session
end Interpreter

namespace Compiler

open Wasm Machine Journal

variable {c : Wasm.Module} {first : SlotStore}

def tracedFrame (e : Engine σ) (p : Program) (m : Wasm.Module) :
    EStateM Fault (State (σ × Journal)) (List NodeId) :=
  frameWith (tracedInvoke e p m (m.functions.size + 2)) m

def tracedLate (e : Engine σ) (p : Program) (m : Wasm.Module) (tasks : List NodeId) :
    EStateM Fault (State (σ × Journal)) Unit :=
  tasks.forM (lateTaskWith (tracedInvoke e p m (m.functions.size + 2)) p m)

def Traced (p : Program) (c : Wasm.Module) (first : SlotStore) (t : State σ) (l : Journal) : Prop :=
  Settled c t ∧ Keeps p first [] none t.host.slots l

section

variable (hp : p.WellFormed) (hc : Compiled p c) (hfit : p.slots.length ≤ 4294967296)
  (howns : ∀ id n, p.nodes[id]? = some n → p.Owns id n)
include hp hc hfit howns

theorem mirrors_tracedFrame (frames : Nat) {E : State σ → Journal → Prop} :
    Mirrors Machine.beside (Traced p c first) (fun _ => Traced p c first) E
      (do Session.advance (e.beside Journal) frames; tracedFrame e p c)
      (do Session.advance e frames; frame e p c) := by
  have hask : ∀ (t : State σ) (l : Journal) (w : World σ), w.slots = t.host.slots →
      Keeps p first [] none t.host.slots l → Keeps p first [] none w.slots l := by
    intro t l w heq h
    rw [heq]
    exact h
  refine mirrors_bind (Session.mirrors_advance frames hask) fun _ => ?_
  exact mirrors_mono
    (mirrors_frameWith hp hc (fun _ _ _ h => h) (escorts_frame hp hc hfit howns _ [] []))
    fun _ _ _ h => h.2

theorem mirrors_tracedLate (tasks : List NodeId) :
    Mirrors Machine.beside (Traced p c first) (fun _ => Traced p c first) (Traced p c first)
      (tracedLate e p c tasks) (late e p c tasks) :=
  mirrors_forM fun _ _ => mirrors_lateTaskWith hp hc
    (fun _ => escorts_late hp hc hfit howns _ [] _) fun _ _ _ h => h

end

namespace Session

def traceFrame (e : Engine σ) (s : Session (σ × Journal)) :
    Except Fault (List NodeId) × Session (σ × Journal) :=
  let frames := s.frames
  { s with frames := frames + 1 }.perform do
    advance (e.beside Journal) frames
    tracedFrame e s.program s.code

def traceLate (e : Engine σ) (s : Session (σ × Journal)) (tasks : List NodeId) :
    Except Fault Unit × Session (σ × Journal) :=
  s.perform (tracedLate e s.program s.code tasks)

end Session
end Compiler
end SignalGraph
