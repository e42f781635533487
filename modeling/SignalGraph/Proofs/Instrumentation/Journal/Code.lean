import SignalGraph.Proofs.Instrumentation.Instrumented
import SignalGraph.Proofs.Instrumentation.Code
import SignalGraph.Proofs.Instrumentation.Journal.Basic
import SignalGraph.Proofs.Instrumentation.Marks

/-!
# Traced code

Compiled code with a journal.  Marks in the code of a statement tell when it begins, when one of its
branches does, and when it ends.
-/

namespace SignalGraph
namespace Compiler

open Wasm Machine

variable {σ : Type}

def Phase.marks : Marks Phase where
  number
    | .entered id => 3 * id
    | .branched id => 3 * id + 1
    | .left id => 3 * id + 2
  ofNumber n :=
    match n % 3 with
    | 0 => .entered (n / 3)
    | 1 => .branched (n / 3)
    | _ => .left (n / 3)
  ofNumber_number phase := by
    cases phase with
    | entered id =>
      obtain ⟨hdigit, hid⟩ := digits 3 0 id (by decide)
      rw [Nat.add_zero] at hdigit hid
      simp only [hdigit, hid]
    | branched id =>
      obtain ⟨hdigit, hid⟩ := digits 3 1 id (by decide)
      simp only [hdigit, hid]
    | left id =>
      obtain ⟨hdigit, hid⟩ := digits 3 2 id (by decide)
      simp only [hdigit, hid]

/-- Marks where a statement begins, where one of its branches does, and where it ends. -/
def tracing (x : Target) : Instrumentation where
  entered _ id := [x.mark Phase.marks (.entered id)]
  branched id := [x.mark Phase.marks (.branched id)]
  left id := [x.mark Phase.marks (.left id)]

theorem plain_tracing {x : Target} : (tracing x).Plain := ⟨rfl, rfl, rfl⟩

def tracedModule (p : Program) (m : Wasm.Module) : Wasm.Module :=
  (tracing (target p)).module (target p) m

def record (phase : Phase) : Exec (World (σ × Journal)) Unit :=
  modify fun
    | ⟨host, globals, locals⟩ => ⟨host.record phase, globals, locals⟩

def phases : Teller (World (σ × Journal)) Phase where
  toMarks := Phase.marks
  write phase _ := record phase

/-- Runs a function as `invoke` does, and writes down the phases of statements. -/
def tracedInvoke (e : Engine σ) (p : Program) (m : Wasm.Module) :
    (depth : Nat) → Nat → List Lane → Exec (World (σ × Journal)) (List Lane) :=
  invokeWith (tracedModule p m) (Host.functions (e.beside Journal) p) (heed (target p) phases)

theorem record_beside (phase : Phase) (t : Machine (World σ)) (l : Journal) :
    record phase (t.beside l) = .ok () (t.beside (⟨phase, t.host.slots⟩ :: l)) := rfl

end Compiler
end SignalGraph
