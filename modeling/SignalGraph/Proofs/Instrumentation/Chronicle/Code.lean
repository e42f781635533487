import Mathlib.Data.Nat.Pairing
import SignalGraph.Proofs.Emulation.Equivalence
import SignalGraph.Proofs.Emulation.Memo
import SignalGraph.Proofs.Instrumentation.Instrumented
import SignalGraph.Proofs.Instrumentation.Chronicle.Freshness
import SignalGraph.Proofs.Instrumentation.Chronicle.Tellings
import SignalGraph.Proofs.Instrumentation.Ledger.Code
import SignalGraph.Proofs.Instrumentation.Ledger.Runs
import SignalGraph.Proofs.Instrumentation.Marks
import SignalGraph.Proofs.Instrumentation.Tracks

/-!
# Chronicled code

Compiled code with a chronicle.  Marks in the code tell what it does and which lanes lie on the
stack.
-/

namespace SignalGraph
namespace Compiler

open Wasm Machine Chronicle

variable {σ : Type}

/-- What a call of a mark tells, with how many lanes of the stack it tells of. -/
inductive Mark where
  | entered (id : NodeId)
  | branched (id : NodeId)
  | left (id : NodeId)
  | computed (k : MemoId) (count : Nat)
  | read (id : NodeId) (input count : Nat)

namespace Mark

/-- The lanes on top of the stack, the uppermost last. -/
def top (count : Nat) (stack : List Lane) : Reading := .lanes (stack.take count).reverse

def deed : Mark → List Lane → Deed
  | entered id, _ => .entered id
  | branched id, _ => .branched id
  | left id, _ => .left id
  | computed k count, stack => .computed k (top count stack)
  | read id input count, stack => .read id input (top count stack)

def number : Mark → Nat
  | entered id => 5 * id
  | branched id => 5 * id + 1
  | left id => 5 * id + 2
  | computed k count => 5 * Nat.pair k count + 3
  | read id input count => 5 * Nat.pair id (Nat.pair input count) + 4

def ofNumber (n : Nat) : Mark :=
  match n % 5 with
  | 0 => entered (n / 5)
  | 1 => branched (n / 5)
  | 2 => left (n / 5)
  | 3 => computed (n / 5).unpair.1 (n / 5).unpair.2
  | _ => read (n / 5).unpair.1 (n / 5).unpair.2.unpair.1 (n / 5).unpair.2.unpair.2

theorem ofNumber_number (m : Mark) : ofNumber m.number = m := by
  cases m with
  | entered id =>
    obtain ⟨hr, ha⟩ := digits 5 0 id (by decide)
    rw [Nat.add_zero] at hr ha
    rw [ofNumber, number, hr, ha]
    rfl
  | branched id =>
    obtain ⟨hr, ha⟩ := digits 5 1 id (by decide)
    rw [ofNumber, number, hr, ha]
    rfl
  | left id =>
    obtain ⟨hr, ha⟩ := digits 5 2 id (by decide)
    rw [ofNumber, number, hr, ha]
    rfl
  | computed k count =>
    obtain ⟨hr, ha⟩ := digits 5 3 (Nat.pair k count) (by decide)
    rw [ofNumber, number, hr, ha, Nat.unpair_pair]
    rfl
  | read id input count =>
    obtain ⟨hr, ha⟩ := digits 5 4 (Nat.pair id (Nat.pair input count)) (by decide)
    rw [ofNumber, number, hr, ha, Nat.unpair_pair, Nat.unpair_pair]
    rfl

def marks : Marks Mark := ⟨number, ofNumber, ofNumber_number⟩

end Mark

def Target.told (x : Target) (m : Mark) : Instr := x.mark Mark.marks m

/-- The code of an input of a numbered node, with a mark that tells what the input receives. -/
def heardCode (x : Target) (produce : Producer → Emit Code) (id : NodeId) (n : Node)
    (asked : Producer) : Emit Code := do
  match n.inputs[asked.output]? with
  | some (.wire w) =>
    return (← fetch produce w) ++ [x.told (.read id asked.output w.type.lanes.length)]
  | _ => throw (.breach (.noInput n.kind n.pos asked.output))

/-- Marks tell what a node receives and what is computed for a memo point, next to when statements
begin, when one of their branches does, and when they end. -/
def telling (x : Target) : Instrumentation where
  asks := heardCode x
  asking := Node.numbered
  entered _ id := [x.told (.entered id)]
  branched id := [x.told (.branched id)]
  left id := [x.told (.left id)]
  computed k m := [x.told (.computed k m.type.lanes.length)]

def toldProduce (x : Target) : (depth : Nat) → Producer → Emit Code := (telling x).produce x

def toldModule (p : Program) (m : Wasm.Module) : Wasm.Module :=
  (telling (target p)).module (target p) m

def tell {ε : Type} (d : Deed) : EStateM ε (Machine (World (σ × Chronicle))) Unit :=
  modify fun
    | ⟨host, globals, locals⟩ =>
      ⟨(World.ask (fun s => ((), (s.1, s.2 ++ [d]))) host).2, globals, locals⟩

def deeds : Teller (World (σ × Chronicle)) Mark where
  toMarks := Mark.marks
  write m stack := tell (m.deed stack)

def toldInvoke (e : Engine σ) (p : Program) (m : Wasm.Module) :
    (depth : Nat) → Nat → List Lane → Exec (World (σ × Chronicle)) (List Lane) :=
  invokeWith (toldModule p m) (Host.functions (e.recording Deed.ofRequest) p)
    (heed (target p) deeds)

theorem tell_beside {ε : Type} (d : Deed) (t : Machine (World σ)) (l : Chronicle) :
    tell d (t.beside l) = (.ok () (t.beside (l ++ [d])) : EStateM.Result ε _ _) := rfl

end Compiler
end SignalGraph
