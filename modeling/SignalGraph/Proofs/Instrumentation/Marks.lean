import SignalGraph.Compiler.Compile
import SignalGraph.Proofs.Wasm.CodeRuns

/-!
# Marks

A mark is a call of a number past all functions of a program.  It leaves the stack alone, and tells
what the number stands for.
-/

namespace SignalGraph
namespace Compiler

open Wasm Machine

variable {α τ : Type} {x : Target}

namespace Target

variable (x : Target)

def firstMark : Nat := x.outlinedFunction x.outlined.length

theorem index_lt_firstMark (i : Import) : i.index < x.firstMark := by
  have hle : i.index ≤ imports := List.idxOf_le_length
  simp only [firstMark, outlinedFunction]
  omega

theorem memoFunction_lt_firstMark {k : MemoId} {m : MemoPoint}
    (hk : x.program.memoPoints[k]? = some m) : memoFunction k < x.firstMark := by
  have hlt := (List.getElem?_eq_some_iff.mp hk).1
  simp only [firstMark, outlinedFunction, memoFunction]
  omega

theorem outlinedFunction_lt_firstMark {i : Nat} {id : NodeId} (hi : x.outlined[i]? = some id) :
    x.outlinedFunction i < x.firstMark := by
  have hlt := (List.getElem?_eq_some_iff.mp hi).1
  simp only [firstMark, outlinedFunction]
  omega

end Target

/-- What marks tell, with a number for each. -/
structure Marks (α : Type) where
  number : α → Nat
  ofNumber : Nat → α
  ofNumber_number : ∀ a, ofNumber (number a) = a

/-- The last digit of a number, and what is before it. -/
theorem digits (base digit a : Nat) (h : digit < base) :
    (base * a + digit) % base = digit ∧ (base * a + digit) / base = a := by
  have hpos : 0 < base := Nat.lt_of_le_of_lt (Nat.zero_le _) h
  rw [Nat.mul_add_mod, Nat.mul_add_div hpos, Nat.mod_eq_of_lt h, Nat.div_eq_of_lt h, Nat.add_zero]
  exact ⟨rfl, rfl⟩

namespace Target

variable (x : Target) (M : Marks α)

def markNumber (a : α) : Nat := x.firstMark + M.number a

def mark (a : α) : Instr := .call (x.markNumber M a)

/-- What the number of a function tells if it is that of a mark. -/
def marked? (f : Nat) : Option α :=
  if f < x.firstMark then none else some (M.ofNumber (f - x.firstMark))

theorem marked?_markNumber (a : α) : x.marked? M (x.markNumber M a) = some a := by
  rw [marked?, markNumber, if_neg (Nat.not_lt.mpr (Nat.le_add_right _ _)), Nat.add_sub_cancel_left,
    M.ofNumber_number]

theorem marked?_lt {f : Nat} (h : f < x.firstMark) : x.marked? M f = none := if_pos h

end Target

/-- Marks with what is written down where one is called. -/
structure Teller (τ α : Type) extends Marks α where
  write : α → List Lane → Exec τ Unit

/-- Calls a function.  A mark is only written down. -/
def heed (x : Target) (T : Teller τ α) (call : Nat → List Lane → Exec τ (List Lane)) (f : Nat)
    (stack : List Lane) : Exec τ (List Lane) :=
  match x.marked? T.toMarks f with
  | some a => do
    T.write a stack
    return stack
  | none => call f stack

/-- Runs a function as `invoke` does, with something extra around each call. -/
def invokeWith (m : Wasm.Module) (host : Host τ)
    (around : (Nat → List Lane → Exec τ (List Lane)) → Nat → List Lane → Exec τ (List Lane)) :
    (depth : Nat) → Nat → List Lane → Exec τ (List Lane)
  | 0, _, _ => throw .exhausted
  | depth + 1, f, stack => enter m host (around (invokeWith m host around depth)) f stack

section

variable {T : Teller τ α} {call : Nat → List Lane → Exec τ (List Lane)}

theorem heed_mark (a : α) (s : List Lane) :
    heed x T call (x.markNumber T.toMarks a) s = (do T.write a s; return s) := by
  unfold heed
  rw [x.marked?_markNumber]

theorem heed_lt {f : Nat} (h : f < x.firstMark) (s : List Lane) :
    heed x T call f s = call f s := by
  unfold heed
  rw [x.marked?_lt T.toMarks h]

end

end Compiler
end SignalGraph
