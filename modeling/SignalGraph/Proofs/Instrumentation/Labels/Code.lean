import Mathlib.Data.Nat.Pairing
import SignalGraph.Proofs.Instrumentation.Instrumented
import SignalGraph.Proofs.Instrumentation.Marks

/-!
# Labelled code

Compiled code with a label in front of the code of each statement, which tells where that code
stands.  The code of a chain, with what the labels in it are.
-/

namespace SignalGraph
namespace Compiler

open Wasm

structure Label where
  site : Site
  node : NodeId
  deriving DecidableEq

namespace Site

def number : Site → Nat
  | frame => 0
  | own => 1
  | late id => 3 * id + 2
  | inside id => 3 * id + 3
  | behind id => 3 * id + 4

def ofNumber : Nat → Site
  | 0 => frame
  | 1 => own
  | n + 2 =>
    match n % 3 with
    | 0 => late (n / 3)
    | 1 => inside (n / 3)
    | _ => behind (n / 3)

theorem ofNumber_number (s : Site) : ofNumber s.number = s := by
  cases s with
  | frame | own => rfl
  | late id =>
    obtain ⟨hr, ha⟩ := digits 3 0 id (by decide)
    rw [Nat.add_zero] at hr ha
    rw [number, ofNumber, hr, ha]
    rfl
  | inside id =>
    obtain ⟨hr, ha⟩ := digits 3 1 id (by decide)
    rw [number, show 3 * id + 3 = (3 * id + 1) + 2 from rfl, ofNumber, hr, ha]
    rfl
  | behind id =>
    obtain ⟨hr, ha⟩ := digits 3 2 id (by decide)
    rw [number, show 3 * id + 4 = (3 * id + 2) + 2 from rfl, ofNumber, hr, ha]
    rfl

end Site

def Label.marks : Marks Label where
  number l := Nat.pair l.site.number l.node
  ofNumber n := ⟨.ofNumber n.unpair.1, n.unpair.2⟩
  ofNumber_number l := by rw [Nat.unpair_pair, Site.ofNumber_number]

/-- A label is in front of the code of each statement. -/
def labelling (x : Target) : Instrumentation where
  entered site id := [x.mark Label.marks ⟨site, id⟩]

theorem plain_labelling {x : Target} : (labelling x).Plain := ⟨rfl, rfl, rfl⟩

def labelledFunctions (x : Target) (m : Wasm.Module) : List Function := (labelling x).functions x m

variable (x : Target)

mutual

/-- An instruction without the labels in it; nothing is left of a label. -/
def bareInstr : Instr → Code
  | .call f => if (x.marked? Label.marks f).isSome then [] else [.call f]
  | .when body => [.when (bare body)]
  | .ifElse r a b => [.ifElse r (bare a) (bare b)]
  | .block body => [.block (bare body)]
  | .loop body => [.loop (bare body)]
  | i => [i]

def bare : Code → Code
  | [] => []
  | i :: rest => bareInstr i ++ bare rest

end

mutual

def labelsInstr : Instr → List Label
  | .call f => (x.marked? Label.marks f).toList
  | .when body => labels body
  | .ifElse _ a b => labels a ++ labels b
  | .block body => labels body
  | .loop body => labels body
  | _ => []

def labels : Code → List Label
  | [] => []
  | i :: rest => labelsInstr i ++ labels rest

end

theorem bare_append (a b : Code) : bare x (a ++ b) = bare x a ++ bare x b := by
  induction a with
  | nil => rfl
  | cons i rest ih => rw [List.cons_append, bare, bare, ih, List.append_assoc]

theorem labels_append (a b : Code) : labels x (a ++ b) = labels x a ++ labels x b := by
  induction a with
  | nil => rfl
  | cons i rest ih => rw [List.cons_append, labels, labels, ih, List.append_assoc]

/-- Code with those labels, which without them is the other code. -/
structure Bears (ls : List Label) (code' code : Code) : Prop where
  bare : bare x code' = code
  labels : labels x code' = ls

variable {x} {l l' : List Label} {a' a b' b : Code}

theorem bears_nil : Bears x [] [] [] := ⟨rfl, rfl⟩

theorem bears_append (ha : Bears x l a' a) (hb : Bears x l' b' b) :
    Bears x (l ++ l') (a' ++ b') (a ++ b) :=
  ⟨by rw [bare_append, ha.bare, hb.bare], by rw [labels_append, ha.labels, hb.labels]⟩

theorem bears_label (r : Label) : Bears x [r] [x.mark Label.marks r] [] := by
  have hmarked := x.marked?_markNumber Label.marks r
  refine ⟨?_, ?_⟩
  · rw [bare, Target.mark, bareInstr, hmarked, bare]
    rfl
  · rw [labels, Target.mark, labelsInstr, hmarked, labels]
    rfl

theorem bears_when (h : Bears x l a' a) : Bears x l [.when a'] [.when a] :=
  ⟨congrArg (fun code => [Instr.when code]) h.bare, (List.append_nil _).trans h.labels⟩

theorem bears_ifElse (r : Option LaneType) (ha : Bears x l a' a) (hb : Bears x l' b' b) :
    Bears x (l ++ l') [.ifElse r a' b'] [.ifElse r a b] :=
  ⟨congrArg₂ (fun a b => [Instr.ifElse r a b]) ha.bare hb.bare,
    (List.append_nil _).trans (congrArg₂ (· ++ ·) ha.labels hb.labels)⟩

theorem bears_block_loop (h : Bears x l a' a) : Bears x l [.block [.loop a']] [.block [.loop a]] :=
  ⟨congrArg (fun code => [Instr.block [.loop code]]) h.bare,
    (List.append_nil _).trans ((List.append_nil _).trans h.labels)⟩

mutual

theorem bears_instr {c : Limits} (hc : ∀ f, c.calls f → f < x.firstMark) :
    ∀ {depth : Nat} {i : Instr},
    i.Confined c depth → bareInstr x i = [i] ∧ labelsInstr x i = []
  | _, .call f, hf => by
    rw [bareInstr, labelsInstr, x.marked?_lt Label.marks (hc f hf)]
    exact ⟨rfl, rfl⟩
  | _, .when body, hbody => by
    have h : Bears x [] body body := bears_confined hc hbody
    rw [bareInstr, labelsInstr, h.bare, h.labels]
    exact ⟨rfl, rfl⟩
  | _, .ifElse r a b, hbody => by
    have ha : Bears x [] a a := bears_confined hc hbody.1
    have hb : Bears x [] b b := bears_confined hc hbody.2
    rw [bareInstr, labelsInstr, ha.bare, ha.labels, hb.bare, hb.labels]
    exact ⟨rfl, rfl⟩
  | _, .block body, hbody => by
    have h : Bears x [] body body := bears_confined hc hbody
    rw [bareInstr, labelsInstr, h.bare, h.labels]
    exact ⟨rfl, rfl⟩
  | _, .loop body, hbody => by
    have h : Bears x [] body body := bears_confined hc hbody.2
    rw [bareInstr, labelsInstr, h.bare, h.labels]
    exact ⟨rfl, rfl⟩
  | _, .const _, _ | _, .localGet _, _ | _, .localSet _, _ | _, .globalGet _, _ | _, .globalSet _, _
  | _, .numeric _, _ | _, .br _, _ | _, .brIf _, _ => ⟨rfl, rfl⟩

/-- Code that calls only functions has no label in it. -/
theorem bears_confined {c : Limits} (hc : ∀ f, c.calls f → f < x.firstMark) :
    ∀ {depth : Nat} {code : Code},
    confined c depth code → Bears x [] code code
  | _, [], _ => bears_nil
  | _, i :: rest, h => by
    obtain ⟨hbare, hlabels⟩ := bears_instr hc h.1
    have hrest := bears_confined hc h.2
    refine ⟨?_, ?_⟩
    · rw [bare, hbare, hrest.bare]
      rfl
    · rw [labels, hlabels, hrest.labels]
      rfl

end

abbrev Unlabelled (x : Target) (f : Nat) : Prop := f < x.firstMark

theorem bears_calls {code : Code} (h : Calls (Unlabelled x) 0 code) : Bears x [] code code :=
  bears_confined (c := limits (Unlabelled x) 0) (fun _ hf => hf) (h 0)

theorem callsImports_unlabelled : CallsImports (Unlabelled x) := fun i _ =>
  x.index_lt_firstMark i

end Compiler
end SignalGraph
