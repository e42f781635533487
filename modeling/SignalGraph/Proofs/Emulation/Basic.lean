import SignalGraph.Proofs.Emission.Basic
import SignalGraph.Proofs.Emission.Lanes
import SignalGraph.Proofs.Emission.Layout
import SignalGraph.Proofs.Execution.Inputs
import SignalGraph.Proofs.Wasm.CodeRuns

/-!
# Emulation

When code does what an interpreted run does: from a machine that agrees with the interpreter's state
it runs to its end, leaves the lanes of the result, and agrees again.
-/

namespace SignalGraph

/-- Ids fit in the 32-bit integers that stand for them in code: nodes and slots are numbered by
unsigned ones, and a variable by those that are not negative, because those mark missing
pointers. -/
structure Program.Addressable (p : Program) : Prop where
  nodes : p.nodes.size ≤ 4294967296
  slots : p.slots.length ≤ 4294967296
  vars : p.vars.length ≤ 2147483648

namespace Compiler

open Wasm Machine Interpreter

variable {σ α β : Type}

/-- What the globals of a memo point tell in a frame.  A stamp of an earlier frame tells that
nothing was computed yet. -/
inductive Cached (p : Program) (frames : Nat) (k : MemoId) (point : MemoPoint)
    (globals : Array Lane) : Option Value → Prop
  | empty {g : Int32} : globals[(target p).stampGlobal k]? = some (.i32 g) →
    (g = -1 ∨ ∃ i, i < frames ∧ g = Int32.ofNat i) → Cached p frames k point globals none
  | filled {v : Value} {lanes : List Lane} :
    globals[(target p).stampGlobal k]? = some (.i32 (Int32.ofNat frames)) →
    v.InLanes p.vars point.type lanes → Holds globals (cacheGlobals (target p) k point) lanes →
    Cached p frames k point globals (some v)

/-- A machine and an interpreter's state that hold the same after a number of frames. -/
structure Agrees (p : Program) (frames : Nat) (s : Interpreter.State σ) (t : Machine (World σ)) :
    Prop where
  typed : s.Typed p
  host : t.host = s.world
  size : t.globals.size = (globals p).length
  frame : t.globals[Target.frameGlobal]? = some (.i32 (Int32.ofNat frames))
  memo : ∀ (k : MemoId) (point : MemoPoint), p.memoPoints[k]? = some point →
    Cached p frames k point t.globals (s.memo[k]?).join

theorem Agrees.of_locals {p : Program} {frames : Nat} {s : Interpreter.State σ}
    {t t' : Machine (World σ)} (h : Agrees p frames s t) (hhost : t'.host = t.host)
    (hglobals : t'.globals = t.globals) : Agrees p frames s t' := by
  refine ⟨h.typed, hhost.trans h.host, ?_, ?_, ?_⟩
  · rw [hglobals]
    exact h.size
  · rw [hglobals]
    exact h.frame
  · rw [hglobals]
    exact h.memo

theorem Agrees.of_world {p : Program} {frames : Nat} {s : Interpreter.State σ}
    {t : Machine (World σ)} (h : Agrees p frames s t) {w : World σ}
    (htyped : State.Typed p ⟨w, s.memo⟩) : Agrees p frames ⟨w, s.memo⟩ { t with host := w } :=
  ⟨htyped, rfl, h.size, h.frame, h.memo⟩

structure Kept (lo : Nat) (t t' : Machine (World σ)) : Prop where
  size : t'.locals.size = t.locals.size
  below : ∀ i, i < lo → t'.locals[i]? = t.locals[i]?

theorem Kept.refl (lo : Nat) (t : Machine (World σ)) : Kept lo t t := ⟨rfl, fun _ _ => rfl⟩

theorem Kept.trans {lo mid : Nat} {t t' t'' : Machine (World σ)} (h : Kept lo t t')
    (h' : Kept mid t' t'') (hle : lo ≤ mid) : Kept lo t t'' :=
  ⟨h'.size.trans h.size, fun i hi =>
    (h'.below i (Nat.lt_of_lt_of_le hi hle)).trans (h.below i hi)⟩

theorem Kept.of_locals (lo : Nat) {t t' : Machine (World σ)} (h : t'.locals = t.locals) :
    Kept lo t t' := by
  refine ⟨?_, fun i _ => ?_⟩
  · rw [h]
  · rw [h]

theorem Kept.holds {t t' : Machine (World σ)} (h : Kept lo t t') {is : List Nat} {held : List Lane}
    (his : ∀ i ∈ is, i < lo) (hholds : Holds t.locals is held) : Holds t'.locals is held :=
  holds_congr hholds fun i hi => h.below i (his i hi)

/-- A program whose code runs in some frame, next to the functions that the code may call. -/
structure Setting (σ : Type) where
  program : Program
  wellFormed : program.WellFormed
  addressable : program.Addressable
  engine : Engine σ
  frames : Nat
  /-- Frames are told apart by their numbers. -/
  frames_lt : frames < 4294967295
  call : Nat → List Lane → Exec (World σ) (List Lane)
  imports : ∀ i ∈ Import.table, ∀ (lanes below : List Lane) (t : Machine (World σ)),
    lanes.length = i.type.params.length →
    call i.index (lanes.reverse ++ below) t =
      .ok ((Host.run engine program i lanes t.host).1.reverse ++ below)
        { t with host := (Host.run engine program i lanes t.host).2 }

variable {y : Setting σ} {lo mid hi : Nat} {a b : Code} {ins : List Lane} {x : Run σ α}
  {P R : α → List Lane → Prop}

/-- Code that takes lanes `ins` does what a run does, and leaves the lanes of its result.  It may
change locals from `lo` to `hi`. -/
def Setting.Emulates (y : Setting σ) (lo hi : Nat) (code : Code) (ins : List Lane) (run : Run σ α)
    (R : α → List Lane → Prop) : Prop :=
  ∀ s t below a s', Agrees y.program y.frames s t → hi ≤ t.locals.size → run s = .ok a s' →
    ∃ t' outs, Runs y.call code (ins.reverse ++ below) t (outs.reverse ++ below) t' ∧ R a outs ∧
      Agrees y.program y.frames s' t' ∧ Kept lo t t'

def Setting.EmulatesGiven (y : Setting σ) (is : List Nat) (held : List Lane) (lo hi : Nat)
    (code : Code) (ins : List Lane) (run : Run σ α) (R : α → List Lane → Prop) : Prop :=
  ∀ s t below a s', Agrees y.program y.frames s t → Holds t.locals is held → hi ≤ t.locals.size →
    run s = .ok a s' →
    ∃ t' outs, Runs y.call code (ins.reverse ++ below) t (outs.reverse ++ below) t' ∧ R a outs ∧
      Agrees y.program y.frames s' t' ∧ Kept lo t t'

abbrev Quiet : Unit → List Lane → Prop := fun _ outs => outs = []

theorem emulates_nil {v : α} (h : R v ins) : y.Emulates lo hi [] ins (pure v) R := by
  intro s t below a s' hst _ hrun
  cases hrun
  exact ⟨t, ins, runs_nil, h, hst, Kept.refl lo t⟩

theorem emulates_mono (h : y.Emulates lo hi a ins x P) (hR : ∀ v outs, P v outs → R v outs) :
    y.Emulates lo hi a ins x R := by
  intro s t below v s' hst hsize hrun
  obtain ⟨t', outs, hruns, hP, hst', hkept⟩ := h s t below v s' hst hsize hrun
  exact ⟨t', outs, hruns, hR v outs hP, hst', hkept⟩

theorem emulates_locals {lo' hi' : Nat} (h : y.Emulates lo hi a ins x R) (hlo : lo' ≤ lo)
    (hhi : hi ≤ hi') : y.Emulates lo' hi' a ins x R := by
  intro s t below v s' hst hsize hrun
  obtain ⟨t', outs, hruns, hR, hst', hkept⟩ := h s t below v s' hst (Nat.le_trans hhi hsize) hrun
  exact ⟨t', outs, hruns, hR, hst', hkept.size,
    fun i hi => hkept.below i (Nat.lt_of_lt_of_le hi hlo)⟩

variable {is : List Nat} {held : List Lane}

theorem given_of_emulates (h : y.Emulates lo hi a ins x R) :
    y.EmulatesGiven is held lo hi a ins x R :=
  fun s t below v s' hst _ hsize hrun => h s t below v s' hst hsize hrun

theorem emulates_of_given (h : y.EmulatesGiven [] [] lo hi a ins x R) :
    y.Emulates lo hi a ins x R :=
  fun s t below v s' hst hsize hrun => h s t below v s' hst .nil hsize hrun

/-- Code in a row does what runs in a row do. -/
theorem given_bind {f : α → Run σ β} {Q : β → List Lane → Prop}
    (ha : y.EmulatesGiven is held lo mid a ins x P)
    (hb : ∀ v outs, P v outs → y.EmulatesGiven is held mid hi b outs (f v) Q)
    (his : ∀ i ∈ is, i < lo) (hlo : lo ≤ mid) (hhi : mid ≤ hi) :
    y.EmulatesGiven is held lo hi (a ++ b) ins (x >>= f) Q := by
  intro s t below v s' hst hholds hsize hrun
  obtain ⟨u, s₁, hx, hf⟩ := bind_eq_ok hrun
  obtain ⟨t₁, outs, hruns, hP, hst₁, hkept⟩ :=
    ha s t below u s₁ hst hholds (Nat.le_trans hhi hsize) hx
  have hsize₁ : hi ≤ t₁.locals.size := by
    rw [hkept.size]
    exact hsize
  obtain ⟨t₂, outs', hruns', hQ, hst₂, hkept'⟩ :=
    hb u outs hP s₁ t₁ below v s' hst₁ (hkept.holds his hholds) hsize₁ hf
  exact ⟨t₂, outs', runs_append hruns hruns', hQ, hst₂, hkept.trans hkept' hlo⟩

theorem emulates_bind {f : α → Run σ β} {Q : β → List Lane → Prop}
    (ha : y.Emulates lo mid a ins x P)
    (hb : ∀ v outs, P v outs → y.Emulates mid hi b outs (f v) Q) (hlo : lo ≤ mid) (hhi : mid ≤ hi) :
    y.Emulates lo hi (a ++ b) ins (x >>= f) Q :=
  emulates_of_given (given_bind (given_of_emulates ha)
    (fun v outs hP => given_of_emulates (hb v outs hP)) (fun _ hi => nomatch hi) hlo hhi)

/-- What lies below the lanes that code takes stays there. -/
theorem emulates_frame (under : List Lane) (h : y.Emulates lo hi a ins x P) :
    y.Emulates lo hi a (under ++ ins) x fun v outs => ∃ top, outs = under ++ top ∧ P v top := by
  intro s t below v s' hst hsize hrun
  obtain ⟨t', outs, hruns, hP, hst', hkept⟩ :=
    h s t (under.reverse ++ below) v s' hst hsize hrun
  refine ⟨t', under ++ outs, ?_, ⟨outs, rfl, hP⟩, hst', hkept⟩
  rw [List.reverse_append, List.append_assoc, List.reverse_append, List.append_assoc]
  exact hruns

theorem emulates_runs {v : α} (outs : List Lane)
    (h : ∀ (t : Machine (World σ)) below,
      Runs y.call a (ins.reverse ++ below) t (outs.reverse ++ below) t)
    (hR : R v outs) : y.Emulates lo hi a ins (pure v) R := by
  intro s t below u s' hst _ hrun
  cases hrun
  exact ⟨t, outs, h t below, hR, hst, Kept.refl lo t⟩

/-- Code that only moves lanes, some of them from the locals, in front of other code. -/
theorem given_after (outs : List Lane)
    (h : ∀ (t : Machine (World σ)) below, Holds t.locals is held →
      Runs y.call a (ins.reverse ++ below) t (outs.reverse ++ below) t)
    (hb : y.EmulatesGiven is held lo hi b outs x R) :
    y.EmulatesGiven is held lo hi (a ++ b) ins x R := by
  intro s t below v s' hst hholds hsize hrun
  obtain ⟨t', outs', hruns, hR, hst', hkept⟩ := hb s t below v s' hst hholds hsize hrun
  exact ⟨t', outs', runs_append (h t below hholds) hruns, hR, hst', hkept⟩

theorem emulates_after (outs : List Lane)
    (h : ∀ (t : Machine (World σ)) below,
      Runs y.call a (ins.reverse ++ below) t (outs.reverse ++ below) t)
    (hb : y.Emulates lo hi b outs x R) : y.Emulates lo hi (a ++ b) ins x R :=
  emulates_of_given (given_after outs (fun t below _ => h t below) (given_of_emulates hb))

theorem emulates_const (lane : Lane) (h : y.Emulates lo hi a (ins ++ [lane]) x R) :
    y.Emulates lo hi (.const lane :: a) ins x R := by
  refine emulates_after (a := [.const lane]) _ (fun t below => ?_) h
  rw [List.reverse_append]
  exact runs_const lane

theorem emulates_consts {v : α} {lanes : List Lane} (hR : R v lanes) :
    y.Emulates lo hi (lanes.map .const) [] (pure v) R :=
  emulates_runs lanes (fun _ _ => runs_consts) hR

/-- A call of the host does what the interpreter does to the world. -/
theorem emulates_import {i : Import} (hmem : i ∈ Import.table)
    (hlen : ins.length = i.type.params.length)
    (h : ∀ s v s', s.Typed y.program → x s = .ok v s' →
      s' = ⟨(Host.run y.engine y.program i ins s.world).2, s.memo⟩ ∧ s'.Typed y.program ∧
        R v (Host.run y.engine y.program i ins s.world).1) :
    y.Emulates lo hi [callImport i] ins x R := by
  intro s t below v s' hst _ hrun
  obtain ⟨rfl, htyped, hR⟩ := h s v s' hst.typed hrun
  have hcall := y.imports i hmem ins below t hlen
  rw [hst.host] at hcall
  exact ⟨_, _, runs_call hcall, hR, hst.of_world htyped, Kept.of_locals lo rfl⟩

theorem emulates_ifElse {r : Option LaneType} {c : Int32}
    (htrue : c ≠ 0 → y.Emulates lo hi a [] x R) (hfalse : c = 0 → y.Emulates lo hi b [] x R) :
    y.Emulates lo hi [.ifElse r a b] [.i32 c] x R := by
  intro s t below v s' hst hsize hrun
  by_cases hc : c = 0
  · obtain ⟨t', outs, hruns, hR, hst', hkept⟩ := hfalse hc s t [] v s' hst hsize hrun
    subst hc
    rw [List.append_nil, List.append_nil] at hruns
    exact ⟨t', outs, runs_onFalse hruns, hR, hst', hkept⟩
  · obtain ⟨t', outs, hruns, hR, hst', hkept⟩ := htrue hc s t [] v s' hst hsize hrun
    rw [List.append_nil, List.append_nil] at hruns
    exact ⟨t', outs, runs_onTrue hc hruns, hR, hst', hkept⟩

theorem given_when {c : Int32} {run : Run σ Unit}
    (htrue : c ≠ 0 → y.EmulatesGiven is held lo hi a [] run Quiet)
    (hfalse : c = 0 → run = pure ()) :
    y.EmulatesGiven is held lo hi [.when a] [.i32 c] run Quiet := by
  intro s t below v s' hst hholds hsize hrun
  by_cases hc : c = 0
  · rw [hfalse hc] at hrun
    cases hrun
    subst hc
    exact ⟨t, [], runs_when_zero, rfl, hst, Kept.refl lo t⟩
  · obtain ⟨t', outs, hruns, rfl, hst', hkept⟩ := htrue hc s t [] v s' hst hholds hsize hrun
    exact ⟨t', [], runs_when hc hruns, rfl, hst', hkept⟩

theorem emulates_when {c : Int32} {run : Run σ Unit}
    (htrue : c ≠ 0 → y.Emulates lo hi a [] run Quiet) (hfalse : c = 0 → run = pure ()) :
    y.Emulates lo hi [.when a] [.i32 c] run Quiet :=
  emulates_of_given (given_when (fun hc => given_of_emulates (htrue hc)) hfalse)

theorem runs_spill {n : Nat} {t : Machine (World σ)} (hlen : ins.length = n)
    (hsize : lo + n ≤ t.locals.size) (below : List Lane) :
    ∃ t', Runs y.call ((List.range' lo n).reverse.map .localSet) (ins.reverse ++ below) t below t' ∧
      Holds t'.locals (List.range' lo n) ins ∧ t'.host = t.host ∧ t'.globals = t.globals ∧
      Kept lo t t' := by
  have hcount : (List.range' lo n).length = ins.length := by
    rw [List.length_range', hlen]
  refine ⟨_, runs_localSets hcount, ?_, rfl, rfl, size_putAll, fun i hi => ?_⟩
  · refine holds_putAll hcount List.nodup_range' fun i hi => ?_
    have := List.mem_range'_1.mp hi
    omega
  · refine putAll_of_not_mem fun hmem => ?_
    have := List.mem_range'_1.mp hmem
    omega

/-- Code after a spill finds the lanes in the locals. -/
theorem emulates_spill {n : Nat} (hlen : ins.length = n) (hhi : lo + n ≤ hi)
    (hb : y.EmulatesGiven (List.range' lo n) ins (lo + n) hi b [] x R) :
    y.Emulates lo hi ((List.range' lo n).reverse.map .localSet ++ b) ins x R := by
  intro s t below v s' hst hsize hrun
  obtain ⟨t₁, hruns, hholds, hhost, hglobals, hkept⟩ :=
    runs_spill (y := y) hlen (Nat.le_trans hhi hsize) below
  have hsize₁ : hi ≤ t₁.locals.size := by
    rw [hkept.size]
    exact hsize
  obtain ⟨t', outs, hruns', hR, hst', hkept'⟩ :=
    hb s t₁ below v s' (hst.of_locals hhost hglobals) hholds hsize₁ hrun
  exact ⟨t', outs, runs_append hruns hruns', hR, hst', hkept.trans hkept' (Nat.le_add_right lo n)⟩

/-- Lanes go into fresh locals, and further lanes are made from the locals. -/
theorem emulates_spilled {n : Nat} {v : α} {outs : List Lane} (hlen : ins.length = n)
    (hhi : lo + n ≤ hi)
    (hrest : ∀ (t : Machine (World σ)) below, Holds t.locals (List.range' lo n) ins →
      Runs y.call b below t (outs.reverse ++ below) t) (hR : R v outs) :
    y.Emulates lo hi ((List.range' lo n).reverse.map .localSet ++ b) ins (pure v) R := by
  refine emulates_spill hlen hhi ?_
  have hmoved : y.EmulatesGiven (List.range' lo n) ins (lo + n) hi (b ++ []) [] (pure v) R :=
    given_after outs hrest (given_of_emulates (emulates_nil hR))
  rwa [List.append_nil] at hmoved

end Compiler
end SignalGraph
