import Mathlib.Data.List.Forall2
import SignalGraph.Compiler.Compile
import SignalGraph.Proofs.Analysis.WellFormed
import SignalGraph.Proofs.Execution.Values
import SignalGraph.Proofs.Wasm.StackTypes

/-!
# Emission

What emission of code promises: it succeeds, it only adds locals, and its code is well typed
wherever those locals and the functions and globals of the module are at hand.
-/

namespace SignalGraph
namespace Compiler

open Wasm Typing

structure Locals.Extends (l l' : Locals) : Prop where
  params : l'.params = l.params
  types : l.types <+: l'.types

theorem Locals.extends_refl (l : Locals) : l.Extends l := ⟨rfl, List.prefix_refl _⟩

theorem Locals.extends_trans {a b c : Locals} (hab : a.Extends b) (hbc : b.Extends c) :
    a.Extends c :=
  ⟨hbc.params.trans hab.params, hab.types.trans hbc.types⟩

def Locals.count (l : Locals) : Nat := l.params + l.types.length

theorem Locals.count_le {l l' : Locals} (h : l.Extends l') : l.count ≤ l'.count := by
  rw [count, count, h.params]
  have := h.types.length_le
  omega

def Locals.Within (l : Locals) (c : TypingContext) : Prop :=
  ∀ (i : Nat) (t : LaneType), l.types[i]? = some t → c.locals[l.params + i]? = some t

theorem Locals.within_of_extends {l l' : Locals} {c : TypingContext} (h : l.Extends l')
    (hc : l'.Within c) : l.Within c := by
  intro i t hi
  obtain ⟨more, hmore⟩ := h.types
  have hi' : l'.types[i]? = some t := by
    rw [← hmore, List.getElem?_append_left (List.getElem?_eq_some_iff.mp hi).1]
    exact hi
  have hlocal := hc i t hi'
  rwa [h.params] at hlocal

structure Target.Context (x : Target) (c : TypingContext) : Prop where
  imports : ∀ i ∈ Import.table, c.functions i.index = some i.type
  memo : ∀ (k : MemoId) (m : MemoPoint), x.program.memoPoints[k]? = some m →
    c.functions (Target.memoFunction k) = some { params := [], results := m.type.lanes }
  outlined : ∀ i, i < x.outlined.length → c.functions (x.outlinedFunction i) = some plain
  frame : c.globals[Target.frameGlobal]? = some .i32
  stamp : ∀ (k : MemoId) (m : MemoPoint), x.program.memoPoints[k]? = some m →
    c.globals[x.stampGlobal k]? = some .i32
  cache : ∀ (k : MemoId) (m : MemoPoint), x.program.memoPoints[k]? = some m →
    List.Forall₂ (fun i t => c.globals[i]? = some t) (cacheGlobals x k m) m.type.lanes

variable {α β : Type} {x : Target}

/-- Emission that succeeds from any locals and only adds to them, with a result that is right for
the locals before and after. -/
def Gives (emit : Emit α) (Q : Locals → Locals → α → Prop) : Prop :=
  ∀ l, ∃ a l', emit l = .ok (a, l') ∧ l.Extends l' ∧ Q l l' a

theorem gives_pure {a : α} {Q : Locals → Locals → α → Prop} (h : ∀ l, Q l l a) :
    Gives (pure a) Q :=
  fun l => ⟨a, l, rfl, l.extends_refl, h l⟩

theorem gives_bind {emit : Emit α} {f : α → Emit β} {P : Locals → Locals → α → Prop}
    {Q : Locals → Locals → β → Prop} (he : Gives emit P)
    (hf : ∀ a, Gives (f a) fun l₁ l' b => ∀ l, l.Extends l₁ → l₁.Extends l' → P l l₁ a → Q l l' b) :
    Gives (emit >>= f) Q := by
  intro l
  obtain ⟨a, l₁, ha, hext, hP⟩ := he l
  obtain ⟨b, l₂, hb, hext', hQ⟩ := hf a l₁
  refine ⟨b, l₂, ?_, Locals.extends_trans hext hext', hQ l hext hext' hP⟩
  show (emit l >>= fun r => f r.1 r.2) = _
  rw [ha]
  exact hb

theorem gives_mono {emit : Emit α} {P Q : Locals → Locals → α → Prop} (he : Gives emit P)
    (h : ∀ l l' a, P l l' a → Q l l' a) : Gives emit Q := by
  intro l
  obtain ⟨a, l', ha, hext, hP⟩ := he l
  exact ⟨a, l', ha, hext, h l l' a hP⟩

/-- What is right in each of several cases is right in all of them, because the result is the
same. -/
theorem gives_forall {ι : Type} {emit : Emit α} {P : Locals → Locals → α → Prop} {C : ι → Prop}
    {Q : ι → Locals → Locals → α → Prop} (he : Gives emit P) (h : ∀ i, C i → Gives emit (Q i)) :
    Gives emit fun l l' a => ∀ i, C i → Q i l l' a := by
  intro l
  obtain ⟨a, l', ha, hext, -⟩ := he l
  refine ⟨a, l', ha, hext, fun i hi => ?_⟩
  obtain ⟨a', l'', ha', -, hQ⟩ := h i hi l
  rw [ha] at ha'
  cases ha'
  exact hQ

theorem gives_lift {r : Except Fault α} {a : α} {f : α → Emit β} {Q : Locals → Locals → β → Prop}
    (hr : r = .ok a) (hf : Gives (f a) Q) : Gives (liftM r >>= f) Q := by
  subst hr
  exact hf

/-- Emission with a result that is right in every context with the locals it added. -/
def Yields (x : Target) (emit : Emit α) (Q : TypingContext → α → Prop) : Prop :=
  Gives emit fun _ l' a => ∀ c, x.Context c → l'.Within c → Q c a

theorem yields_pure {a : α} {Q : TypingContext → α → Prop} (h : ∀ c, x.Context c → Q c a) :
    Yields x (pure a) Q :=
  gives_pure fun _ c hc _ => h c hc

theorem yields_bind {emit : Emit α} {f : α → Emit β} {P : TypingContext → α → Prop}
    {Q : TypingContext → β → Prop} (he : Yields x emit P)
    (hf : ∀ a, Yields x (f a) fun c b => P c a → Q c b) : Yields x (emit >>= f) Q := by
  refine gives_bind he fun a => gives_mono (hf a) fun l₁ l' b hb l _ hext hP c hc hl => ?_
  exact hb c hc hl (hP c hc (Locals.within_of_extends hext hl))

theorem yields_mono {emit : Emit α} {P Q : TypingContext → α → Prop} (he : Yields x emit P)
    (h : ∀ c a, x.Context c → P c a → Q c a) : Yields x emit Q :=
  gives_mono he fun _ _ a hP c hc hl => h c a hc (hP c hc hl)

theorem yields_lift {r : Except Fault α} {a : α} {f : α → Emit β} {Q : TypingContext → β → Prop}
    (hr : r = .ok a) (hf : Yields x (f a) Q) : Yields x (liftM r >>= f) Q :=
  gives_lift hr hf

theorem yields_mapM {f : α → Emit β} {R : TypingContext → α → β → Prop} : ∀ {as : List α},
    (∀ a ∈ as, Yields x (f a) fun c b => R c a b) →
    Yields x (as.mapM f) fun c bs => List.Forall₂ (R c) as bs
  | [], _ => yields_pure fun _ _ => .nil
  | a :: as, h => by
    rw [List.mapM_cons]
    refine yields_bind (h a List.mem_cons_self) fun b => ?_
    refine yields_bind (yields_mapM fun i hi => h i (List.mem_cons_of_mem a hi)) fun bs => ?_
    exact yields_pure fun c _ hbs hb => .cons hb hbs

theorem yields_fresh (t : LaneType) :
    Yields x (fresh t) fun c i => c.locals[i]? = some t := by
  intro l
  refine ⟨_, _, rfl, ⟨rfl, List.prefix_append _ _⟩, fun c _ hl => ?_⟩
  refine hl l.types.length t ?_
  rw [List.getElem?_append_right (Nat.le_refl _), Nat.sub_self]
  rfl

variable {c : TypingContext} {labels : List (Option LaneType)}

abbrev AreLocals (c : TypingContext) (locals : List Nat) (types : List LaneType) : Prop :=
  List.Forall₂ (fun i t => c.locals[i]? = some t) locals types

theorem types_getLocals {locals : List Nat} {types : List LaneType} (h : AreLocals c locals types) :
    Types c labels (getLocals locals) [] types := by
  induction h with
  | nil => exact types_nil
  | cons hi _ ih => exact types_append (types_localGet hi) (types_push [_] ih)

theorem types_setLocals {locals : List Nat} {types : List LaneType} (h : AreLocals c locals types) :
    Types c labels (locals.reverse.map .localSet) types [] := by
  induction h with
  | nil => exact types_nil
  | cons hi _ ih =>
    rw [List.reverse_cons, List.map_append]
    exact types_append (types_frame [_] ih) (types_localSet hi)

theorem yields_spill (types : List LaneType) :
    Yields x (spill types) fun c r => AreLocals c r.1 types ∧
      ∀ labels, Types c labels r.2 types [] := by
  unfold spill
  refine yields_bind (yields_mapM fun t _ => yields_fresh t) fun locals => ?_
  refine yields_pure fun c _ hlocals => ?_
  have hare : AreLocals c locals types := List.Forall₂.flip hlocals
  exact ⟨hare, fun labels => types_setLocals hare⟩

/-- All imports have a number but the two for slots that hold rotations, which no statement
keeps. -/
theorem mem_table : ∀ {i : Import}, i ≠ .getSlot .rot → i ≠ .setSlot .rot → i ∈ Import.table
  | .effect e, _, _ => by cases e <;> decide
  | .query q, _, _ => by cases q <;> decide
  | .routine r, _, _ => by cases r <;> decide
  | .inspect f, _, _ | .getVariable f, _, _ | .setVariable f, _, _ => by cases f <;> decide
  | .getSlot f, hget, _ => by
    cases f with
    | rot => exact absurd rfl hget
    | _ => decide
  | .setSlot f, _, hset => by
    cases f with
    | rot => exact absurd rfl hset
    | _ => decide
  | .menuItem, _, _ | .touch, _, _ | .swipe, _, _ | .button, _, _ | .collision, _, _ => by decide
  | .currentFrame, _, _ | .takingBoxArt, _, _ | .loopCount, _, _ | .loopCounter, _, _ => by decide
  | .deferLate, _, _ => by decide

def Emits (x : Target) (emit : Emit Code) (ins outs : List LaneType) : Prop :=
  Yields x emit fun c code => ∀ labels, Types c labels code ins outs

theorem emits_pure {code : Code} {ins outs : List LaneType}
    (h : ∀ c labels, x.Context c → Types c labels code ins outs) : Emits x (pure code) ins outs :=
  yields_pure fun c hc labels => h c labels hc

/-- Code in a row, each part of which leaves the lanes of one element on top of those before. -/
theorem types_flatten {f : α → List LaneType} {as : List α} {codes : List Code}
    (h : List.Forall₂ (fun a code => Types c labels code [] (f a)) as codes) :
    Types c labels codes.flatten [] (as.flatMap f) := by
  induction h with
  | nil => exact types_nil
  | cons ha _ ih =>
    rw [List.flatten_cons, List.flatMap_cons]
    exact types_then ha ih

theorem types_callImport (hc : x.Context c) {i : Import} (hi : i ∈ Import.table) :
    Types c labels [callImport i] i.type.params i.type.results :=
  types_call (hc.imports i hi)

theorem types_int (n : Int32) : Types c labels [int n] [] [.i32] := types_const _

theorem types_value {v : Value} {b : Base} (h : v.HasBase b) :
    Types c labels (value v) [] b.lanes := by
  have hlanes : (Lanes.ofValue v).map Lane.type = b.lanes := by
    cases h using Value.HasBase.cases <;> rfl
  rw [← hlanes]
  exact types_consts _

end Compiler
end SignalGraph
