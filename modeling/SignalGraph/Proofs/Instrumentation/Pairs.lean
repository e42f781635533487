import SignalGraph.Proofs.Emulation.Operations

/-!
# Paired emission

Two emissions at once, one of which emits something extra.  They take the same locals, so that the
extra is all they differ by.
-/

namespace SignalGraph
namespace Compiler

open Wasm

variable {α β α' β' ι : Type}

/-- With these locals, if the second emission succeeds then so does the first one, and both go on
with the same locals. -/
def Parallels (l : Locals) (emit' : Emit α) (emit : Emit β) (Q : Locals → α → β → Prop) : Prop :=
  ∀ b l', emit l = .ok (b, l') → ∃ a, emit' l = .ok (a, l') ∧ Q l' a b

/-- Two emissions whose results go together, whatever the locals. -/
def Pairs (emit' : Emit α) (emit : Emit β) (R : α → β → Prop) : Prop :=
  ∀ l, Parallels l emit' emit fun _ => R

section

variable {l : Locals} {emit' : Emit α} {emit : Emit β} {f' : α → Emit α'} {f : β → Emit β'}
  {P : Locals → α → β → Prop} {Q : Locals → α' → β' → Prop}

theorem parallels_pure {a : α} {b : β} (h : P l a b) : Parallels l (pure a) (pure b) P := by
  intro b' l' heq
  cases heq
  exact ⟨a, rfl, h⟩

theorem parallels_self {emit : Emit α} {Q : Locals → α → α → Prop}
    (h : ∀ a l', emit l = .ok (a, l') → Q l' a a) : Parallels l emit emit Q :=
  fun a l' heq => ⟨a, heq, h a l' heq⟩

theorem parallels_throw {fault : Fault} :
    Parallels l (throw fault : Emit α) (throw fault : Emit β) P := by
  intro b l' heq
  cases heq

theorem parallels_bind (h : Parallels l emit' emit P)
    (hf : ∀ l a b, P l a b → Parallels l (f' a) (f b) Q) :
    Parallels l (emit' >>= f') (emit >>= f) Q := by
  intro b' l' heq
  obtain ⟨⟨b, l₁⟩, hb, heq⟩ := Outcome.bind_eq_ok.mp (heq : (emit l >>= fun r => f r.1 r.2) = _)
  obtain ⟨a, ha, hP⟩ := h b l₁ hb
  obtain ⟨a', ha', hQ⟩ := hf l₁ a b hP b' l' heq
  refine ⟨a', ?_, hQ⟩
  show (emit' l >>= fun r => f' r.1 r.2) = _
  rw [ha]
  exact ha'

theorem Parallels.mono {P' : Locals → α → β → Prop} (h : Parallels l emit' emit P)
    (hP : ∀ l a b, P l a b → P' l a b) : Parallels l emit' emit P' := by
  intro b l' heq
  obtain ⟨a, ha, hab⟩ := h b l' heq
  exact ⟨a, ha, hP l' a b hab⟩

/-- What is put around code is not in the other code. -/
theorem Parallels.map {g : α → α'} {P' : Locals → α' → β → Prop} (h : Parallels l emit' emit P)
    (hP : ∀ l a b, P l a b → P' l (g a) b) : Parallels l (do return g (← emit')) emit P' := by
  intro b l' heq
  obtain ⟨a, ha, hab⟩ := h b l' heq
  refine ⟨g a, ?_, hP l' a b hab⟩
  show (emit' l >>= fun r => .ok (g r.1, r.2)) = _
  rw [ha]
  rfl

theorem parallels_given {C : β → Prop} (h : Parallels l emit' emit P)
    (hC : ∀ b l', emit l = .ok (b, l') → C b) :
    Parallels l emit' emit fun l' a b => P l' a b ∧ C b := by
  intro b l' heq
  obtain ⟨a, ha, hP⟩ := h b l' heq
  exact ⟨a, ha, hP, hC b l' heq⟩

theorem parallels_lift {r : Except Fault ι} {f' : ι → Emit α} {f : ι → Emit β}
    (h : ∀ i, r = .ok i → Parallels l (f' i) (f i) P) :
    Parallels l (liftM r >>= f') (liftM r >>= f) P := by
  cases r with
  | ok i => exact h i rfl
  | error fault =>
    intro b l' heq
    cases heq

/-- The locals after one of each type has been taken. -/
def Locals.take (l : Locals) (types : List LaneType) : Locals :=
  { l with types := l.types ++ types }

theorem Locals.count_take (l : Locals) (types : List LaneType) :
    (l.take types).count = l.count + types.length := by
  rw [count, count, take, List.length_append, Nat.add_assoc]

theorem parallels_fresh {type : LaneType} {f' : Nat → Emit α} {f : Nat → Emit β}
    (h : Parallels (l.take [type]) (f' l.count) (f l.count) P) :
    Parallels l (fresh type >>= f') (fresh type >>= f) P := h

/-- Lanes are moved into the next locals, the last first. -/
theorem parallels_spill {types : List LaneType} {f' : List Nat × Code → Emit α}
    {f : List Nat × Code → Emit β}
    (h : Parallels (l.take types)
      (f' (List.range' l.count types.length,
        (List.range' l.count types.length).reverse.map .localSet))
      (f (List.range' l.count types.length,
        (List.range' l.count types.length).reverse.map .localSet)) P) :
    Parallels l (spill types >>= f') (spill types >>= f) P := by
  have hspill := spill_eq_ok types l
  intro b l' heq
  change (spill types l >>= fun r => f r.1 r.2) = _ at heq
  rw [hspill] at heq
  obtain ⟨a, ha, hP⟩ := h b l' heq
  refine ⟨a, ?_, hP⟩
  show (spill types l >>= fun r => f' r.1 r.2) = _
  rw [hspill]
  exact ha

/-- What holds of codes in a row, if it holds of each of them and of one before the others. -/
theorem parallels_row {R : List ι → Locals → Locals → Code → Code → Prop} {f' f : ι → Emit Code}
    (hnil : ∀ l, R [] l l [] [])
    (hcons : ∀ {i is l l₁ l' a' a b' b}, R [i] l l₁ a' a → R is l₁ l' b' b →
      R (i :: is) l l' (a' ++ b') (a ++ b)) :
    ∀ {is : List ι}, (∀ i ∈ is, ∀ l, Parallels l (f' i) (f i) (R [i] l)) →
      ∀ l, Parallels l (is.mapM f') (is.mapM f) fun l' codes' codes =>
        R is l l' codes'.flatten codes.flatten
  | [], _, l => parallels_pure (hnil l)
  | i :: is, h, l => by
    rw [List.mapM_cons, List.mapM_cons]
    refine parallels_bind (h i List.mem_cons_self l) fun l₁ a' a ha => ?_
    have hrest := parallels_row hnil hcons (fun j hj => h j (List.mem_cons_of_mem i hj)) l₁
    exact parallels_bind hrest fun l' codes' codes hcodes => parallels_pure (hcons ha hcodes)

end

section

variable {R : α → β → Prop} {Q : α' → β' → Prop} {emit' : Emit α} {emit : Emit β}

theorem pairs_pure {a : α} {b : β} (h : R a b) : Pairs (pure a) (pure b) R := fun _ =>
  parallels_pure h

theorem pairs_bind {f' : α → Emit α'} {f : β → Emit β'} (h : Pairs emit' emit R)
    (hf : ∀ a b, R a b → Pairs (f' a) (f b) Q) : Pairs (emit' >>= f') (emit >>= f) Q := fun l =>
  parallels_bind (h l) fun l a b hab => hf a b hab l

theorem Pairs.mono {R' : α → β → Prop} (h : Pairs emit' emit R) (hR : ∀ a b, R a b → R' a b) :
    Pairs emit' emit R' := fun l => (h l).mono fun _ => hR

theorem pairs_lift {r : Except Fault ι} {f' : ι → Emit α} {f : ι → Emit β}
    (h : ∀ i, r = .ok i → Pairs (f' i) (f i) R) : Pairs (liftM r >>= f') (liftM r >>= f) R :=
  fun l => parallels_lift fun i hi => h i hi l

/-- What holds in each of several cases holds in all of them, because the same is emitted. -/
theorem pairs_forall [Nonempty ι] {P : ι → α → β → Prop} (h : ∀ i, Pairs emit' emit (P i)) :
    Pairs emit' emit fun a b => ∀ i, P i a b := by
  intro l b l' heq
  obtain ⟨i⟩ := ‹Nonempty ι›
  obtain ⟨a, ha, -⟩ := h i l b l' heq
  refine ⟨a, ha, fun j => ?_⟩
  obtain ⟨a', ha', hP⟩ := h j l b l' heq
  rw [ha] at ha'
  cases ha'
  exact hP

end

end Compiler
end SignalGraph
