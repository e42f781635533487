import Mathlib.Data.List.Forall2
import SignalGraph.Interpreter.Run

/-!
# Triples for interpretation

What a run keeps of the state and promises of its result.  A run may fail only where the triple says
so; with `fun _ => False` it never does.
-/

namespace SignalGraph
namespace Interpreter

variable {σ α β : Type} {I E : State σ → Prop}

/-- From every state in `I`, the run returns a value in `Q` and a state in `I`, or it fails in a
state in `E`. -/
def Meets (I E : State σ → Prop) (run : Run σ α) (Q : α → Prop) : Prop :=
  ∀ s, I s → match run s with
    | .ok a s' => Q a ∧ I s'
    | .error _ s' => E s'

theorem get_bind (f : State σ → Run σ α) (s : State σ) :
    ((get : Run σ (State σ)) >>= f) s = f s s :=
  rfl

/-- A run of two steps that succeeds has run both. -/
theorem bind_eq_ok {x : Run σ α} {f : α → Run σ β} {s s' : State σ} {b : β}
    (h : (x >>= f) s = .ok b s') : ∃ a s₁, x s = .ok a s₁ ∧ f a s₁ = .ok b s' := by
  have hbind : (x >>= f) s = EStateM.bind x f s := rfl
  rw [hbind, EStateM.bind] at h
  cases hx : x s with
  | error fault s₁ =>
    rw [hx] at h
    exact nomatch h
  | ok a s₁ =>
    rw [hx] at h
    exact ⟨a, s₁, rfl, h⟩

theorem check_bind {r : Except Fault α} {f : α → Run σ β} {a : α} (h : r = .ok a) :
    (check r >>= f) = f a := by
  subst h
  rfl

theorem meets_pure {a : α} {Q : α → Prop} (h : Q a) : Meets I E (pure a) Q :=
  fun _ hs => ⟨h, hs⟩

theorem meets_bind {x : Run σ α} {f : α → Run σ β} {P : α → Prop} {Q : β → Prop}
    (hx : Meets I E x P) (hf : ∀ a, P a → Meets I E (f a) Q) : Meets I E (x >>= f) Q := by
  intro s hs
  have h := hx s hs
  simp only [bind, EStateM.bind]
  cases hrun : x s with
  | ok a s' =>
    rw [hrun] at h
    exact hf a h.1 s' h.2
  | error fault s' =>
    rw [hrun] at h
    exact h

theorem meets_mono {x : Run σ α} {P Q : α → Prop} (hx : Meets I E x P) (h : ∀ a, P a → Q a) :
    Meets I E x Q := by
  intro s hs
  have hrun := hx s hs
  cases hx' : x s with
  | ok a s' =>
    rw [hx'] at hrun
    exact ⟨h a hrun.1, hrun.2⟩
  | error fault s' =>
    rw [hx'] at hrun
    exact hrun

/-- A step that cannot fail on values in `P` alone. -/
theorem meets_map {x : Run σ α} {f : α → β} {P : α → Prop} {Q : β → Prop} (hx : Meets I E x P)
    (h : ∀ a, P a → Q (f a)) : Meets I E (f <$> x) Q := by
  intro s hs
  have hrun := hx s hs
  simp only [Functor.map, EStateM.map]
  cases hx' : x s with
  | ok a s' =>
    rw [hx'] at hrun
    exact ⟨h a hrun.1, hrun.2⟩
  | error fault s' =>
    rw [hx'] at hrun
    exact hrun

theorem meets_get : Meets I E (get : Run σ (State σ)) I := fun _ hs => ⟨hs, hs⟩

theorem meets_check {r : Except Fault α} {a : α} {f : α → Run σ β} {Q : β → Prop}
    (hr : r = .ok a) (h : Meets I E (f a) Q) : Meets I E (check r >>= f) Q := by
  rw [check_bind hr]
  exact h

theorem meets_throw {fault : Fault} {Q : α → Prop} (h : ∀ s, I s → E s) :
    Meets I E (throw fault) Q :=
  fun s hs => h s hs

theorem meets_modify {f : State σ → State σ} {Q : Unit → Prop} (h : ∀ s, I s → I (f s))
    (hQ : Q ()) : Meets I E (modify f) Q :=
  fun s hs => ⟨hQ, h s hs⟩

theorem meets_inWorld {change : World σ → α × World σ} {Q : α → Prop}
    (h : ∀ s, I s → Q (change s.world).1 ∧ I ⟨(change s.world).2, s.memo⟩) :
    Meets I E (inWorld change) Q :=
  fun s hs => h s hs

theorem meets_onWorld {change : World σ → World σ}
    (h : ∀ s, I s → I ⟨change s.world, s.memo⟩) : Meets I E (onWorld change) fun _ => True :=
  meets_inWorld fun s hs => ⟨trivial, h s hs⟩

theorem meets_mapM {f : β → Run σ α} {R : β → α → Prop} : ∀ {l : List β},
    (∀ b ∈ l, Meets I E (f b) (R b)) → Meets I E (l.mapM f) (List.Forall₂ R l)
  | [], _ => meets_pure .nil
  | b :: l, h => by
    rw [List.mapM_cons]
    refine meets_bind (h b List.mem_cons_self) fun a ha => ?_
    refine meets_bind (meets_mapM fun x hx => h x (List.mem_cons_of_mem b hx)) fun as has => ?_
    exact meets_pure (.cons ha has)

theorem meets_forM {f : β → Run σ Unit} : ∀ {l : List β},
    (∀ b ∈ l, Meets I E (f b) fun _ => True) → Meets I E (l.forM f) fun _ => True
  | [], _ => meets_pure trivial
  | b :: l, h => by
    rw [List.forM_eq_forM, List.forM_cons]
    refine meets_bind (h b List.mem_cons_self) fun _ _ => ?_
    exact meets_forM (l := l) fun x hx => h x (List.mem_cons_of_mem b hx)

end Interpreter
end SignalGraph
