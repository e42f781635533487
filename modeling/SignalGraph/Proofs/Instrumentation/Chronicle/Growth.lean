import SignalGraph.Proofs.Instrumentation.Ledger.Basic

/-!
# Growth

Something next to the state of the engine may grow with each request.  If every request makes it
grow as `G` says, then so does all that engines are asked for.
-/

namespace SignalGraph

variable {σ L α β : Type} {G : L → L → Prop}

def Request.registers : Request α → Bool
  | .menuItem .. => true
  | _ => false

/-- To do nothing is allowed, and to do one thing after another. -/
structure Growth (G : L → L → Prop) : Prop where
  refl : ∀ l, G l l
  trans : ∀ {l l' l'' : L}, G l l' → G l' l'' → G l l''

theorem growth_eq : Growth (L := L) Eq := ⟨fun _ => rfl, Eq.trans⟩

/-- An action that makes what stands next to the state grow, and else does the same. -/
def Grows (G : L → L → Prop) (f' : StateM (σ × L) α) (f : StateM σ α) : Prop :=
  ∀ s l, ∃ l', f' (s, l) = ((f s).1, ((f s).2, l')) ∧ G l l'

/-- A change that makes what stands next to the world grow, and else does the same. -/
def World.Grows (G : L → L → Prop) (f' : World (σ × L) → α × World (σ × L))
    (f : World σ → α × World σ) : Prop :=
  ∀ w l, ∃ l', f' (w.joined l) = ((f w).1, (f w).2.joined l') ∧ G l l'

/-- The engine answers alike, except perhaps that it registers menu items otherwise. -/
def Answering (G : L → L → Prop) (e' : Engine (σ × L)) (e : Engine σ) : Prop :=
  ∀ {α : Type} (r : Request α), r.registers = false → Grows G (e'.ask r) (e.ask r)

theorem grows_of_beside {f' : StateM (σ × L) α} {f : StateM σ α} (h : Beside f' f) :
    Grows Eq f' f := fun s l => ⟨l, h s l, rfl⟩

theorem answering_beside (e : Engine σ) : Answering (L := L) Eq (e.beside L) e :=
  fun r _ => grows_of_beside (e.beside_ask r)

section

variable (hG : Growth G)
include hG

theorem grows_pure (a : α) : Grows G (pure a : StateM (σ × L) α) (pure a) :=
  fun _ l => ⟨l, rfl, hG.refl l⟩

theorem grows_bind {f' : StateM (σ × L) α} {f : StateM σ α} {g' : α → StateM (σ × L) β}
    {g : α → StateM σ β} (hf : Grows G f' f) (hg : ∀ a, Grows G (g' a) (g a)) :
    Grows G (f' >>= g') (f >>= g) := by
  intro s l
  obtain ⟨l₁, hrun, h₁⟩ := hf s l
  obtain ⟨l₂, hrun', h₂⟩ := hg (f s).1 (f s).2 l₁
  refine ⟨l₂, ?_, hG.trans h₁ h₂⟩
  show (let (a, s) := f' (s, l); g' a s) = _
  rw [hrun]
  exact hrun'

variable {e' : Engine (σ × L)} {e : Engine σ} (he : Answering G e' e)
include he

theorem Query.grows_ask (q : Query) (vs : List Value) : Grows G (q.ask e' vs) (q.ask e vs) := by
  unfold Query.ask
  split
  all_goals first
    | exact grows_bind hG (he _ rfl) fun _ => grows_pure hG _
    | exact grows_pure hG _

theorem Effect.grows_perform (effect : Effect) (number : Int32) (inputs : List (Option Value)) :
    Grows G (effect.perform e' number inputs) (effect.perform e number inputs) := by
  unfold Effect.perform
  split
  all_goals first
    | exact grows_bind hG (he _ rfl) fun _ => grows_pure hG _
    | exact grows_pure hG _

end

namespace World

theorem grows_ask {f' : StateM (σ × L) α} {f : StateM σ α} (h : SignalGraph.Grows G f' f) :
    Grows G (ask f') (ask f) := by
  intro w l
  obtain ⟨l', hrun, hl'⟩ := h w.engine l
  refine ⟨l', ?_, hl'⟩
  show (let (a, engine) := f' (w.engine, l)
    (a, (⟨engine, w.vars, w.slots, w.late⟩ : World (σ × L)))) = _
  rw [hrun]
  rfl

theorem grows_of_beside (hG : Growth G) {f' : World (σ × L) → α × World (σ × L)}
    {f : World σ → α × World σ} (h : Beside f' f) : Grows G f' f :=
  fun w l => ⟨l, h w l, hG.refl l⟩

theorem grows_bind (hG : Growth G) {f' : StateM (World (σ × L)) α} {f : StateM (World σ) α}
    {g' : α → StateM (World (σ × L)) β} {g : α → StateM (World σ) β} (hf : Grows G f' f)
    (hg : ∀ a, Grows G (g' a) (g a)) : Grows G (f' >>= g') (f >>= g) := by
  intro w l
  obtain ⟨l₁, hrun, h₁⟩ := hf w l
  obtain ⟨l₂, hrun', h₂⟩ := hg (f w).1 (f w).2 l₁
  refine ⟨l₂, ?_, hG.trans h₁ h₂⟩
  show (let (a, w) := f' (w.joined l); g' a w) = _
  rw [hrun]
  exact hrun'

end World

namespace Host

variable {p : Program} (hG : Growth G) {e' : Engine (σ × L)} {e : Engine σ} (he : Answering G e' e)
include hG he

theorem grows_inspect (f : Format) (node : Int32) (lanes : List Wasm.Lane) :
    World.Grows G (inspect e' p f node lanes) (inspect e p f node lanes) := by
  have hpure : World.Grows G (pure () : StateM (World (σ × L)) Unit)
      (pure () : StateM (World σ) Unit) := World.grows_of_beside hG (World.beside_pure ())
  unfold inspect
  split
  · exact hpure
  · split
    · exact World.grows_ask (he _ rfl)
    · exact hpure

/-- What an imported function asks of the engine, if it does not register a menu item. -/
theorem grows_run {i : Import} (hi : i ≠ .menuItem) (lanes : List Wasm.Lane) :
    World.Grows G (run e' p i lanes) (run e p i lanes) := by
  have hpure : ∀ {α : Type} (a : α),
      World.Grows G (pure a : StateM (World (σ × L)) α) (pure a : StateM (World σ) α) :=
    fun a => World.grows_of_beside hG (World.beside_pure a)
  unfold run
  split
  case h_1 effect =>
    refine World.grows_bind hG (World.grows_ask (Effect.grows_perform hG he effect _ _))
      fun kept => ?_
    cases kept <;> exact hpure _
  case h_2 q =>
    exact World.grows_bind hG (World.grows_ask (Query.grows_ask hG he q _)) fun _ => hpure _
  case h_4 => exact absurd rfl hi
  case h_9 => exact World.grows_bind hG (grows_inspect hG he _ _ _) fun _ => hpure _
  case h_13 =>
    refine World.grows_bind hG (World.grows_of_beside hG fun w t => ?_) fun _ => hpure _
    exact congrArg (Prod.mk ()) (beside_writeVariable p _ _ _ _ w t)
  all_goals first
    | exact World.grows_bind hG (World.grows_ask (he _ rfl)) fun _ => hpure _
    | exact World.grows_of_beside hG fun _ _ => rfl

end Host
end SignalGraph
