import SignalGraph.Proofs.Instrumentation.Ledger.Basic

/-!
# Mirrors

When a run with something extra, such as a ledger, does what a run without it does, and what holds
of the extra on the way.  `join` puts the extra into a state.
-/

namespace SignalGraph

variable {ε S S' L α β : Type} {join : S → L → S'}

/-- Where `I` holds of the state and the extra, the first run does what the second one does, and
then `J` holds of them, or `E` if both fail. -/
def Mirrors (join : S → L → S') (I : S → L → Prop) (J : α → S → L → Prop) (E : S → L → Prop)
    (run' : EStateM ε S' α) (run : EStateM ε S α) : Prop :=
  ∀ s l, I s l → match run s with
    | .ok a s' => ∃ l', run' (join s l) = .ok a (join s' l') ∧ J a s' l'
    | .error fault s' => ∃ l', run' (join s l) = .error fault (join s' l') ∧ E s' l'

variable {I E : S → L → Prop} {J : α → S → L → Prop} {K : β → S → L → Prop}
  {x' : EStateM ε S' α} {x : EStateM ε S α}

theorem mirrors_pure {a : α} (h : ∀ s l, I s l → J a s l) :
    Mirrors join I J E (pure a : EStateM ε S' α) (pure a) :=
  fun s l hs => ⟨l, rfl, h s l hs⟩

theorem mirrors_done {a : α} : Mirrors join I (fun _ => I) E (pure a : EStateM ε S' α) (pure a) :=
  mirrors_pure fun _ _ h => h

theorem mirrors_throw {fault : ε} (h : ∀ s l, I s l → E s l) :
    Mirrors join I J E (throw fault : EStateM ε S' α) (throw fault) :=
  fun s l hs => ⟨l, rfl, h s l hs⟩

theorem mirrors_bind {f' : α → EStateM ε S' β} {f : α → EStateM ε S β}
    (hx : Mirrors join I J E x' x) (hf : ∀ a, Mirrors join (J a) K E (f' a) (f a)) :
    Mirrors join I K E (x' >>= f') (x >>= f) := by
  intro s l hs
  have h := hx s l hs
  show match EStateM.bind x f s with
    | .ok a s' => ∃ l', EStateM.bind x' f' (join s l) = .ok a (join s' l') ∧ K a s' l'
    | .error fault s' => ∃ l', EStateM.bind x' f' (join s l) = .error fault (join s' l') ∧ E s' l'
  unfold EStateM.bind
  cases hrun : x s with
  | ok a s₁ =>
    rw [hrun] at h
    obtain ⟨l₁, hrun', hJ⟩ := h
    rw [hrun']
    exact hf a s₁ l₁ hJ
  | error fault s₁ =>
    rw [hrun] at h
    obtain ⟨l₁, hrun', hE⟩ := h
    rw [hrun']
    exact ⟨l₁, rfl, hE⟩

theorem mirrors_get {f' : S' → EStateM ε S' α} {f : S → EStateM ε S α}
    (h : ∀ s l, Mirrors join I J E (f' (join s l)) (f s)) :
    Mirrors join I J E (get >>= f') (get >>= f) :=
  fun s l hs => h s l s l hs

theorem mirrors_mono {J' : α → S → L → Prop} (hx : Mirrors join I J E x' x)
    (h : ∀ a s l, J a s l → J' a s l) : Mirrors join I J' E x' x := by
  intro s l hs
  have hrun := hx s l hs
  cases hx' : x s with
  | ok a s' =>
    rw [hx'] at hrun
    obtain ⟨l', hrun', hJ⟩ := hrun
    exact ⟨l', hrun', h _ _ _ hJ⟩
  | error fault s' =>
    rw [hx'] at hrun
    exact hrun

theorem mirrors_fail {E' : S → L → Prop} (hx : Mirrors join I J E x' x)
    (h : ∀ s l, E s l → E' s l) :
    Mirrors join I J E' x' x := by
  intro s l hs
  have hrun := hx s l hs
  cases hx' : x s with
  | ok a s' =>
    rw [hx'] at hrun
    exact hrun
  | error fault s' =>
    rw [hx'] at hrun
    obtain ⟨l', hrun', hE⟩ := hrun
    exact ⟨l', hrun', h _ _ hE⟩

theorem mirrors_weaken {I' : S → L → Prop} (h : ∀ s l, I' s l → I s l)
    (hx : Mirrors join I J E x' x) : Mirrors join I' J E x' x :=
  fun s l hs => hx s l (h s l hs)

theorem mirrors_and {Q : α → Prop} (hx : Mirrors join I J E x' x)
    (hQ : ∀ s a s', x s = .ok a s' → Q a) :
    Mirrors join I (fun a s l => J a s l ∧ Q a) E x' x := by
  intro s l hs
  have hrun := hx s l hs
  cases hx' : x s with
  | ok a s' =>
    rw [hx'] at hrun
    obtain ⟨l', hrun', hJ⟩ := hrun
    exact ⟨l', hrun', hJ, hQ s a s' hx'⟩
  | error fault s' =>
    rw [hx'] at hrun
    exact hrun

theorem mirrors_ok {E' : S → L → Prop} {J' : α → S → L → Prop} (hx : Mirrors join I J E' x' x)
    (hok : ∀ s l, I s l → ∃ a s', x s = .ok a s' ∧ ∀ l', J a s' l' → J' a s' l') :
    Mirrors join I J' E x' x := by
  intro s l hs
  have hrun := hx s l hs
  obtain ⟨a, s', hx', hJ⟩ := hok s l hs
  rw [hx'] at hrun ⊢
  obtain ⟨l', hrun', hJ'⟩ := hrun
  exact ⟨l', hrun', hJ l' hJ'⟩

theorem mirrors_map {f : α → β} (hx : Mirrors join I (fun _ => I) E x' x) :
    Mirrors join I (fun _ => I) E (f <$> x') (f <$> x) := by
  rw [map_eq_pure_bind, map_eq_pure_bind]
  exact mirrors_bind hx fun _ => mirrors_done

theorem mirrors_mapM {f' : β → EStateM ε S' α} {f : β → EStateM ε S α} : ∀ {bs : List β},
    (∀ b ∈ bs, Mirrors join I (fun _ => I) E (f' b) (f b)) →
    Mirrors join I (fun _ => I) E (bs.mapM f') (bs.mapM f)
  | [], _ => mirrors_done
  | b :: bs, h => by
    rw [List.mapM_cons, List.mapM_cons]
    refine mirrors_bind (h b List.mem_cons_self) fun _ => ?_
    refine mirrors_bind (mirrors_mapM fun x hx => h x (List.mem_cons_of_mem b hx)) fun _ => ?_
    exact mirrors_done

theorem mirrors_forM {f' : β → EStateM ε S' Unit} {f : β → EStateM ε S Unit} : ∀ {bs : List β},
    (∀ b ∈ bs, Mirrors join I (fun _ => I) E (f' b) (f b)) →
    Mirrors join I (fun _ => I) E (bs.forM f') (bs.forM f)
  | [], _ => mirrors_done
  | b :: bs, h => by
    have hrest : Mirrors join I (fun _ => I) E (bs.forM f') (bs.forM f) :=
      mirrors_forM fun x hx => h x (List.mem_cons_of_mem b hx)
    rw [List.forM_eq_forM, List.forM_cons, List.forM_eq_forM, List.forM_cons]
    exact mirrors_bind (h b List.mem_cons_self) fun _ => hrest

/-! ## Notes

`note` only adds to the extra, and the run without it does nothing meanwhile. -/

variable {join : S → L → S'} {I E : S → L → Prop} {J : α → S → L → Prop}

theorem mirrors_note {note : EStateM ε S' Unit} {grow : S → L → L}
    (hnote : ∀ s l, note (join s l) = .ok () (join s (grow s l))) {I' : S → L → Prop}
    (h : ∀ s l, I s l → I' s (grow s l)) (hx : Mirrors join I' J E x' x) :
    Mirrors join I J E (do note; x') x := by
  intro s l hs
  have hbind : (do note; x' : EStateM ε S' α) (join s l) = x' (join s (grow s l)) := by
    show EStateM.bind note (fun _ => x') (join s l) = _
    rw [EStateM.bind, hnote]
  rw [hbind]
  exact hx s (grow s l) (h s l hs)

/-- Something is noted when the run has ended. -/
theorem mirrors_ended {note : EStateM ε S' Unit} {grow : S → L → L} {x' : EStateM ε S' Unit}
    {x : EStateM ε S Unit} {J J' : S → L → Prop}
    (hnote : ∀ s l, note (join s l) = .ok () (join s (grow s l)))
    (hx : Mirrors join I (fun _ => J) E x' x) (h : ∀ s l, J s l → J' s (grow s l)) :
    Mirrors join I (fun _ => J') E (do x'; note) x := by
  have hafter : Mirrors join I (fun _ => J') E (do x'; note) (x >>= pure) :=
    mirrors_bind hx fun _ s l hs => ⟨grow s l, hnote s l, h s l hs⟩
  rwa [bind_pure] at hafter

theorem mirrors_noted {note : α → EStateM ε S' Unit} {grow : α → S → L → L}
    (hnote : ∀ a s l, note a (join s l) = .ok () (join s (grow a s l))) {J' : α → S → L → Prop}
    (hx : Mirrors join I J E x' x) (h : ∀ a s l, J a s l → J' a s (grow a s l)) :
    Mirrors join I J' E (do let a ← x'; note a; return a) x := by
  have hafter : Mirrors join I J' E (do let a ← x'; note a; return a) (x >>= pure) :=
    mirrors_bind hx fun a => mirrors_note (hnote a) (h a) (mirrors_pure fun _ _ h => h)
  rwa [bind_pure] at hafter

end SignalGraph
