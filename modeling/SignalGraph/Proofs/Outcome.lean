namespace SignalGraph
namespace Outcome

variable {ε α β β' γ : Type}

/-- A chain of two steps succeeds only if both do. -/
theorem bind_eq_ok {x : Except ε α} {f : α → Except ε β} {b : β} :
    (x >>= f) = .ok b ↔ ∃ a, x = .ok a ∧ f a = .ok b := by
  cases x with
  | error e => exact ⟨(fun h => nomatch h), (fun ⟨_, h, _⟩ => nomatch h)⟩
  | ok a =>
    constructor
    · exact fun h => ⟨a, rfl, h⟩
    · rintro ⟨_, h, hf⟩
      cases h
      exact hf

theorem toOption_eq_some {x : Except ε α} {a : α} : x.toOption = some a ↔ x = .ok a := by
  cases x <;> simp [Except.toOption]

theorem any_toOption {x : Except ε α} {q : α → Bool} :
    x.toOption.any q = true ↔ ∃ a, x = .ok a ∧ q a = true := by
  cases x <;> simp [Except.toOption]

theorem map_eq_ok {x : Except ε α} {f : α → β} {b : β} :
    x.map f = .ok b ↔ ∃ a, x = .ok a ∧ f a = b := by
  cases x with
  | error e => exact ⟨(fun h => nomatch h), (fun ⟨_, h, _⟩ => nomatch h)⟩
  | ok a => simp [Except.map]

theorem map_eq_error {x : Except ε α} {f : α → β} {e : ε} : x.map f = .error e ↔ x = .error e := by
  cases x <;> simp [Except.map]

/-- A check followed by the rest succeeds only if the check does. -/
theorem guard_eq_ok {c : Prop} [Decidable c] {e : ε} {f : α → Except ε β} {x : Except ε β} {b : β} :
    (if c then (throw e >>= f) else x) = .ok b ↔ ¬c ∧ x = .ok b := by
  by_cases h : c
  · simp only [h, if_true, not_true_eq_false, false_and, iff_false]
    exact fun h => nomatch h
  · simp only [h, if_false, not_false_eq_true, true_and]

/-- A successful traversal has a result for every element, in order. -/
theorem mapM_eq_ok {f : α → Except ε β} : ∀ {l : List α} {r : List β}, l.mapM f = .ok r →
    r.length = l.length ∧ ∀ (i : Nat) (a : α), l[i]? = some a → ∃ b, r[i]? = some b ∧ f a = .ok b
  | [], r, h => by
    cases h
    simp
  | a :: l, r, h => by
    rw [List.mapM_cons, bind_eq_ok] at h
    obtain ⟨b, hb, h⟩ := h
    obtain ⟨bs, hbs, h⟩ := bind_eq_ok.mp h
    cases h
    obtain ⟨hlen, hget⟩ := mapM_eq_ok hbs
    refine ⟨by simp [hlen], fun i x hx => ?_⟩
    cases i with
    | zero =>
      cases hx
      exact ⟨b, rfl, hb⟩
    | succ i => exact hget i x hx

/-- The converse of `mapM_eq_ok`: a traversal succeeds if every step does. -/
theorem mapM_ok {f : α → Except ε β} : ∀ {l : List α}, (∀ a ∈ l, ∃ b, f a = .ok b) →
    ∃ r, l.mapM f = .ok r
  | [], _ => ⟨[], rfl⟩
  | a :: l, h => by
    obtain ⟨b, hb⟩ := h a List.mem_cons_self
    obtain ⟨r, hr⟩ := mapM_ok (l := l) fun x hx => h x (List.mem_cons_of_mem a hx)
    exact ⟨b :: r, by rw [List.mapM_cons, hb, hr]; rfl⟩

theorem map_of_mapM {f : α → Except ε β} {l : List α} {r : List β} {p : β → γ} {q : α → γ}
    (hf : ∀ a b, f a = .ok b → p b = q a) (h : l.mapM f = .ok r) : r.map p = l.map q := by
  obtain ⟨hlen, hget⟩ := mapM_eq_ok h
  refine List.ext_getElem (by simp [hlen]) fun i hi hi' => ?_
  obtain ⟨b, hb, hfa⟩ := hget i _ (List.getElem?_eq_getElem (by simpa using hi'))
  rw [List.getElem_map, List.getElem_map, (List.getElem?_eq_some_iff.mp hb).2, hf _ _ hfa]

theorem mem_of_mapM {f : α → Except ε β} {l : List α} {r : List β} (h : l.mapM f = .ok r) {b : β} :
    b ∈ r ↔ ∃ a ∈ l, f a = .ok b := by
  obtain ⟨hlen, hget⟩ := mapM_eq_ok h
  constructor
  · intro hb
    obtain ⟨i, hi, rfl⟩ := List.mem_iff_getElem.mp hb
    obtain ⟨b, hb, hfa⟩ := hget i _ (List.getElem?_eq_getElem (hlen ▸ hi))
    exact ⟨_, List.getElem_mem _, (List.getElem?_eq_some_iff.mp hb).2 ▸ hfa⟩
  · rintro ⟨a, ha, hfa⟩
    obtain ⟨i, hi⟩ := List.mem_iff_getElem?.mp ha
    obtain ⟨b', hb, hfa'⟩ := hget i a hi
    cases hfa.symm.trans hfa'
    exact List.mem_iff_getElem?.mpr ⟨i, hb⟩

/-- If some step of a traversal fails, the traversal fails as the first of them does. -/
theorem mapM_eq_error {f : α → Except ε β} {a : α} {e : ε} :
    ∀ {l : List α}, a ∈ l → f a = .error e →
    ∃ before a' after e', l = before ++ a' :: after ∧
      (∀ x ∈ before, ∃ b, f x = .ok b) ∧ f a' = .error e' ∧
      l.mapM f = .error e'
  | x :: l, ha, he => by
    rw [List.mapM_cons]
    cases hx : f x with
    | error e' => exact ⟨[], x, l, e', rfl, by simp, hx, rfl⟩
    | ok b =>
      have hrest : a ∈ l := by
        rcases List.mem_cons.mp ha with rfl | h
        · rw [he] at hx
          cases hx
        · exact h
      obtain ⟨before, a', after, e', rfl, hbefore, he', hfail⟩ := mapM_eq_error hrest he
      refine ⟨x :: before, a', after, e', rfl, List.forall_mem_cons.mpr ⟨⟨b, hx⟩, hbefore⟩, he', ?_⟩
      rw [hfail]
      rfl

/-- A traversal by steps that succeed where those of another one do, with the same results. -/
theorem mapM_imp {f g : α → Except ε β} : ∀ {l : List α} {r : List β},
    (∀ a ∈ l, ∀ b, f a = .ok b → g a = .ok b) → l.mapM f = .ok r → l.mapM g = .ok r
  | [], _, _, h => h
  | a :: l, r, hstep, h => by
    rw [List.mapM_cons] at h ⊢
    obtain ⟨b, hb, h⟩ := bind_eq_ok.mp h
    obtain ⟨bs, hbs, h⟩ := bind_eq_ok.mp h
    rw [hstep a List.mem_cons_self b hb,
      mapM_imp (fun x hx => hstep x (List.mem_cons_of_mem a hx)) hbs]
    exact h

/-- A successful filter that keeps every element is a traversal. -/
theorem filterMapM_eq_ok {f : α → Except ε (Option β)} : ∀ {l : List α} {r : List β},
    (∀ a ∈ l, ∀ o, f a = .ok o → o.isSome) → l.filterMapM f = .ok r →
      r.length = l.length ∧
        ∀ (i : Nat) (a : α), l[i]? = some a → ∃ b, r[i]? = some b ∧ f a = .ok (some b)
  | [], r, _, h => by
    cases h
    simp
  | a :: l, r, hsome, h => by
    rw [List.filterMapM_cons, bind_eq_ok] at h
    obtain ⟨o, ho, h⟩ := h
    obtain ⟨b, rfl⟩ := Option.isSome_iff_exists.mp (hsome a List.mem_cons_self o ho)
    obtain ⟨bs, hbs, h⟩ := bind_eq_ok.mp h
    cases h
    obtain ⟨hlen, hget⟩ :=
      filterMapM_eq_ok (fun x hx => hsome x (List.mem_cons_of_mem a hx)) hbs
    refine ⟨by simp [hlen], fun i x hx => ?_⟩
    cases i with
    | zero =>
      cases hx
      exact ⟨b, rfl, ho⟩
    | succ i => exact hget i x hx

theorem filterMapM_imp {f g : α → Except ε (Option β)} : ∀ {l : List α} {r : List β},
    (∀ a ∈ l, ∀ o, f a = .ok o → g a = .ok o) → l.filterMapM f = .ok r → l.filterMapM g = .ok r
  | [], _, _, h => h
  | a :: l, r, hstep, h => by
    rw [List.filterMapM_cons] at h ⊢
    obtain ⟨o, ho, h⟩ := bind_eq_ok.mp h
    have hrest : ∀ {r}, l.filterMapM f = .ok r → l.filterMapM g = .ok r :=
      filterMapM_imp fun x hx => hstep x (List.mem_cons_of_mem a hx)
    rw [hstep a List.mem_cons_self o ho]
    cases o with
    | none => exact hrest h
    | some b =>
      obtain ⟨bs, hbs, h⟩ := bind_eq_ok.mp h
      simp only [bind, Except.bind, hrest hbs]
      exact h

/-- What every step of a fold keeps holds at its end. -/
theorem foldlM_induct {f : β → α → Except ε β} (P : β → Prop) :
    ∀ {l : List α} {b r : β}, l.foldlM f b = .ok r → P b →
      (∀ a ∈ l, ∀ b b', P b → f b a = .ok b' → P b') → P r
  | [], b, r, h, hb, _ => by
    cases h
    exact hb
  | a :: l, b, r, h, hb, hstep => by
    rw [List.foldlM_cons, bind_eq_ok] at h
    obtain ⟨b', hb', h⟩ := h
    exact foldlM_induct P h (hstep a List.mem_cons_self b b' hb hb')
      fun x hx => hstep x (List.mem_cons_of_mem a hx)

/-- The same where what holds depends on the elements that are done. -/
theorem foldlM_induct_done {f : β → α → Except ε β} (P : List α → β → Prop) :
    ∀ {l done : List α} {b r : β}, l.foldlM f b = .ok r → P done b →
      (∀ before a after, done ++ l = before ++ a :: after →
        ∀ b b', P before b → f b a = .ok b' → P (before ++ [a]) b') → P (done ++ l) r
  | [], done, b, r, h, hb, _ => by
    cases h
    rwa [List.append_nil]
  | a :: l, done, b, r, h, hb, hstep => by
    rw [List.foldlM_cons, bind_eq_ok] at h
    obtain ⟨b', hb', h⟩ := h
    have hnext := hstep done a l rfl b b' hb hb'
    rw [List.append_cons] at hstep ⊢
    exact foldlM_induct_done P h hnext hstep

theorem foldlM_induct_all {f : β → α → Except ε β} (P : List α → β → Prop) {l : List α} {b r : β}
    (h : l.foldlM f b = .ok r) (hnone : P [] b)
    (hstep : ∀ before a after, l = before ++ a :: after →
      ∀ b b', P before b → f b a = .ok b' → P (before ++ [a]) b') : P l r :=
  foldlM_induct_done P h hnone hstep

theorem foldlM_snoc {f : β → α → Except ε β} {l : List α} {a : α} {b mid last : β}
    (h : l.foldlM f b = .ok mid) (hstep : f mid a = .ok last) :
    (l ++ [a]).foldlM f b = .ok last := by
  rw [List.foldlM_append, h]
  show [a].foldlM f mid = .ok last
  rw [List.foldlM_cons, hstep]
  rfl

/-- A fold fails at the first of its steps that fails. -/
theorem foldlM_eq_error_split {f : β → α → Except ε β} {e : ε} : ∀ {l : List α} {b : β},
    l.foldlM f b = .error e → ∃ before a after b', l = before ++ a :: after ∧
      before.foldlM f b = .ok b' ∧ f b' a = .error e
  | [], _, h => nomatch h
  | a :: l, b, h => by
    rw [List.foldlM_cons] at h
    cases hstep : f b a with
    | error e' =>
      rw [hstep] at h
      cases h
      exact ⟨[], a, l, b, rfl, rfl, hstep⟩
    | ok b' =>
      rw [hstep] at h
      obtain ⟨before, a', after, b'', rfl, hbefore, hfail⟩ := foldlM_eq_error_split h
      exact ⟨a :: before, a', after, b'',
        rfl, by rw [List.foldlM_cons, hstep]; exact hbefore, hfail⟩

theorem foldlM_eq_error {f : β → α → Except ε β} {e : ε} {l : List α} {b : β}
    (h : l.foldlM f b = .error e) :
    ∃ a ∈ l, ∃ b', f b' a = .error e := by
  obtain ⟨before, a, after, b', rfl, -, hfail⟩ := foldlM_eq_error_split h
  exact ⟨a, List.mem_append_right before List.mem_cons_self, b', hfail⟩

/-- Elements that do nothing can be left out of a fold. -/
theorem foldlM_filter {f : β → α → Except ε β} {q : α → Bool}
    (hskip : ∀ b a, q a = false → f b a = .ok b) :
    ∀ (l : List α) (b : β), (l.filter q).foldlM f b = l.foldlM f b
  | [], _ => rfl
  | a :: l, b => by
    cases ha : q a with
    | true =>
      rw [List.filter_cons_of_pos ha, List.foldlM_cons, List.foldlM_cons]
      exact congrArg (f b a >>= ·) (funext fun b' => foldlM_filter hskip l b')
    | false =>
      rw [List.filter_cons_of_neg (by simp [ha]), List.foldlM_cons, hskip b a ha]
      exact foldlM_filter hskip l b

theorem foldlM_related {R : β → β' → Prop} {f : β → α → Except ε β} {f' : β' → α → Except ε β'} :
    ∀ {l : List α} {b r : β} {b' : β'}, l.foldlM f b = .ok r → R b b' →
      (∀ a ∈ l, ∀ b r b', R b b' → f b a = .ok r → ∃ r', f' b' a = .ok r' ∧ R r r') →
      ∃ r', l.foldlM f' b' = .ok r' ∧ R r r'
  | [], b, r, b', h, hb, _ => by
    cases h
    exact ⟨b', rfl, hb⟩
  | a :: l, b, r, b', h, hb, hstep => by
    rw [List.foldlM_cons] at h
    obtain ⟨mid, hmid, h⟩ := bind_eq_ok.mp h
    obtain ⟨mid', hmid', hrel⟩ := hstep a List.mem_cons_self b mid b' hb hmid
    obtain ⟨r', hr', hrel⟩ := foldlM_related h hrel fun x hx => hstep x (List.mem_cons_of_mem a hx)
    exact ⟨r', by rw [List.foldlM_cons, hmid']; exact hr', hrel⟩

/-- A successful sequence of checks has passed every one. -/
theorem forM_eq_ok {f : α → Except ε Unit} : ∀ {l : List α} {u : Unit}, l.forM f = .ok u →
    ∀ a ∈ l, f a = .ok ()
  | [], _, _, _, ha => nomatch ha
  | b :: l, u, h, a, ha => by
    rw [List.forM_eq_forM, List.forM_cons, bind_eq_ok] at h
    obtain ⟨_, hb, h⟩ := h
    cases ha with
    | head => exact hb
    | tail _ ha => exact forM_eq_ok (l := l) h a ha

/-- The converse of `forM_eq_ok`. -/
theorem forM_ok {f : α → Except ε Unit} :
    ∀ {l : List α}, (∀ a ∈ l, f a = .ok ()) → l.forM f = .ok ()
  | [], _ => rfl
  | a :: l, h => by
    rw [List.forM_eq_forM, List.forM_cons, h a List.mem_cons_self]
    exact forM_ok (l := l) fun x hx => h x (List.mem_cons_of_mem a hx)

end Outcome
end SignalGraph
