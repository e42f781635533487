import SignalGraph.Proofs.Instrumentation.Chronicle.Code

/-!
# Chronicled memo points

What the globals of a compiled program tell of a chronicle.  As long as the frames have different
numbers, whatever a memo point holds in a frame has been computed in it.
-/

namespace SignalGraph
namespace Compiler

open Wasm Machine Chronicle

variable {σ α β : Type} {p : Program} {frames : Nat} {g : Array Lane} {k : MemoId} {m : MemoPoint}
  {lanes : List Lane} {l : Chronicle}

/-- The globals after that many frames. -/
structure Timely (p : Program) (frames : Nat) (g : Array Lane) : Prop where
  size : g.size = (globals p).length
  frame : g[Target.frameGlobal]? = some (.i32 (Int32.ofNat frames))
  stamp : ∀ (k : MemoId) (m : MemoPoint), p.memoPoints[k]? = some m →
    ∃ c, g[(target p).stampGlobal k]? = some (.i32 c) ∧
      (c = -1 ∨ ∃ i, i ≤ frames ∧ c = Int32.ofNat i)

theorem timely_start (p : Program) : Timely p 0 (globals p).toArray := by
  refine ⟨List.size_toArray, rfl, fun k m hk => ⟨-1, ?_, .inl rfl⟩⟩
  rw [List.getElem?_toArray]
  exact globals_getElem? (x := target p) hk (j := 0) (by omega)

theorem cells_start (p : Program) : cells p (globals p).toArray = fun _ => none := by
  funext k
  cases hk : p.memoPoints[k]? with
  | none =>
    unfold cells
    rw [hk]
  | some m =>
    refine cells_none hk fun heq => ?_
    rw [(timely_start p).frame, List.getElem?_toArray] at heq
    have hstamp := globals_getElem? (x := target p) hk (j := 0) (by omega)
    cases heq.symm.trans hstamp

theorem Timely.next (h : Timely p frames g) :
    Timely p (frames + 1)
      (g.setIfInBounds Target.frameGlobal (.i32 (Int32.ofNat (frames + 1)))) := by
  refine ⟨Array.size_setIfInBounds.trans h.size, ?_, fun k m hk => ?_⟩
  · refine Array.getElem?_setIfInBounds_self_of_lt ?_
    rw [h.size]
    exact Nat.succ_pos _
  · obtain ⟨c, hc, hold⟩ := h.stamp k m hk
    have hpos : Target.frameGlobal < (target p).stampGlobal k := stampGlobal_pos k
    refine ⟨c, ?_, hold.imp_right fun ⟨i, hi, heq⟩ => ⟨i, Nat.le_succ_of_le hi, heq⟩⟩
    rw [Array.getElem?_setIfInBounds_ne (Nat.ne_of_lt hpos)]
    exact hc

/-- Where a frame begins whose number is no stamp, no memo point holds anything. -/
theorem Timely.cells_next (h : Timely p frames g) (hframes : frames + 1 < 4294967295) :
    cells p (g.setIfInBounds Target.frameGlobal (.i32 (Int32.ofNat (frames + 1)))) =
      fun _ => none := by
  funext k
  cases hk : p.memoPoints[k]? with
  | none =>
    unfold cells
    rw [hk]
  | some m =>
    obtain ⟨c, hc, hold⟩ := h.stamp k m hk
    have hpos : Target.frameGlobal < (target p).stampGlobal k := stampGlobal_pos k
    refine cells_none hk fun heq => stale hframes
      (hold.imp_right fun ⟨i, hi, heq⟩ => ⟨i, Nat.lt_succ_of_le hi, heq⟩) ?_
    rw [h.next.frame, Array.getElem?_setIfInBounds_ne (Nat.ne_of_lt hpos), hc] at heq
    exact Lane.i32.inj (Option.some.inj heq)

theorem map_getD_of_holds {is : List Nat} (h : Holds g is lanes) :
    is.map (fun i => g.getD i default) = lanes := by
  induction h with
  | nil => rfl
  | cons hi _ ih => rw [List.map_cons, ih, Array.getD_eq_getD_getElem?, hi, Option.getD_some]

theorem frame_fill : (fill p frames k m g lanes)[Target.frameGlobal]? = g[Target.frameGlobal]? :=
  have hpos : Target.frameGlobal < (target p).stampGlobal k := stampGlobal_pos k
  fill_of_outside (.inl hpos)

/-- A memo point holds what was stored in it. -/
theorem Timely.cells_fill (h : Timely p frames g) (hk : p.memoPoints[k]? = some m)
    (hlen : lanes.length = m.type.lanes.length) :
    cells p (fill p frames k m g lanes) k = some (.lanes lanes) := by
  rw [cells_some hk, map_getD_of_holds (holds_fill hk h.size hlen)]
  rw [stamp_fill hk h.size, frame_fill, h.frame]

theorem cells_fill_ne {j : MemoId} (hk : p.memoPoints[k]? = some m) (hne : j ≠ k) :
    cells p (fill p frames k m g lanes) j = cells p g j := by
  refine cells_congr frame_fill fun m' i hj hle hge => fill_of_outside ?_
  rcases Nat.lt_or_gt_of_ne hne with hlt | hgt
  · have := stampGlobal_lt (x := target p) hj hlt
    omega
  · have := stampGlobal_lt (x := target p) hk hgt
    omega

theorem Timely.fill (h : Timely p frames g) (hk : p.memoPoints[k]? = some m) :
    Timely p frames (fill p frames k m g lanes) := by
  refine ⟨size_fill.trans h.size, frame_fill.trans h.frame, fun j m' hj => ?_⟩
  by_cases heq : j = k
  · subst heq
    exact ⟨_, stamp_fill hk h.size, .inr ⟨frames, Nat.le_refl _, rfl⟩⟩
  · rw [fill_of_outside]
    · exact h.stamp j m' hj
    · rcases Nat.lt_or_gt_of_ne heq with hlt | hgt
      · have := stampGlobal_lt (x := target p) hj hlt
        omega
      · have := stampGlobal_lt (x := target p) hk hgt
        omega

/-- The chronicle tells of all that the memo points hold, while the number of a frame is no stamp
that a memo point begins with. -/
structure Recalls (p : Program) (frames : Nat) (t : Machine (World σ)) (l : Chronicle) : Prop where
  timely : Timely p frames t.globals
  fresh : frames < 4294967295 → l.Fresh p (cells p t.globals)

abbrev Tells (p : Program) (frames : Nat) (T : α → Tale) (run' : Exec (World (σ × Chronicle)) α)
    (run : Exec (World σ) α) : Prop :=
  SignalGraph.Tells Machine.beside (fun t => t.host.holdings) (Recalls p frames) T run' run

abbrev Since (p : Program) (frames : Nat) (h : Holdings) (l : Chronicle) (T : Tale) :
    Machine (World σ) → Chronicle → Prop :=
  SignalGraph.Since (fun t => t.host.holdings) (Recalls p frames) h l T

theorem Recalls.tell {d : Deed} (hd : d.neutral = true) {t : Machine (World σ)}
    (h : Recalls p frames t l) : Recalls p frames t (l ++ [d]) :=
  ⟨h.timely, fun hlt => (h.fresh hlt).concat hd⟩

theorem ignoresLocals_since {h₀ : Holdings} {T : Tale} :
    IgnoresLocals (σ := σ) (Since p frames h₀ l T) :=
  fun _ _ _ ⟨htale, hB⟩ => ⟨htale, hB.timely, hB.fresh⟩

def Delivers (p : Program) (frames : Nat) (source : Producer) (r : Reading) : Tale :=
  Tale.quiet.given (frames < 4294967295 → p.Points source r)

variable {call' : Nat → List Lane → Exec (World (σ × Chronicle)) (List Lane)}
  {call : Nat → List Lane → Exec (World σ) (List Lane)} {code' code a' a b' b : Code} {count : Nat}
  {T U : Tale}

/-- Code comes to its end, and `T` tells of it. -/
def Ending (T : Tale) (outcome : Outcome) : Tale :=
  fun h es h' => (∃ s', outcome = .next s') ∧ T h es h'

def Recounts (p : Program) (frames : Nat)
    (call' : Nat → List Lane → Exec (World (σ × Chronicle)) (List Lane))
    (call : Nat → List Lane → Exec (World σ) (List Lane)) (T : Tale) (code' code : Code) : Prop :=
  ∀ s, Tells p frames (Ending T) (instrs call' code' s) (instrs call code s)

/-- So many lanes are left on a stack, and `T` tells of them. -/
def Leaving (s : List Lane) (count : Nat) (T : List Lane → Tale) (outcome : Outcome) : Tale :=
  fun h es h' => ∃ lanes : List Lane, outcome = .next (lanes.reverse ++ s) ∧ lanes.length = count ∧
    T lanes h es h'

def Renders (p : Program) (frames : Nat)
    (call' : Nat → List Lane → Exec (World (σ × Chronicle)) (List Lane))
    (call : Nat → List Lane → Exec (World σ) (List Lane)) (count : Nat) (T : List Lane → Tale)
    (code' code : Code) : Prop :=
  ∀ s, Tells p frames (Leaving s count T) (instrs call' code' s) (instrs call code s)

theorem recounts_mono (h : Recounts p frames call' call T code' code)
    (hT : ∀ h es h', T h es h' → U h es h') : Recounts p frames call' call U code' code :=
  fun s => (h s).mono fun _ _ _ _ hT' => ⟨hT'.1, hT _ _ _ hT'.2⟩

theorem Renders.mono {T U : List Lane → Tale} (h : Renders p frames call' call count T code' code)
    (hT : ∀ lanes h es h', T lanes h es h' → U lanes h es h') :
    Renders p frames call' call count U code' code :=
  fun s => (h s).mono fun _ _ _ _ ⟨lanes, heq, hlen, hT'⟩ => ⟨lanes, heq, hlen, hT _ _ _ _ hT'⟩

theorem tells_append {T : Outcome → Tale} {V : List Lane → Outcome → Tale} {W : Outcome → Tale}
    {Q : List Lane → Prop} {s : List Lane}
    (ha : Tells p frames T (instrs call' a' s) (instrs call a s))
    (hQ : ∀ outcome h es h', T outcome h es h' → ∃ s', outcome = .next s' ∧ Q s')
    (hb : ∀ s', Q s' → Tells p frames (V s') (instrs call' b' s') (instrs call b s'))
    (hW : ∀ s' outcome h es h', (T (.next s')).next (V s' outcome) h es h' → W outcome h es h') :
    Tells p frames W (instrs call' (a' ++ b') s) (instrs call (a ++ b) s) := by
  rw [instrs_append_bind, instrs_append_bind]
  have hrest : ∀ outcome, (∃ s', outcome = .next s' ∧ Q s') →
      Tells p frames (fun last h es h' => ∃ s', outcome = .next s' ∧ V s' last h es h')
        (proceed (instrs call' b') outcome) (proceed (instrs call b) outcome) := by
    rintro _ ⟨s', rfl, hs'⟩
    exact (hb s' hs').mono fun _ _ _ _ hV => ⟨s', rfl, hV⟩
  refine tells_bind_of ha hQ hrest ?_
  rintro _ last h es h' ⟨x, h₁, y, rfl, hT, s', rfl, hV⟩
  exact hW s' last h _ h' (Tale.next_intro hT hV)

theorem recounts_append (ha : Recounts p frames call' call T a' a)
    (hb : Recounts p frames call' call U b' b) :
    Recounts p frames call' call (T.next U) (a' ++ b') (a ++ b) := by
  intro s
  refine tells_append (Q := fun _ => True) (ha s) (fun _ _ _ _ ⟨⟨s', hs'⟩, _⟩ => ⟨s', hs', trivial⟩)
    (fun s' _ => hb s') ?_
  rintro _ last h es h' ⟨x, h₁, y, rfl, ⟨-, hT⟩, hnext, hU⟩
  exact ⟨hnext, Tale.next_intro hT hU⟩

theorem renders_bind {T : List Lane → Tale} {V : List Lane → Outcome → Tale} {W : Outcome → Tale}
    {s : List Lane} (ha : Renders p frames call' call count T a' a)
    (hb : ∀ lanes, lanes.length = count →
      Tells p frames (V lanes) (instrs call' b' (lanes.reverse ++ s))
        (instrs call b (lanes.reverse ++ s)))
    (hW : ∀ lanes outcome h es h', lanes.length = count → (T lanes).next (V lanes outcome) h es h' →
      W outcome h es h') :
    Tells p frames W (instrs call' (a' ++ b') s) (instrs call (a ++ b) s) := by
  have hsame : ∀ lanes lanes' : List Lane, lanes.reverse ++ s = lanes'.reverse ++ s →
    lanes = lanes' :=
    fun _ _ heq => List.reverse_injective (List.append_cancel_right heq)
  refine tells_append (Q := fun s' => ∃ lanes : List Lane, s' = lanes.reverse ++ s ∧
    lanes.length = count)
    (V := fun s' outcome h es h' => ∃ lanes : List Lane, s' = lanes.reverse ++ s ∧
      V lanes outcome h es h') (ha s)
    ?_ ?_ ?_
  · rintro _ h es h' ⟨lanes, rfl, hlen, -⟩
    exact ⟨_, rfl, lanes, rfl, hlen⟩
  · rintro _ ⟨lanes, rfl, hlen⟩
    exact (hb lanes hlen).mono fun _ _ _ _ hV => ⟨lanes, rfl, hV⟩
  · rintro _ outcome h es h' ⟨x, h₁, y, rfl, ⟨lanes, heq, hlen, hT⟩, lanes₁, hs, hV⟩
    cases hsame _ _ ((Outcome.next.inj heq).symm.trans hs)
    exact hW lanes outcome h _ h' hlen (Tale.next_intro hT hV)

variable {h₀ : Holdings}

theorem tracks_of_recounts (h : Recounts p frames call' call T code' code)
    (hU : ∀ h es h', U.next T h es h' → U h es h') :
    Tracks call' call 0 (Since p frames h₀ l U) (Since p frames h₀ l U) code' code := by
  refine fun s => mirrors_mono ((h s).after U h₀ l) fun outcome t m hs => ⟨?_, fun label heq => ?_⟩
  · refine since_mono (fun h es h' hnext => ?_) hs
    obtain ⟨x, h₁, y, rfl, hx, -, hy⟩ := hnext
    exact hU h _ h' (Tale.next_intro hx hy)
  · obtain ⟨⟨es, -, x, h₁, y, -, -, ⟨s', hs'⟩, -⟩, -⟩ := hs
    cases hs'.symm.trans heq

theorem recounts_of_tracks (hstay : ∀ h, U h [] h)
    (h : ∀ h₀ l, Tracks call' call 0 (Since p frames h₀ l U) (Since p frames h₀ l U) code' code) :
    Recounts p frames call' call U code' code := by
  refine fun s h₀ l =>
    mirrors_weaken (fun t m hs => ?_) (mirrors_mono (h h₀ l s) fun outcome t m hs => ?_)
  · obtain ⟨⟨rfl, rfl⟩, hB⟩ := since_stay.mp hs
    exact ⟨⟨[], (List.append_nil _).symm, hstay _⟩, hB⟩
  · refine since_mono (fun h es h' hT => ⟨?_, hT⟩) hs.1
    cases outcome with
    | next s' => exact ⟨s', rfl⟩
    | jump label => exact absurd (hs.2 label rfl) (Nat.not_lt_zero _)

theorem renders_of_tracks (hpiles : Piles call code count)
    (h : ∀ h₀ l, Tracks call' call 0 (Since p frames h₀ l .quiet) (Since p frames h₀ l .quiet) code'
      code) : Renders p frames call' call count (fun _ => .quiet) code' code := by
  intro s h₀ l
  refine mirrors_mono
    (mirrors_and (recounts_of_tracks (fun _ => ⟨quiet_nil, rfl⟩) h s h₀ l) (hpiles s))
    fun outcome t m hs => since_mono (fun h es h' hT => ?_) hs.1
  obtain ⟨⟨s', rfl⟩, hquiet⟩ := hT
  obtain ⟨top, rfl, hlen⟩ := hs.2 s' rfl
  exact ⟨top.reverse, by rw [List.reverse_reverse], List.length_reverse.trans hlen, hquiet⟩

end Compiler
end SignalGraph
