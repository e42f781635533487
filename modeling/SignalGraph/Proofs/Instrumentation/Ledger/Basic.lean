import SignalGraph.Compiler.Host

/-!
# Ledgers

A run can keep a ledger: which outputs were computed, and what their readers received.  It stands
next to the state of the engine, where no block sees it.
-/

namespace SignalGraph

variable {σ τ α β : Type}

/-- What the reader of an output receives: its value, or in compiled code the lanes of it. -/
inductive Reading where
  | value (v : Value)
  | lanes (lanes : List Wasm.Lane)

inductive Event where
  /-- The computation of an output begins. -/
  | computed (source : Producer)
  /-- A reader receives an output, before any pointer is followed. -/
  | received (source : Producer) (reading : Reading)

def Event.computes (source : Producer) : Event → Bool
  | computed other => other = source
  | received .. => false

/-- Events, the latest first. -/
abbrev Ledger := List Event

namespace Ledger

def computations (l : Ledger) (source : Producer) : Nat := l.countP (Event.computes source)

theorem computations_computed (l : Ledger) (source : Producer) :
    computations (.computed source :: l) source = l.computations source + 1 := by
  have hcomputes : Event.computes source (.computed source) = true := decide_eq_true rfl
  unfold computations
  rw [List.countP_cons_of_pos hcomputes]

theorem computations_other {l : Ledger} {source other : Producer} (h : other ≠ source) :
    computations (.computed other :: l) source = l.computations source := by
  unfold computations
  rw [List.countP_cons_of_neg]
  exact fun heq => h (of_decide_eq_true heq)

theorem computations_received (l : Ledger) (source other : Producer) (r : Reading) :
    computations (.received other r :: l) source = l.computations source := by
  unfold computations
  rw [List.countP_cons_of_neg Bool.false_ne_true]

theorem received_of_computed {l : Ledger} {source other : Producer} {r : Reading}
    (h : .received source r ∈ (.computed other :: l : Ledger)) : .received source r ∈ l := by
  rcases List.mem_cons.mp h with heq | h
  · cases heq
  · exact h

end Ledger

/-- The memo points are different outputs, and every reader of one of them goes to its memo
point. -/
structure Program.Shares (p : Program) : Prop where
  distinct : ∀ (j k : MemoId) (m m' : MemoPoint), p.memoPoints[j]? = some m →
    p.memoPoints[k]? = some m' → m.source = m'.source → j = k
  tagged : ∀ (id : NodeId) (n : Node) (w : Wire), p.nodes[id]? = some n → .wire w ∈ n.inputs →
    ∀ (k : MemoId) (m : MemoPoint), p.memoPoints[k]? = some m → m.source = w.source →
      w.memo = some k

/-- A ledger that agrees with the cells of the memo points.  A busy memo point is being computed. -/
structure Ledger.Agrees (p : Program) (busy : MemoId → Prop) (cell : MemoId → Option Reading)
    (l : Ledger) : Prop where
  once : ∀ (k : MemoId) (m : MemoPoint), p.memoPoints[k]? = some m → l.computations m.source ≤ 1
  fresh : ∀ (k : MemoId) (m : MemoPoint), p.memoPoints[k]? = some m → ¬busy k → cell k = none →
    l.computations m.source = 0
  empty : ∀ k, busy k → cell k = none
  held : ∀ (k : MemoId) (m : MemoPoint) (r : Reading), p.memoPoints[k]? = some m →
    .received m.source r ∈ l → cell k = some r

namespace Ledger

variable {p : Program} {busy : MemoId → Prop} {cell cell' : MemoId → Option Reading}
  {l : Ledger} {k : MemoId} {m : MemoPoint} {source : Producer} {r : Reading}

theorem agrees_nil (p : Program) (cell : MemoId → Option Reading) :
    Agrees p (fun _ => False) cell [] :=
  ⟨fun _ _ _ => Nat.zero_le _, fun _ _ _ _ _ => rfl, fun _ h => h.elim,
    fun _ _ _ _ h => absurd h List.not_mem_nil⟩

theorem Agrees.plain (h : l.Agrees p busy cell)
    (hsource : ∀ (k : MemoId) (m : MemoPoint), p.memoPoints[k]? = some m → m.source ≠ source) :
    Agrees p busy cell (.computed source :: l) := by
  refine ⟨fun k m hk => ?_, fun k m hk => ?_, h.empty, fun k m r hk hr => ?_⟩
  · rw [computations_other (hsource k m hk).symm]
    exact h.once k m hk
  · rw [computations_other (hsource k m hk).symm]
    exact h.fresh k m hk
  · exact h.held k m r hk (received_of_computed hr)

/-- A memo point that holds nothing becomes busy. -/
theorem Agrees.begin (hp : p.Shares) (h : l.Agrees p busy cell)
    (hk : p.memoPoints[k]? = some m) (hidle : ¬busy k) (hcell : cell k = none) :
    Agrees p (fun j => j = k ∨ busy j) cell (.computed m.source :: l) := by
  have hothers : ∀ (j : MemoId) (m' : MemoPoint), p.memoPoints[j]? = some m' → j ≠ k →
      computations (.computed m.source :: l) m'.source = l.computations m'.source := by
    intro j m' hj hne
    exact computations_other fun heq => hne (hp.distinct j k m' m hj hk heq.symm)
  refine ⟨fun j m' hj => ?_, fun j m' hj hbusy => ?_, ?_, fun j m' r hj hr => ?_⟩
  · by_cases hjk : j = k
    · subst hjk
      rw [hk] at hj
      cases hj
      have hnone := h.fresh j m hk hidle hcell
      rw [computations_computed]
      omega
    · rw [hothers j m' hj hjk]
      exact h.once j m' hj
  · rw [not_or] at hbusy
    rw [hothers j m' hj hbusy.1]
    exact h.fresh j m' hj hbusy.2
  · rintro j (rfl | hbusy)
    · exact hcell
    · exact h.empty j hbusy
  · exact h.held j m' r hj (received_of_computed hr)

/-- A busy memo point is filled. -/
theorem Agrees.finish (h : l.Agrees p (fun j => j = k ∨ busy j) cell) (hidle : ¬busy k)
    (hfilled : cell' k = some r) (hsame : ∀ j, j ≠ k → cell' j = cell j) :
    l.Agrees p busy cell' := by
  refine ⟨h.once, fun j m hj hbusy hcell => ?_, fun j hbusy => ?_, fun j m r' hj hr => ?_⟩
  · have hjk : j ≠ k := by
      rintro rfl
      rw [hfilled] at hcell
      cases hcell
    rw [hsame j hjk] at hcell
    exact h.fresh j m hj (not_or.mpr ⟨hjk, hbusy⟩) hcell
  · have hjk : j ≠ k := by
      rintro rfl
      exact hidle hbusy
    rw [hsame j hjk]
    exact h.empty j (.inr hbusy)
  · have hheld := h.held j m r' hj hr
    have hjk : j ≠ k := by
      rintro rfl
      rw [h.empty j (.inl rfl)] at hheld
      cases hheld
    rw [hsame j hjk]
    exact hheld

/-- A reader receives what the memo point holds, if the output is one. -/
theorem Agrees.receive (h : l.Agrees p busy cell)
    (hsource : ∀ (k : MemoId) (m : MemoPoint), p.memoPoints[k]? = some m → m.source = source →
      cell k = some r) : Agrees p busy cell (.received source r :: l) := by
  refine ⟨fun k m hk => ?_, fun k m hk => ?_, h.empty, fun k m r' hk hr => ?_⟩
  · rw [computations_received]
    exact h.once k m hk
  · rw [computations_received]
    exact h.fresh k m hk
  · rcases List.mem_cons.mp hr with heq | hr
    · cases heq
      exact hsource k m hk rfl
    · exact h.held k m r' hk hr

/-- All readers of a memo point have received the same. -/
theorem Agrees.same (h : l.Agrees p busy cell) (hk : p.memoPoints[k]? = some m)
    {r r' : Reading} (hr : .received m.source r ∈ l) (hr' : .received m.source r' ∈ l) :
    r = r' := by
  have hcell := h.held k m r hk hr
  rw [h.held k m r' hk hr'] at hcell
  exact (Option.some.inj hcell).symm

end Ledger

/-! ## States with a ledger

`τ` stands for the ledger. -/

namespace World

def joined (w : World σ) (t : τ) : World (σ × τ) := ⟨(w.engine, t), w.vars, w.slots, w.late⟩

/-- A change that leaves alone what stands next to the world. -/
def Beside (f' : World (σ × τ) → α × World (σ × τ)) (f : World σ → α × World σ) : Prop :=
  ∀ w t, f' (joined w t) = ((f w).1, (f w).2.joined t)

end World

def Beside (f' : StateM (σ × τ) α) (f : StateM σ α) : Prop :=
  ∀ s t, f' (s, t) = ((f s).1, ((f s).2, t))

def Engine.beside (e : Engine σ) (τ : Type) : Engine (σ × τ) where
  respond := fun r s =>
    let (answer, engine) := e.respond r s.1
    (answer, (engine, s.2))

theorem Engine.beside_ask (e : Engine σ) (r : Request α) : Beside ((e.beside τ).ask r) (e.ask r) :=
  fun _ _ => rfl

theorem Query.beside_ask (e : Engine σ) (q : Query) (vs : List Value) :
    Beside (q.ask (e.beside τ) vs) (q.ask e vs) := by
  intro s t
  unfold Query.ask
  split <;> rfl

theorem Effect.beside_perform (e : Engine σ) (effect : Effect) (number : Int32)
    (inputs : List (Option Value)) :
    Beside (effect.perform (e.beside τ) number inputs) (effect.perform e number inputs) := by
  intro s t
  unfold Effect.perform
  split <;> rfl

namespace World

theorem beside_ask {f' : StateM (σ × τ) α} {f : StateM σ α} (h : SignalGraph.Beside f' f) :
    Beside (ask f') (ask f) := by
  intro w t
  show (let (a, engine) := f' (w.engine, t)
    (a, (⟨engine, w.vars, w.slots, w.late⟩ : World (σ × τ)))) = _
  rw [h w.engine t]
  rfl

theorem beside_pure (a : α) :
    Beside (τ := τ) (pure a : StateM (World (σ × τ)) α) (pure a : StateM (World σ) α) :=
  fun _ _ => rfl

theorem beside_bind {f' : StateM (World (σ × τ)) α} {f : StateM (World σ) α}
    {g' : α → StateM (World (σ × τ)) β} {g : α → StateM (World σ) β} (hf : Beside f' f)
    (hg : ∀ a, Beside (g' a) (g a)) : Beside (f' >>= g') (f >>= g) := by
  intro w t
  show (let (a, w) := f' (w.joined t); g' a w) = _
  rw [hf w t]
  exact hg _ _ t

end World

namespace Host

theorem beside_inspect (e : Engine σ) (p : Program) (f : Format) (node : Int32)
    (lanes : List Wasm.Lane) :
    World.Beside (inspect (e.beside τ) p f node lanes) (inspect e p f node lanes) := by
  unfold inspect
  split
  · exact World.beside_pure ()
  · split
    · exact World.beside_ask (Engine.beside_ask e _)
    · exact World.beside_pure ()

theorem beside_menuItem (e : Engine σ) (p : Program) (node var index picture : Int32) :
    World.Beside (menuItem (e.beside τ) p node var index picture)
      (menuItem e p node var index picture) := by
  unfold menuItem
  split
  · exact World.beside_ask (Engine.beside_ask e _)
  · exact World.beside_pure ()

theorem beside_writeVariable (p : Program) (f : Format) (var index : Int32) (lanes : List Wasm.Lane)
    (w : World σ) (t : τ) :
    writeVariable p f var index lanes (w.joined t) =
      (writeVariable p f var index lanes w).joined t := by
  unfold writeVariable
  split <;> rfl

/-- No imported function sees what stands next to the engine's state. -/
theorem beside_run (e : Engine σ) (p : Program) (i : Import) (lanes : List Wasm.Lane) :
    World.Beside (run (e.beside τ) p i lanes) (run e p i lanes) := by
  unfold run
  split
  case h_1 effect =>
    refine World.beside_bind (World.beside_ask (Effect.beside_perform e effect _ _)) fun kept => ?_
    cases kept <;> exact World.beside_pure _
  case h_2 q =>
    exact World.beside_bind (World.beside_ask (Query.beside_ask e q _)) fun _ => World.beside_pure _
  case h_4 =>
    exact World.beside_bind (beside_menuItem e p _ _ _ _) fun _ => World.beside_pure _
  case h_9 =>
    exact World.beside_bind (beside_inspect e p _ _ _) fun _ => World.beside_pure _
  case h_13 =>
    refine World.beside_bind (fun w t => ?_) fun _ => World.beside_pure _
    exact congrArg (Prod.mk ()) (beside_writeVariable p _ _ _ _ w t)
  all_goals exact fun _ _ => rfl

theorem beside_functions (e : Engine σ) (p : Program) (f : Nat) (lanes : List Wasm.Lane) :
    World.Beside (functions (e.beside τ) p f lanes) (functions e p f lanes) := by
  unfold functions
  split
  · exact beside_run e p _ lanes
  · exact World.beside_pure _

end Host

end SignalGraph
