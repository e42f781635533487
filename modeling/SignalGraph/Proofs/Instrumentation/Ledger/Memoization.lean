import SignalGraph.Proofs.Analysis.SharedOutputs
import SignalGraph.Proofs.Emulation.Equivalence
import SignalGraph.Proofs.Instrumentation.Ledger.Sessions

/-!
# Memoization

From the start of one frame to the start of the next, late tasks included, each memo point is
computed at most once, and all its readers receive the same.
-/

namespace SignalGraph

variable {σ τ α : Type}

def alongside (τ : Type) (action : StateM σ α) : StateM (σ × τ) α := fun s =>
  let (a, engine) := action s.1
  (a, (engine, s.2))

namespace Backend

def beside {L : Type} : Backend σ → L → Backend (σ × L)
  | interpreted s, l => interpreted (s.beside l)
  | compiled s, l => compiled (s.beside l)

def watchFrame (e : Engine σ) :
    Backend (σ × Ledger) → Except Fault (List NodeId) × Backend (σ × Ledger)
  | interpreted s => (s.watchFrame e).map id interpreted
  | compiled s => (s.watchFrame e).map id compiled

def watchLate (e : Engine σ) (tasks : List NodeId) :
    Backend (σ × Ledger) → Except Fault Unit × Backend (σ × Ledger)
  | interpreted s => (s.watchLate e tasks).map id interpreted
  | compiled s => (s.watchLate e tasks).map id compiled

/-- A backend after a frame that it was reached before, and after any late tasks since then and
whatever its host did between them; next to it the same with a ledger that begins with the frame. -/
inductive Watched (strategy : Strategy) (p : Program) :
    {σ : Type} → Engine σ → Backend σ → Backend (σ × Ledger) → Prop
  | frame {σ : Type} {e : Engine σ} {b : Backend σ} :
    Reached strategy p e b →
    Watched strategy p e (b.runFrame e).2 ((b.beside []).watchFrame e).2
  | late {σ : Type} {e : Engine σ} {b : Backend σ} {w : Backend (σ × Ledger)}
    (tasks : List NodeId) : Watched strategy p e b w →
    Watched strategy p e (b.runLate e tasks).2 (w.watchLate e tasks).2
  | ask {σ α : Type} {e : Engine σ} {b : Backend σ} {w : Backend (σ × Ledger)}
    (action : StateM σ α) : Watched strategy p e b w →
    Watched strategy p e (b.ask action).2 (w.ask (alongside Ledger action)).2
  | restore {σ τ : Type} {e : Engine σ} {e' : Engine τ} {b : Backend σ} {w : Backend (σ × Ledger)}
    {b' : Backend τ} : Watched strategy p e b w → Reached strategy p e' b' →
    Watched strategy p e (b.restore b'.vars.saved) (w.restore b'.vars.saved)

/-- A backend of a program between two calls, with a ledger of the frame. -/
inductive Sound (p : Program) : {σ : Type} → Strategy → Backend σ → Ledger → Prop
  | interpreted {σ : Type} {s : Interpreter.Session σ} {l : Ledger} :
    s.program = p → Interpreter.Sound p s.state l → Sound p .interpreter (.interpreted s) l
  | compiled {σ : Type} {s : Compiler.Session σ} {l : Ledger} :
    s.program = p → Compiler.Compiled p s.code → Compiler.Sound p s.code s.state l →
    Sound p .compiled (.compiled s) l

variable {p : Program} {e : Engine σ} {strategy : Strategy} {b : Backend σ} {l : Ledger}

/-- A new ledger can begin at any time. -/
theorem Sound.forget (h : Sound p strategy b l) : Sound p strategy b [] := by
  cases h with
  | interpreted hprogram h =>
    exact .interpreted hprogram ⟨h.1, h.2.size, Ledger.agrees_nil p _⟩
  | compiled hprogram hm h =>
    exact .compiled hprogram hm ⟨h.1, h.2.stamped, Ledger.agrees_nil p _⟩

/-- Whatever leaves the world typed may be done to it between two calls. -/
theorem Sound.inWorld (h : Sound p strategy b l) {act : World σ → α × World σ}
    (hact : strategy = .interpreter → ∀ s : Interpreter.State σ, s.Typed p →
      Interpreter.State.Typed p ⟨(act s.world).2, s.memo⟩) :
    Sound p strategy (b.inWorld act).2 l := by
  cases h with
  | @interpreted s _ hprogram h =>
    obtain ⟨program, frames, world, memo⟩ := s
    exact .interpreted hprogram ⟨hact rfl _ h.1, h.2.size, h.2.agrees⟩
  | @compiled s _ hprogram hm h =>
    obtain ⟨program, code, frames, world, globals, locals⟩ := s
    exact .compiled hprogram hm ⟨⟨h.1.globals, h.1.locals⟩, h.2⟩

theorem Sound.ask (h : Sound p strategy b l) (action : StateM σ α) :
    Sound p strategy (b.ask action).2 l :=
  h.inWorld fun _ _ hs => hs.ask action

theorem Sound.entryTyped (h : Sound p .interpreter b l) :
    ∀ entry ∈ b.vars.saved, VariableStore.EntryTyped entry := by
  cases h with
  | interpreted _ h => exact VariableStore.entryTyped_of_saved h.1.vars

theorem Sound.restore {b' : Backend τ} {l' : Ledger} (h : Sound p strategy b l)
    (h' : Sound p strategy b' l') : Sound p strategy (b.restore b'.vars.saved) l :=
  h.inWorld fun hstrategy _ hs => hs.restore (hstrategy ▸ h').entryTyped

theorem sound_interpreted {s : Interpreter.Session σ} {action : Interpreter.Run σ α}
    (h : Interpreter.Sound s.program (s.perform action).2.state l) :
    Sound s.program .interpreter (.interpreted (s.perform action).2) l := by
  rw [Interpreter.perform_snd] at h ⊢
  exact .interpreted rfl h

theorem sound_compiled {s : Compiler.Session σ} {action : EStateM Fault (Compiler.State σ) α}
    (hm : Compiler.Compiled s.program s.code)
    (h : Compiler.Sound s.program s.code (s.perform action).2.state l) :
    Sound s.program .compiled (.compiled (s.perform action).2) l := by
  rw [Compiler.perform_snd] at h ⊢
  exact .compiled rfl hm h

/-- A frame does the same with a ledger, and ends with one that agrees with the memo points. -/
theorem Sound.frame (hp : p.WellFormed) (hshares : p.Shares) (h : Sound p strategy b []) :
    ∃ l', (b.beside []).watchFrame e = ((b.runFrame e).1, (b.runFrame e).2.beside l') ∧
      Sound p strategy (b.runFrame e).2 l' := by
  cases h with
  | @interpreted s _ hprogram h =>
    subst hprogram
    obtain ⟨l', hframe, hsound⟩ := Interpreter.Session.perform_beside
      (s := { s with frames := s.frames + 1 })
      (Interpreter.mirrors_watchedFrame (e := e) hp hshares s.frames) ⟨h.1, rfl⟩
    exact ⟨l', congrArg (Prod.map id Backend.interpreted) hframe,
      sound_interpreted (s := { s with frames := s.frames + 1 }) hsound⟩
  | @compiled s _ hprogram hm h =>
    subst hprogram
    obtain ⟨l', hframe, hsound⟩ := Compiler.Session.perform_beside
      (s := { s with frames := s.frames + 1 })
      (Compiler.mirrors_watchedFrame (e := e) hp hshares hm s.frames) ⟨h.1, rfl⟩
    exact ⟨l', congrArg (Prod.map id Backend.compiled) hframe,
      sound_compiled (s := { s with frames := s.frames + 1 }) hm hsound⟩

theorem Sound.late (hp : p.WellFormed) (hshares : p.Shares) (h : Sound p strategy b l)
    (tasks : List NodeId) :
    ∃ l', (b.beside l).watchLate e tasks =
      ((b.runLate e tasks).1, (b.runLate e tasks).2.beside l') ∧
      Sound p strategy (b.runLate e tasks).2 l' := by
  cases h with
  | @interpreted s _ hprogram h =>
    subst hprogram
    obtain ⟨l', hlate, hsound⟩ := Interpreter.Session.perform_beside
      (Interpreter.mirrors_watchedLate (e := e) hp hshares tasks) h
    exact ⟨l', congrArg (Prod.map id Backend.interpreted) hlate, sound_interpreted hsound⟩
  | @compiled s _ hprogram hm h =>
    subst hprogram
    obtain ⟨l', hlate, hsound⟩ := Compiler.Session.perform_beside
      (Compiler.mirrors_watchedLate (e := e) hp hshares hm tasks) h
    exact ⟨l', congrArg (Prod.map id Backend.compiled) hlate, sound_compiled hm hsound⟩

theorem sound_start {engine : σ} (h : Backend.start strategy p engine = .ok b) :
    Sound p strategy b [] := by
  cases strategy with
  | interpreter =>
    cases h
    exact .interpreted rfl ⟨Interpreter.typed_start p engine, Interpreter.kept_start p _⟩
  | compiled =>
    obtain ⟨s, hs, rfl⟩ := Outcome.map_eq_ok.mp h
    obtain ⟨m, hm, rfl, hsettled⟩ := Compiler.start_eq_ok hs
    exact .compiled rfl hm
      ⟨hsettled, Compiler.stamped_of_settled hm hsettled, Ledger.agrees_nil p _⟩

theorem sound_of_reached (hp : p.WellFormed) (hshares : p.Shares) {σ : Type} {e : Engine σ}
    {b : Backend σ} (h : Reached strategy p e b) : Sound p strategy b [] := by
  induction h with
  | start hstart => exact sound_start hstart
  | restore _ _ ih ih' => exact ih.restore ih'
  | ask action _ ih => exact ih.ask action
  | frame _ ih =>
    obtain ⟨l', -, hsound⟩ := ih.frame hp hshares
    exact hsound.forget
  | late tasks _ ih =>
    obtain ⟨l', -, hsound⟩ := ih.late hp hshares tasks
    exact hsound.forget

/-- The backend with a ledger holds the same as the one without, next to its ledger. -/
theorem sound_of_watched (hp : p.WellFormed) (hshares : p.Shares) {σ : Type} {e : Engine σ}
    {b : Backend σ} {w : Backend (σ × Ledger)} (h : Watched strategy p e b w) :
    ∃ l, w = b.beside l ∧ Sound p strategy b l := by
  induction h with
  | frame hreached =>
    obtain ⟨l', hframe, hsound⟩ := (sound_of_reached hp hshares hreached).frame hp hshares
    exact ⟨l', congrArg Prod.snd hframe, hsound⟩
  | late tasks _ ih =>
    obtain ⟨l, rfl, hsound⟩ := ih
    obtain ⟨l', hlate, hsound'⟩ := hsound.late hp hshares tasks
    exact ⟨l', congrArg Prod.snd hlate, hsound'⟩
  | ask action _ ih =>
    obtain ⟨l, rfl, hsound⟩ := ih
    refine ⟨l, ?_, hsound.ask action⟩
    cases hsound <;> rfl
  | restore _ hreached ih =>
    obtain ⟨l, rfl, hsound⟩ := ih
    refine ⟨l, ?_, hsound.restore (sound_of_reached hp hshares hreached)⟩
    cases hsound <;> rfl

/-- Memoization.  After a frame and whatever late tasks, a ledger of what was computed and received
since the frame began tells that no memo point was computed twice, and that all its readers received
the same.  Each reader of the output goes to its memo point: its code does not compute the output
itself. -/
theorem computed_once {c : Catalog} {d : Document} (hc : c.Stocked)
    (h : Program.analyse c d = .ok p) {w : Backend (σ × Ledger)} (hw : Watched strategy p e b w) :
    ∃ l, w = b.beside l ∧
      (∀ tasks, (w.watchLate e tasks).1 = (b.runLate e tasks).1) ∧
      ∀ (k : MemoId) (m : MemoPoint), p.memoPoints[k]? = some m →
        l.computations m.source ≤ 1 ∧
        (∀ r r', .received m.source r ∈ l → .received m.source r' ∈ l → r = r') ∧
        ∀ (id : NodeId) (n : Node) (reader : Wire), p.nodes[id]? = some n →
          .wire reader ∈ n.inputs → reader.source = m.source → reader.memo = some k ∧
          ∀ produce produce', Compiler.wire produce reader = Compiler.wire produce' reader := by
  have hp := Program.wellFormed_of_analyse hc h
  have hshares := Program.shares_of_analyse hc h
  obtain ⟨l, rfl, hsound⟩ := sound_of_watched hp hshares hw
  have hagrees : ∃ cell, l.Agrees p (fun _ => False) cell := by
    cases hsound with
    | interpreted _ h => exact ⟨_, h.2.agrees⟩
    | compiled _ _ h => exact ⟨_, h.2.agrees⟩
  obtain ⟨cell, hagrees⟩ := hagrees
  refine ⟨l, rfl, fun tasks => ?_,
    fun k m hk => ⟨hagrees.once k m hk, fun r r' => hagrees.same hk, ?_⟩⟩
  · obtain ⟨l', hlate, -⟩ := hsound.late hp hshares tasks
    exact congrArg Prod.fst hlate
  · intro id n reader hn hreader hsource
    have htag := hshares.tagged id n reader hn hreader k m hk hsource.symm
    refine ⟨htag, fun produce produce' => ?_⟩
    unfold Compiler.wire
    rw [htag]

/-- The flipped value of `toggling` is computed for the statement that writes it, and the late task
receives it as well, although the variable has changed since. -/
theorem computed_once_toggling : ∃ c p, c.Stocked ∧ Program.analyse c Program.toggling = .ok p ∧
    p.memoPoints.map (·.source) = [⟨0, 0⟩, ⟨1, 0⟩] ∧
    ∀ strategy, ∃ (b : Backend Headless) (w : Backend (Headless × Ledger)) (l : Ledger),
      Watched strategy p Headless.engine b w ∧ w = b.beside l ∧
      l.computations ⟨1, 0⟩ = 1 ∧ l.countP (fun | .received ⟨1, 0⟩ _ => true | _ => false) = 2 ∧
      (∀ tasks, (w.watchLate Headless.engine tasks).1 = (b.runLate Headless.engine tasks).1) ∧
      ∀ (k : MemoId) (m : MemoPoint), p.memoPoints[k]? = some m →
        l.computations m.source ≤ 1 ∧
        (∀ r r', .received m.source r ∈ l → .received m.source r' ∈ l → r = r') ∧
        ∀ (id : NodeId) (n : Node) (reader : Wire), p.nodes[id]? = some n →
          .wire reader ∈ n.inputs → reader.source = m.source → reader.memo = some k ∧
          ∀ produce produce', Compiler.wire produce reader = Compiler.wire produce' reader := by
  let ledger (b : Backend Headless) : Ledger :=
    ((((b.beside []).watchFrame Headless.engine).2.watchLate Headless.engine [6]).2).world.engine.2
  have hsome : (Catalog.stock.bind fun c =>
      Program.analyse c Program.toggling).toOption.any (fun p =>
      p.memoPoints.map (·.source) = [⟨0, 0⟩, ⟨1, 0⟩] ∧
      ∀ strategy ∈ [Strategy.interpreter, .compiled],
        (Backend.start strategy p (Headless.ofSeed 0)).toOption.any fun b =>
          (ledger b).computations ⟨1, 0⟩ = 1 ∧
          (ledger b).countP (fun | .received ⟨1, 0⟩ _ => true | _ => false) = 2) = true := by
    decide +kernel
  obtain ⟨c, p, -, hc, hp, hfacts⟩ := Catalog.exists_stock hsome
  obtain ⟨hpoints, hruns⟩ := of_decide_eq_true hfacts
  refine ⟨c, p, hc, hp, hpoints, fun strategy => ?_⟩
  obtain ⟨b, hstart, hcounts⟩ := Outcome.any_toOption.mp
      (hruns strategy (by cases strategy <;> decide))
  obtain ⟨hcomputed, hreceived⟩ := of_decide_eq_true hcounts
  have hwatched : Watched strategy p Headless.engine (b.runFrame Headless.engine).2
      ((b.beside []).watchFrame Headless.engine).2 := .frame (.start hstart)
  obtain ⟨l, hl, hall⟩ := computed_once hc hp (hwatched.late [6])
  have hledger : ledger b = l := (congrArg (·.world.engine.2) hl).trans (by cases b <;> rfl)
  rw [hledger] at hcomputed hreceived
  exact ⟨_, _, l, hwatched.late [6], hl, hcomputed, hreceived, hall⟩

end Backend
end SignalGraph
