import SignalGraph.Proofs.Instrumentation.Chronicle.Sessions
import SignalGraph.Proofs.Instrumentation.Journal.Privacy

namespace SignalGraph

open Chronicle

variable {σ τ α : Type}

namespace Backend

def tellFrame (e : Engine σ) :
    Backend (σ × Chronicle) → Except Fault (List NodeId) × Backend (σ × Chronicle)
  | interpreted s => (s.tellFrame e).map id interpreted
  | compiled s => (s.tellFrame e).map id compiled

def tellLate (e : Engine σ) (tasks : List NodeId) :
    Backend (σ × Chronicle) → Except Fault Unit × Backend (σ × Chronicle)
  | interpreted s => (s.tellLate e tasks).map id interpreted
  | compiled s => (s.tellLate e tasks).map id compiled

def frames : Backend σ → Nat
  | interpreted s => s.frames
  | compiled s => s.frames

/-- A backend that a program was started in, after any calls and whatever its host did between them;
next to it the same with a chronicle of all calls. -/
inductive Chronicled (strategy : Strategy) (p : Program) {σ : Type} (e : Engine σ) :
    Backend σ → Backend (σ × Chronicle) → Prop
  | start {engine : σ} {b : Backend σ} :
    Backend.start strategy p engine = .ok b → Chronicled strategy p e b (b.beside [])
  | frame {b : Backend σ} {w : Backend (σ × Chronicle)} : Chronicled strategy p e b w →
    Chronicled strategy p e (b.runFrame e).2 (w.tellFrame e).2
  | late {b : Backend σ} {w : Backend (σ × Chronicle)} (tasks : List NodeId) :
    Chronicled strategy p e b w →
    Chronicled strategy p e (b.runLate e tasks).2 (w.tellLate e tasks).2
  | ask {α : Type} {b : Backend σ} {w : Backend (σ × Chronicle)} (action : StateM σ α) :
    Chronicled strategy p e b w →
    Chronicled strategy p e (b.ask action).2 (w.ask (alongside Chronicle action)).2
  | restore {τ : Type} {e' : Engine τ} {b : Backend σ} {w : Backend (σ × Chronicle)}
      {b' : Backend τ} :
    Chronicled strategy p e b w → Reached strategy p e' b' →
    Chronicled strategy p e (b.restore b'.vars.saved) (w.restore b'.vars.saved)

/-- A backend of a program between two calls, with a chronicle since it was started. -/
inductive Told (p : Program) : Strategy → Backend σ → Chronicle → Prop
  | interpreted {s : Interpreter.Session σ} {l : Chronicle} : s.program = p → l.frames = s.frames →
    s.state.Typed p → Interpreter.Recalls p s.state l → Told p .interpreter (.interpreted s) l
  | compiled {s : Compiler.Session σ} {l : Chronicle} : s.program = p → l.frames = s.frames →
    Compiler.Compiled p s.code → Compiler.Settled s.code s.state →
    Compiler.Recalls p s.frames s.state l → Told p .compiled (.compiled s) l

variable {p : Program} {e : Engine σ} {strategy : Strategy} {b : Backend σ} {l : Chronicle}

/-- A program of a document can be started under either strategy. -/
theorem exists_start (hp : p.WellFormed) (strategy : Strategy) (engine : σ) :
    ∃ b, Backend.start strategy p engine = .ok b := by
  cases strategy with
  | interpreter => exact ⟨_, rfl⟩
  | compiled =>
    obtain ⟨b, hb, -⟩ := Compiler.twins_start hp engine
    exact ⟨b, hb⟩

theorem told_start {engine : σ} (h : Backend.start strategy p engine = .ok b) :
    Told p strategy b [] ∧ b.world.holdings = World.start p () := by
  cases strategy with
  | interpreter =>
    cases h
    refine ⟨.interpreted rfl rfl (Interpreter.typed_start p engine) ⟨Array.size_replicate, ?_⟩, rfl⟩
    rw [show Interpreter.cells (Interpreter.Session.start p engine).state.memo = fun _ => none from
      Interpreter.cells_replicate _]
    exact fresh_nil
  | compiled =>
    obtain ⟨s, hs, rfl⟩ := Outcome.map_eq_ok.mp h
    obtain ⟨m, hm, rfl, hsettled⟩ := Compiler.start_eq_ok hs
    refine ⟨.compiled rfl rfl hm hsettled ⟨?_, fun _ => ?_⟩, rfl⟩
    · rw [hm.globals]
      exact Compiler.timely_start p
    · rw [hm.globals, Compiler.cells_start]
      exact fresh_nil

theorem Told.frames (h : Told p strategy b l) : Chronicle.frames l = b.frames := by
  cases h with
  | interpreted _ hframes | compiled _ hframes => exact hframes

theorem frames_start {engine : σ} (h : Backend.start strategy p engine = .ok b) : b.frames = 0 :=
  (told_start h).1.frames.symm

section

variable (hp : p.WellFormed) (hfit : strategy = .compiled → p.Addressable)
  (howns : ∀ id n, p.nodes[id]? = some n → p.Owns id n)
include hp hfit howns

/-- A frame never fails, and returns its queue. -/
theorem Told.frame (h : Told p strategy b l) : ∃ tasks es,
    b.runFrame e = (.ok tasks, (b.runFrame e).2) ∧
      (b.beside l).tellFrame e = (.ok tasks, (b.runFrame e).2.beside (l ++ es)) ∧
      tasks = (b.runFrame e).2.world.late.toList ∧
      p.FrameRun b.world.holdings es (b.runFrame e).2.world.holdings ∧
      Told p strategy (b.runFrame e).2 (l ++ es) := by
  have hcount : ∀ {es : Chronicle} {h h' : Holdings}, p.FrameRun h es h' →
      (l ++ es).frames = l.frames + 1 := fun hrun => by
    rw [frames_append, Program.frames_of_frameRun hrun]
  cases h with
  | @interpreted s l hprogram hframes htyped hB =>
    subst hprogram
    obtain ⟨r, state, _, hrun, htold, hJ⟩ :=
      Interpreter.Session.perform_outcome (s := { s with frames := s.frames + 1 })
        (Interpreter.mirrors_toldFrame (e := e) (E := fun _ _ => False) hp s.frames)
        ⟨htyped, since_stay.mpr ⟨⟨rfl, rfl⟩, hB⟩⟩
    cases r with
    | error fault => exact hJ.elim
    | ok tasks =>
      obtain ⟨htasks, htyped', ⟨es, rfl, hes⟩, hB'⟩ := hJ
      have hframe : (Backend.interpreted s).runFrame e =
          (.ok tasks, .interpreted ⟨s.program, s.frames + 1, state⟩) :=
        congrArg (Prod.map id Backend.interpreted) hrun
      rw [hframe]
      exact ⟨tasks, es, rfl, congrArg (Prod.map id Backend.interpreted) htold, htasks, hes,
        .interpreted rfl ((hcount hes).trans (congrArg (· + 1) hframes)) htyped' hB'⟩
  | @compiled s l hprogram hframes hm hsettled hB =>
    subst hprogram
    obtain ⟨r, state, _, hrun, htold, hJ⟩ :=
      Compiler.Session.perform_outcome (s := { s with frames := s.frames + 1 })
        (Compiler.mirrors_toldFrame (e := e) (E := fun _ _ => False) hp (hfit rfl) hm howns)
        ⟨hsettled, since_stay.mpr ⟨⟨rfl, rfl⟩, hB⟩⟩
    cases r with
    | error fault => exact hJ.elim
    | ok tasks =>
      obtain ⟨htasks, hsettled', ⟨es, rfl, hes⟩, hB'⟩ := hJ
      have hframe : (Backend.compiled s).runFrame e =
          (.ok tasks, .compiled ⟨s.program, s.code, s.frames + 1, state⟩) :=
        congrArg (Prod.map id Backend.compiled) hrun
      rw [hframe]
      exact ⟨tasks, es, rfl, congrArg (Prod.map id Backend.compiled) htold, htasks, hes,
        .compiled rfl ((hcount hes).trans (congrArg (· + 1) hframes)) hm hsettled' hB'⟩

/-- Late tasks run in order, unless one is none. -/
theorem Told.late (h : Told p strategy b l) (tasks : List NodeId) : ∃ es,
    (b.beside l).tellLate e tasks =
      ((b.runLate e tasks).1, (b.runLate e tasks).2.beside (l ++ es)) ∧
      p.LateRun tasks (b.runLate e tasks).1 b.world.holdings es
        (b.runLate e tasks).2.world.holdings ∧
      Told p strategy (b.runLate e tasks).2 (l ++ es) := by
  have hcount : ∀ {r : Except Fault Unit} {es : Chronicle} {h h' : Holdings},
      p.LateRun tasks r h es h' → (l ++ es).frames = l.frames := fun hrun => by
    rw [frames_append, Program.frames_of_lateRun hrun, Nat.add_zero]
  cases h with
  | @interpreted s l hprogram hframes htyped hB =>
    subst hprogram
    obtain ⟨r, state, _, hrun, htold, hJ⟩ := Interpreter.Session.perform_outcome
      (Interpreter.mirrors_toldLate (e := e) hp tasks) ⟨htyped, since_stay.mpr ⟨⟨rfl, rfl⟩, hB⟩⟩
    have hlate : (Backend.interpreted s).runLate e tasks =
        (r, .interpreted ⟨s.program, s.frames, state⟩) :=
      congrArg (Prod.map id Backend.interpreted) hrun
    obtain ⟨htyped', ⟨es, rfl, hes⟩, hB'⟩ : state.Typed s.program ∧ Interpreter.Since s.program
        s.state.world.holdings l (s.program.LateRun tasks r) state _ := by
      cases r <;> exact hJ
    rw [hlate]
    exact ⟨es, congrArg (Prod.map id Backend.interpreted) htold, hes,
      .interpreted rfl ((hcount hes).trans hframes) htyped' hB'⟩
  | @compiled s l hprogram hframes hm hsettled hB =>
    subst hprogram
    obtain ⟨r, state, _, hrun, htold, hJ⟩ := Compiler.Session.perform_outcome
      (Compiler.mirrors_toldLate (e := e) hp (hfit rfl) hm howns tasks)
      ⟨hsettled, since_stay.mpr ⟨⟨rfl, rfl⟩, hB⟩⟩
    have hlate : (Backend.compiled s).runLate e tasks =
        (r, .compiled ⟨s.program, s.code, s.frames, state⟩) :=
      congrArg (Prod.map id Backend.compiled) hrun
    obtain ⟨hsettled', ⟨es, rfl, hes⟩, hB'⟩ : Compiler.Settled s.code state ∧
      Compiler.Since s.program
        s.frames s.state.host.holdings l (s.program.LateRun tasks r) state _ := by
      cases r <;> exact hJ
    rw [hlate]
    exact ⟨es, congrArg (Prod.map id Backend.compiled) htold, hes,
      .compiled rfl ((hcount hes).trans hframes) hm hsettled' hB'⟩

end

/-- The number of a frame is a word of the machine, one of which stands for no frame. -/
theorem Told.lawful (h : Told p strategy b l) (hlt : strategy = .compiled → b.frames < 4294967295) :
    l.Lawful p := by
  cases h with
  | interpreted _ _ _ hB => exact hB.fresh.lawful
  | compiled _ _ _ _ hB => exact (hB.fresh (hlt rfl)).lawful

theorem frames_runFrame (b : Backend σ) : (b.runFrame e).2.frames = b.frames + 1 := by
  cases b with
  | interpreted s =>
    exact congrArg (·.frames) (Interpreter.perform_snd { s with frames := s.frames + 1 } _)
  | compiled s =>
    exact congrArg (·.frames) (Compiler.perform_snd { s with frames := s.frames + 1 } _)

/-- A program runs for any number of frames. -/
theorem exists_chronicled (hp : p.WellFormed) (strategy : Strategy) (e : Engine σ) (engine : σ) :
    ∀ frames : Nat, ∃ b w, Chronicled strategy p e b w ∧ b.frames = frames
  | 0 => by
    obtain ⟨b, hb⟩ := exists_start hp strategy engine
    exact ⟨b, _, .start hb, frames_start hb⟩
  | frames + 1 => by
    obtain ⟨b, w, hw, hframes⟩ := exists_chronicled hp strategy e engine frames
    exact ⟨_, _, hw.frame, (frames_runFrame b).trans (congrArg Nat.succ hframes)⟩

theorem frames_runLate (b : Backend σ) (tasks : List NodeId) :
    (b.runLate e tasks).2.frames = b.frames := by
  cases b with
  | interpreted s => exact congrArg (·.frames) (Interpreter.perform_snd s _)
  | compiled s => exact congrArg (·.frames) (Compiler.perform_snd s _)

theorem Told.inWorld (h : Told p strategy b l) {act : World σ → α × World σ}
    (hact : strategy = .interpreter → ∀ s : Interpreter.State σ, s.Typed p →
      Interpreter.State.Typed p ⟨(act s.world).2, s.memo⟩) :
    Told p strategy (b.inWorld act).2 l := by
  cases h with
  | @interpreted s _ hprogram hframes hs hB =>
    obtain ⟨program, frames, world, memo⟩ := s
    exact .interpreted hprogram hframes (hact rfl _ hs) ⟨hB.size, hB.fresh⟩
  | @compiled s _ hprogram hframes hm ht hB =>
    obtain ⟨program, code, frames, world, globals, locals⟩ := s
    exact .compiled hprogram hframes hm ⟨ht.globals, ht.locals⟩ ⟨hB.timely, hB.fresh⟩

theorem Told.ask (h : Told p strategy b l) (action : StateM σ α) :
    Told p strategy (b.ask action).2 l :=
  h.inWorld fun _ _ hs => hs.ask action

theorem Told.restore {b' : Backend τ} {l' : Ledger} (h : Told p strategy b l)
    (h' : Sound p strategy b' l') : Told p strategy (b.restore b'.vars.saved) l :=
  h.inWorld fun hstrategy _ hs => hs.restore (hstrategy ▸ h').entryTyped

theorem holdings_ask (b : Backend σ) (action : StateM σ α) :
    (b.ask action).2.world.holdings = b.world.holdings := by
  cases b <;> rfl

theorem holdings_restore (b : Backend σ) (entries : List SavedVariable) :
    (b.restore entries).world.holdings =
      { b.world.holdings with vars := b.world.vars.restore entries } := by
  cases b <;> rfl

/-- The backend with a chronicle holds the same as the one without, next to the chronicle, which is
a history of the program. -/
theorem told_of_chronicled (hp : p.WellFormed) (hfit : strategy = .compiled → p.Addressable)
    (howns : ∀ id n, p.nodes[id]? = some n → p.Owns id n) (hshares : p.Shares)
    {w : Backend (σ × Chronicle)} (h : Chronicled strategy p e b w) :
    ∃ l, w = b.beside l ∧ Told p strategy b l ∧ p.History l b.world.holdings := by
  induction h with
  | start hstart =>
    obtain ⟨htold, hheld⟩ := told_start hstart
    exact ⟨[], rfl, htold, hheld ▸ .start⟩
  | frame _ ih =>
    obtain ⟨l, rfl, htold, hhistory⟩ := ih
    obtain ⟨tasks, es, -, hframe, -, hrun, htold'⟩ := htold.frame hp hfit howns
    exact ⟨l ++ es, congrArg Prod.snd hframe, htold', hhistory.frame hrun⟩
  | late tasks _ ih =>
    obtain ⟨l, rfl, htold, hhistory⟩ := ih
    obtain ⟨es, hlate, hrun, htold'⟩ := htold.late hp hfit howns tasks
    exact ⟨l ++ es, congrArg Prod.snd hlate, htold', hhistory.late hrun⟩
  | ask action _ ih =>
    obtain ⟨l, rfl, htold, hhistory⟩ := ih
    refine ⟨l, ?_, htold.ask action, (holdings_ask _ action).symm ▸ hhistory⟩
    cases htold <;> rfl
  | restore _ hreached ih =>
    obtain ⟨l, rfl, htold, hhistory⟩ := ih
    refine ⟨l, ?_, htold.restore (sound_of_reached hp hshares hreached),
      (holdings_restore _ _).symm ▸ hhistory.restore _⟩
    cases htold <;> rfl

end Backend
end SignalGraph
