import SignalGraph.Proofs.Analysis.Realized
import SignalGraph.Proofs.Instrumentation.Journal.Sessions
import SignalGraph.Proofs.Instrumentation.Ledger.Memoization

/-!
# Privacy

Slots are private and persistent.  Whatever frames and late tasks run, a slot changes only while its
owner runs, and right before it runs one of its branches if it has any.  Until then it holds what it
held.
-/

namespace SignalGraph

variable {σ τ α : Type}

namespace Program

variable {p : Program}

theorem owns_of_analyse {c : Catalog} {d : Document} (hc : c.Stocked) (h : analyse c d = .ok p) :
    ∀ id n, p.nodes[id]? = some n → p.Owns id n := by
  obtain ⟨x, built, nodes, volatile, -, hstages⟩ := stages_of_analyse hc h
  exact fun id n hget => hstages.owns hget

end Program

/-- The output of a statement is read from a slot of its own. -/
theorem Node.mem_of_outputSlot {n : Node} {output : Nat} {slot : SlotId} {component : Option Nat}
    (h : n.outputSlot output = .ok (slot, component)) : slot ∈ n.slots := by
  unfold Node.outputSlot at h
  split at h
  · cases h
  · obtain ⟨found, hfound, heq⟩ := Outcome.map_eq_ok.mp h
    cases heq
    exact Interpreter.mem_of_slot hfound

namespace Backend

def traceFrame (e : Engine σ) :
    Backend (σ × Journal) → Except Fault (List NodeId) × Backend (σ × Journal)
  | interpreted s => (s.traceFrame e).map id interpreted
  | compiled s => (s.traceFrame e).map id compiled

def traceLate (e : Engine σ) (tasks : List NodeId) :
    Backend (σ × Journal) → Except Fault Unit × Backend (σ × Journal)
  | interpreted s => (s.traceLate e tasks).map id interpreted
  | compiled s => (s.traceLate e tasks).map id compiled

/-- A backend after any frames and late tasks since it was `b₀`, and whatever its host did between
them; next to it the same with a journal of them. -/
inductive Recorded (strategy : Strategy) (p : Program) :
    {σ : Type} → Engine σ → Backend σ → Backend σ → Backend (σ × Journal) → Prop
  | begin {σ : Type} {e : Engine σ} {b₀ : Backend σ} :
    Reached strategy p e b₀ → Recorded strategy p e b₀ b₀ (b₀.beside [])
  | frame {σ : Type} {e : Engine σ} {b₀ b : Backend σ} {w : Backend (σ × Journal)} :
    Recorded strategy p e b₀ b w → Recorded strategy p e b₀ (b.runFrame e).2 (w.traceFrame e).2
  | late {σ : Type} {e : Engine σ} {b₀ b : Backend σ} {w : Backend (σ × Journal)}
    (tasks : List NodeId) : Recorded strategy p e b₀ b w →
    Recorded strategy p e b₀ (b.runLate e tasks).2 (w.traceLate e tasks).2
  | ask {σ α : Type} {e : Engine σ} {b₀ b : Backend σ} {w : Backend (σ × Journal)}
    (action : StateM σ α) : Recorded strategy p e b₀ b w →
    Recorded strategy p e b₀ (b.ask action).2 (w.ask (alongside Journal action)).2
  | restore {σ τ : Type} {e : Engine σ} {e' : Engine τ} {b₀ b : Backend σ}
    {w : Backend (σ × Journal)} {b' : Backend τ} : Recorded strategy p e b₀ b w →
    Reached strategy p e' b' →
    Recorded strategy p e b₀ (b.restore b'.vars.saved) (w.restore b'.vars.saved)

/-- A backend of a program between two calls, with a journal since the slots were `first`. -/
inductive Traced (p : Program) (first : SlotStore) :
    {σ : Type} → Strategy → Backend σ → Journal → Prop
  | interpreted {σ : Type} {s : Interpreter.Session σ} {l : Journal} :
    s.program = p → Interpreter.Traced p first s.state l →
    Traced p first .interpreter (.interpreted s) l
  | compiled {σ : Type} {s : Compiler.Session σ} {l : Journal} :
    s.program = p → Compiler.Compiled p s.code → Compiler.Traced p s.code first s.state l →
    Traced p first .compiled (.compiled s) l

variable {p : Program} {e : Engine σ} {strategy : Strategy} {b b₀ : Backend σ} {first : SlotStore}
  {l : Journal}

theorem Traced.keeps (h : Traced p first strategy b l) :
    Journal.Keeps p first [] none b.world.slots l := by
  cases h with
  | interpreted _ h => exact h.2
  | compiled _ _ h => exact h.2

theorem traced_of_sound {l' : Ledger} (h : Sound p strategy b l') :
    Traced p b.world.slots strategy b [] := by
  cases h with
  | interpreted hprogram h => exact .interpreted hprogram ⟨h.1, Journal.keeps_start p _⟩
  | compiled hprogram hm h => exact .compiled hprogram hm ⟨h.1, Journal.keeps_start p _⟩

/-- Whatever leaves the slots alone and the world typed may be done to it between two calls. -/
theorem Traced.inWorld (h : Traced p first strategy b l) {act : World σ → α × World σ}
    (hslots : ∀ w, (act w).2.slots = w.slots)
    (hact : strategy = .interpreter → ∀ s : Interpreter.State σ, s.Typed p →
      Interpreter.State.Typed p ⟨(act s.world).2, s.memo⟩) :
    Traced p first strategy (b.inWorld act).2 l := by
  cases h with
  | @interpreted s _ hprogram h =>
    obtain ⟨program, frames, world, memo⟩ := s
    exact .interpreted hprogram ⟨hact rfl _ h.1, (hslots world).symm ▸ h.2⟩
  | @compiled s _ hprogram hm h =>
    obtain ⟨program, code, frames, world, globals, locals⟩ := s
    exact .compiled hprogram hm ⟨⟨h.1.globals, h.1.locals⟩, (hslots world).symm ▸ h.2⟩

theorem Traced.ask (h : Traced p first strategy b l) (action : StateM σ α) :
    Traced p first strategy (b.ask action).2 l :=
  h.inWorld (fun _ => rfl) fun _ _ hs => hs.ask action

/-- What another backend has saved can be restored. -/
theorem Traced.restore {b' : Backend τ} {l' : Ledger} (h : Traced p first strategy b l)
    (h' : Sound p strategy b' l') : Traced p first strategy (b.restore b'.vars.saved) l :=
  h.inWorld (fun _ => rfl) fun hstrategy _ hs => hs.restore (hstrategy ▸ h').entryTyped

theorem traced_interpreted {s : Interpreter.Session σ} {action : Interpreter.Run σ α}
    (h : Interpreter.Traced s.program first (s.perform action).2.state l) :
    Traced s.program first .interpreter (.interpreted (s.perform action).2) l := by
  rw [Interpreter.perform_snd] at h ⊢
  exact .interpreted rfl h

theorem traced_compiled {s : Compiler.Session σ} {action : EStateM Fault (Compiler.State σ) α}
    (hm : Compiler.Compiled s.program s.code)
    (h : Compiler.Traced s.program s.code first (s.perform action).2.state l) :
    Traced s.program first .compiled (.compiled (s.perform action).2) l := by
  rw [Compiler.perform_snd] at h ⊢
  exact .compiled rfl hm h

section

variable (hp : p.WellFormed) (hfit : strategy = .compiled → p.slots.length ≤ 4294967296)
  (howns : ∀ id n, p.nodes[id]? = some n → p.Owns id n)
include hp hfit howns

/-- A frame does the same with a journal, by which no slot changes but by its owner. -/
theorem Traced.frame (h : Traced p first strategy b l) :
    ∃ l', (b.beside l).traceFrame e = ((b.runFrame e).1, (b.runFrame e).2.beside l') ∧
      Traced p first strategy (b.runFrame e).2 l' := by
  cases h with
  | @interpreted s _ hprogram h =>
    subst hprogram
    obtain ⟨l', hframe, htraced⟩ := Interpreter.Session.perform_beside
      (s := { s with frames := s.frames + 1 })
      (Interpreter.mirrors_tracedFrame (e := e) hp howns s.frames) h
    exact ⟨l', congrArg (Prod.map id Backend.interpreted) hframe,
      traced_interpreted (s := { s with frames := s.frames + 1 }) htraced⟩
  | @compiled s _ hprogram hm h =>
    subst hprogram
    obtain ⟨l', hframe, htraced⟩ := Compiler.Session.perform_beside
      (s := { s with frames := s.frames + 1 })
      (Compiler.mirrors_tracedFrame (e := e) hp hm (hfit rfl) howns s.frames) h
    exact ⟨l', congrArg (Prod.map id Backend.compiled) hframe,
      traced_compiled (s := { s with frames := s.frames + 1 }) hm htraced⟩

theorem Traced.late (h : Traced p first strategy b l) (tasks : List NodeId) :
    ∃ l', (b.beside l).traceLate e tasks =
      ((b.runLate e tasks).1, (b.runLate e tasks).2.beside l') ∧
      Traced p first strategy (b.runLate e tasks).2 l' := by
  cases h with
  | @interpreted s _ hprogram h =>
    subst hprogram
    obtain ⟨l', hlate, htraced⟩ := Interpreter.Session.perform_beside
      (Interpreter.mirrors_tracedLate (e := e) hp howns tasks) h
    exact ⟨l', congrArg (Prod.map id Backend.interpreted) hlate, traced_interpreted htraced⟩
  | @compiled s _ hprogram hm h =>
    subst hprogram
    obtain ⟨l', hlate, htraced⟩ := Compiler.Session.perform_beside
      (Compiler.mirrors_tracedLate (e := e) hp hm (hfit rfl) howns tasks) h
    exact ⟨l', congrArg (Prod.map id Backend.compiled) hlate, traced_compiled hm htraced⟩

/-- The backend with a journal holds the same as the one without, next to its journal. -/
theorem traced_of_recorded (hshares : p.Shares) {w : Backend (σ × Journal)}
    (h : Recorded strategy p e b₀ b w) :
    ∃ l, w = b.beside l ∧ Traced p b₀.world.slots strategy b l := by
  induction h with
  | begin hreached => exact ⟨[], rfl, traced_of_sound (sound_of_reached hp hshares hreached)⟩
  | frame _ ih =>
    obtain ⟨l, rfl, htraced⟩ := ih
    obtain ⟨l', hframe, htraced'⟩ := htraced.frame hp hfit howns
    exact ⟨l', congrArg Prod.snd hframe, htraced'⟩
  | late tasks _ ih =>
    obtain ⟨l, rfl, htraced⟩ := ih
    obtain ⟨l', hlate, htraced'⟩ := htraced.late hp hfit howns tasks
    exact ⟨l', congrArg Prod.snd hlate, htraced'⟩
  | ask action _ ih =>
    obtain ⟨l, rfl, htraced⟩ := ih
    refine ⟨l, ?_, htraced.ask action⟩
    cases htraced <;> rfl
  | restore _ hreached ih =>
    obtain ⟨l, rfl, htraced⟩ := ih
    refine ⟨l, ?_, htraced.restore (sound_of_reached hp hshares hreached)⟩
    cases htraced <;> rfl

end

/-- Slots are private and persistent.  A journal of any frames and late tasks tells that a slot
changed only while its owner was the innermost running statement, and right before a branch of it
ran if it has any.  So a slot holds what it held if its owner did not run, or ran without running a
branch: a loop with no iteration, a sensor that did not fire.  No two nodes share a slot, and the
outputs of a statement are read from slots of its own.  Code names a slot by a lane of 32 bits, so
no more slots can be told apart. -/
theorem slots_private {c : Catalog} {d : Document} (hc : c.Stocked)
    (h : Program.analyse c d = .ok p)
    (hfit : strategy = .compiled → p.slots.length ≤ 4294967296) {w : Backend (σ × Journal)}
    (hw : Recorded strategy p e b₀ b w) :
    (∃ l, w = b.beside l ∧
      ((w.traceFrame e).1 = (b.runFrame e).1 ∧
        ∀ tasks, (w.traceLate e tasks).1 = (b.runLate e tasks).1) ∧
      l.Guarded p b₀.world.slots ∧ l.running = [] ∧
      (∀ slot, b.world.slots.get slot = (l.latest b₀.world.slots).get slot) ∧
      ∀ (slot : SlotId) (decl : Slot), p.slots[slot]? = some decl →
        (.entered decl.owner ∉ l.phases ∨ p.Forks decl.owner ∧ .branched decl.owner ∉ l.phases) →
        b.world.slots.get slot = b₀.world.slots.get slot) ∧
    ∀ (id : NodeId) (n : Node), p.nodes[id]? = some n → p.Owns id n ∧
      (∀ output slot component, n.outputSlot output = .ok (slot, component) → slot ∈ n.slots) ∧
      ∀ (id' : NodeId) (n' : Node), p.nodes[id']? = some n' → id ≠ id' →
        ∀ slot ∈ n.slots, slot ∉ n'.slots := by
  have hp := Program.wellFormed_of_analyse hc h
  have howns := Program.owns_of_analyse hc h
  obtain ⟨l, rfl, htraced⟩ := traced_of_recorded hp hfit howns (Program.shares_of_analyse hc h) hw
  have hkeeps := htraced.keeps
  refine ⟨⟨l, rfl, ⟨?_, fun tasks => ?_⟩, hkeeps.guarded, hkeeps.inside, hkeeps.get_latest,
    fun slot decl hdecl hidle => ?_⟩, fun id n hget => ⟨howns id n hget,
      fun _ _ _ hslot => Node.mem_of_outputSlot hslot,
      fun id' n' hget' => (howns id n hget).disjoint (howns id' n' hget')⟩⟩
  · obtain ⟨l', hframe, -⟩ := htraced.frame (e := e) hp hfit howns
    exact congrArg Prod.fst hframe
  · obtain ⟨l', hlate, -⟩ := htraced.late (e := e) hp hfit howns tasks
    exact congrArg Prod.fst hlate
  · exact (hkeeps.get_latest slot).trans (hkeeps.guarded.get_latest hdecl hidle)

theorem slots_private_counting : ∃ c p, c.Stocked ∧ Program.analyse c Program.counting = .ok p ∧
    p.slots.map (·.owner) = [2, 4] ∧
    ∀ strategy, ∃ (b₀ b : Backend Headless) (w : Backend (Headless × Journal)),
      Recorded strategy p Headless.engine b₀ b w ∧ ∃ l, w = b.beside l ∧
        l.Guarded p b₀.world.slots := by
  obtain ⟨c, p, hc, hp, -, howners, -⟩ := Program.exists_analyse_counting
  refine ⟨c, p, hc, hp, howners, fun strategy => ?_⟩
  have hfit : p.slots.length ≤ 4294967296 := by
    rw [← List.length_map (f := (·.owner)), howners]
    decide
  obtain ⟨b, hstart⟩ : ∃ b, Backend.start strategy p (Headless.ofSeed 0) = .ok b := by
    cases strategy with
    | interpreter => exact ⟨_, rfl⟩
    | compiled =>
      obtain ⟨b, hb, -⟩ :=
        Compiler.twins_start (Program.wellFormed_of_analyse hc hp) (Headless.ofSeed 0)
      exact ⟨b, hb⟩
  have hrecorded : Recorded strategy p Headless.engine b (b.runFrame Headless.engine).2
      ((b.beside []).traceFrame Headless.engine).2 := (Recorded.begin (.start hstart)).frame
  obtain ⟨⟨l, hl, -, hguarded, -⟩, -⟩ := slots_private hc hp (fun _ => hfit) hrecorded.frame
  exact ⟨_, _, _, hrecorded.frame, l, hl, hguarded⟩

end Backend
end SignalGraph
