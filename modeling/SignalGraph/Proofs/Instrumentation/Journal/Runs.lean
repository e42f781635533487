import SignalGraph.Proofs.Instrumentation.Journal.Basic
import SignalGraph.Proofs.Instrumentation.Recorders

/-!
# Traced runs

The interpreter with a journal.  It does what the interpreter does, and in its journal no slot
changes but by its owner.
-/

namespace SignalGraph
namespace Interpreter

open Journal

variable {σ L : Type}

def record (phase : Phase) : Run (σ × Journal) Unit := onWorld (World.record phase)

/-- Writes down where a statement begins, where one of its branches does, and where it ends. -/
def tracing (e : Engine σ) : Recorder (σ × Journal) where
  engine := e.beside Journal
  entered id := record (.entered id)
  branched id := record (.branched id)
  left id := record (.left id)

/-! ## Outputs

To compute an output is to leave the slots alone. -/

abbrev OnSlots (P : SlotStore → L → Prop) : State σ → L → Prop := fun s l => P s.world.slots l

variable {P : SlotStore → L → Prop} {n : Node} {heard : Producer → Run (σ × L) Value}
  {produce : Producer → Run σ Value}

theorem steady_onSlots : Steady (OnSlots (σ := σ) P) := by
  intro s w l heq h
  show P w.slots l
  rw [heq]
  exact h

theorem echoes_memoized (k : MemoId) {compute' : Run (σ × L) Value} {compute : Run σ Value}
    (h : Echoes (OnSlots P) compute' compute) :
    Echoes (OnSlots P) (memoized k compute') (memoized k compute) := by
  refine mirrors_get fun s l => ?_
  have hmemo : (s.beside l).memo = s.memo := rfl
  rw [hmemo]
  cases (s.memo[k]?).join with
  | some v => exact mirrors_done
  | none =>
    refine mirrors_bind h fun v => mirrors_bind (J := fun _ => OnSlots P) ?_ fun _ => mirrors_done
    exact fun s l hs => ⟨l, rfl, hs⟩

theorem echoes_readWire (h : ∀ source, Echoes (OnSlots P) (heard source) (produce source))
    (w : Wire) :
    Echoes (OnSlots P) (readWire heard w) (readWire produce w) := by
  have hfetched : Echoes (OnSlots P) (fetch heard w) (fetch produce w) := by
    unfold fetch
    cases w.memo with
    | none => exact h w.source
    | some k => exact echoes_memoized k (h w.source)
  rw [readWire_eq, readWire_eq]
  refine mirrors_bind hfetched fun v => ?_
  split
  · exact echoes_load _ _
  · exact mirrors_done

theorem hears_of_echoes (h : ∀ source, Echoes (OnSlots P) (heard source) (produce source))
    (n : Node) :
    Hears (OnSlots P) heard n produce n := by
  have hoperand : ∀ o, Echoes (OnSlots P) (readOperand heard o) (readOperand produce o) := by
    intro o
    cases o with
    | default v => exact mirrors_done
    | absent => exact mirrors_done
    | wire w => exact echoes_readWire h w
  refine ⟨fun i => echoes_check fun o _ => hoperand o, fun i => echoes_check fun o _ => ?_, rfl⟩
  cases o with
  | absent => exact mirrors_done
  | default v => exact mirrors_map (hoperand (.default v))
  | wire w => exact mirrors_map (hoperand (.wire w))

theorem echoes_outputs {P : SlotStore → Journal → Prop} (e : Engine σ) (p : Program) :
    ∀ (depth : Nat) (source : Producer), Echoes (OnSlots P) ((tracing e).produce p depth source)
      (Interpreter.produce e p depth source)
  | 0, _ => mirrors_throw fun _ _ _ => trivial
  | depth + 1, source => by
    refine echoes_check fun n _ => ?_
    cases n.statement with
    | true => exact echoes_readSlot n source.output
    | false =>
      have hears := hears_of_echoes (P := P) (echoes_outputs e p depth) n
      cases n.kind with
      | expression x => exact echoes_evaluate steady_onSlots e hears source.output x
      | _ => exact mirrors_throw fun _ _ _ => trivial

variable {p : Program} {e : Engine σ} {first : SlotStore} {running : List NodeId}
  {next : Option Phase} {id : NodeId}

/-- What a journal keeps while the statements `running` run. -/
abbrev Inside (p : Program) (first : SlotStore) (running : List NodeId) (next : Option Phase) :
    State σ → Journal → Prop :=
  OnSlots (Keeps p first running next)

theorem minds_inside (hget : p.nodes[id]? = some n) (howns : p.Owns id n) :
    Minds (σ := σ) (Inside p first (id :: running) none)
      (Inside p first (id :: running) (some (.branched id))) n where
  steady := steady_onSlots
  stored _ _ h := h.expect _
  store slot hslot v s l h := by
    obtain ⟨decl, hdecl, howner⟩ := howns slot hslot
    exact h.store hdecl howner v
  ended hbranches _ _ h := h.settle hget hbranches

theorem record_beside (phase : Phase) (s : State σ) (l : Journal) :
    record phase (s.beside l) = .ok () (s.beside (⟨phase, s.world.slots⟩ :: l)) := rfl

/-- Whatever statements run, the run of a chain comes back to them. -/
theorem carries_tracing (e : Engine σ) (howns : ∀ id n, p.nodes[id]? = some n → p.Owns id n) :
    (tracing e).Carries e p
      (fun _ run' run => ∀ running, Echoes (Inside p first running none) run' run)
      fun _ run' run => ∀ running, Echoes (Inside p first running none) run' run where
  nil _ := mirrors_done
  cons ha hb running := mirrors_bind (ha running) fun _ => hb running
  throw _ := mirrors_throw fun _ _ _ => trivial
  statement {id n st chain' chain} hget hkind hchain running := by
    have hfollows : Follows (Inside p first (id :: running) none)
        (Inside p first (id :: running) (some (.branched id))) ((tracing e).branches chain' id)
        chain n := fun ids _ =>
      mirrors_note (record_beside _) (fun _ _ h => h.branch) (hchain ids _)
    have hexecute := echoes_execute (minds_inside hget (howns id n hget)) e p.vars
      (hears_of_echoes (echoes_outputs e p (p.nodes.size + 1)) n) hfollows id hkind
    exact mirrors_note (record_beside _) (fun _ _ h => h.enter id)
      (mirrors_ended (record_beside _) hexecute fun _ _ h => h.leave)
  followed _ ha hb running := mirrors_bind (ha running) fun _ => hb running

def tracedFrame (e : Engine σ) (p : Program) : Run (σ × Journal) (List NodeId) :=
  frameWith ((tracing e).run p) p

def tracedLate (e : Engine σ) (p : Program) (tasks : List NodeId) : Run (σ × Journal) Unit :=
  tasks.forM (lateTaskWith ((tracing e).run p) p)

def Traced (p : Program) (first : SlotStore) (s : State σ) (l : Journal) : Prop :=
  s.Typed p ∧ Keeps p first [] none s.world.slots l

theorem mirrors_tracedFrame (hp : p.WellFormed)
    (howns : ∀ id n, p.nodes[id]? = some n → p.Owns id n) (frames : Nat)
    {E : State σ → Journal → Prop} :
    Mirrors State.beside (Traced p first) (fun _ => Traced p first) E
      (do Session.advance (e.beside Journal) frames; tracedFrame e p)
      (do Session.advance e frames; frame e p) :=
  mirrors_mono (mirrors_frameWith e hp (echoes_advance steady_onSlots e frames) (fun _ _ h => h)
    ((carries_tracing e howns).chain [])) fun _ _ _ h => h.2

theorem mirrors_tracedLate (hp : p.WellFormed)
    (howns : ∀ id n, p.nodes[id]? = some n → p.Owns id n) (tasks : List NodeId) :
    Mirrors State.beside (Traced p first) (fun _ => Traced p first) (Traced p first)
      (tracedLate e p tasks) (late e p tasks) :=
  mirrors_forM fun _ _ =>
    mirrors_lateTaskWith e hp (fun _ _ _ _ _ => (carries_tracing e howns).chain []) fun _ _ _ h => h

end Interpreter
end SignalGraph
