import SignalGraph.Proofs.Analysis.WellFormed
import SignalGraph.Proofs.Instrumentation.Ledger.Basic

/-!
# Journals

A run can keep a journal: which statements begin, run one of their branches, and end, and what the
slots hold at each of these moments.  It tells whether a slot changed only while its owner ran.
-/

namespace SignalGraph

inductive Phase where
  /-- The statement begins. -/
  | entered (id : NodeId)
  /-- One of its branches begins. -/
  | branched (id : NodeId)
  /-- The statement ends; what follows it is yet to run. -/
  | left (id : NodeId)
  deriving DecidableEq

/-- A phase with what the slots hold when it begins. -/
structure Moment where
  phase : Phase
  slots : SlotStore

/-- Moments, the latest first. -/
abbrev Journal := List Moment

def Program.Forks (p : Program) (id : NodeId) : Prop :=
  ∃ n, p.nodes[id]? = some n ∧ n.kind.shape.branches ≠ []

def World.record {σ : Type} (phase : Phase) : World (σ × Journal) → World (σ × Journal)
  | ⟨(engine, l), vars, slots, late⟩ => ⟨(engine, ⟨phase, slots⟩ :: l), vars, slots, late⟩

namespace Journal

def phases (l : Journal) : List Phase := l.map Moment.phase

/-- The statements that began and did not end yet, the innermost first. -/
def running : Journal → List NodeId
  | [] => []
  | ⟨.entered id, _⟩ :: earlier => id :: running earlier
  | ⟨.branched _, _⟩ :: earlier => running earlier
  | ⟨.left _, _⟩ :: earlier => (running earlier).tail

/-- What the slots held at the latest moment of a journal that began with `first`. -/
def latest (first : SlotStore) : Journal → SlotStore
  | [] => first
  | m :: _ => m.slots

/-- Since the latest moment only slots of the innermost running statement changed, and those of a
statement with branches only right before it runs one of them. -/
def Owns (p : Program) (first : SlotStore) (l : Journal) (next : Option Phase) (slots : SlotStore) :
    Prop :=
  ∀ slot, slots.get slot ≠ (l.latest first).get slot → ∃ decl, p.slots[slot]? = some decl ∧
    l.running.head? = some decl.owner ∧
    (p.Forks decl.owner → next = some (.branched decl.owner))

/-- A journal by which no slot changed but by its owner. -/
def Guarded (p : Program) (first : SlotStore) : Journal → Prop
  | [] => True
  | m :: earlier => Owns p first earlier (some m.phase) m.slots ∧ Guarded p first earlier

/-- The journal of a run that is inside the `running` statements and comes to the phase `next`, if
that is known. -/
structure Keeps (p : Program) (first : SlotStore) (running : List NodeId) (next : Option Phase)
    (slots : SlotStore) (l : Journal) : Prop where
  guarded : l.Guarded p first
  inside : l.running = running
  owns : l.Owns p first next slots

variable {p : Program} {first slots : SlotStore} {l : Journal} {running : List NodeId}
  {next : Option Phase} {id : NodeId} {slot : SlotId} {decl : Slot}

theorem keeps_start (p : Program) (first : SlotStore) : Keeps p first [] none first [] :=
  ⟨trivial, rfl, fun _ h => absurd rfl h⟩

/-- A run that may go on anyhow may go on to a phase. -/
theorem Keeps.expect (h : Keeps p first running none slots l) (phase : Phase) :
    Keeps p first running (some phase) slots l := by
  refine ⟨h.guarded, h.inside, fun slot hne => ?_⟩
  obtain ⟨decl, hdecl, hrunning, hnext⟩ := h.owns slot hne
  exact ⟨decl, hdecl, hrunning, fun hforks => nomatch hnext hforks⟩

theorem Keeps.settle (h : Keeps p first (id :: running) next slots l) {n : Node}
    (hget : p.nodes[id]? = some n) (hbranches : n.kind.shape.branches = []) :
    Keeps p first (id :: running) none slots l := by
  refine ⟨h.guarded, h.inside, fun slot hne => ?_⟩
  obtain ⟨decl, hdecl, hrunning, -⟩ := h.owns slot hne
  refine ⟨decl, hdecl, hrunning, fun ⟨m, hm, hforks⟩ => ?_⟩
  rw [h.inside] at hrunning
  cases hrunning
  cases hget.symm.trans hm
  exact absurd hbranches hforks

theorem get_set_ne {k : SlotId} (h : slot ≠ k) (v : Value) :
    (slots.set slot v).get k = slots.get k := by
  unfold SlotStore.get SlotStore.set
  rw [Array.getD_eq_getD_getElem?, Array.getD_eq_getD_getElem?, Array.getElem?_setIfInBounds_ne h]

/-- The innermost running statement changes a slot of its own. -/
theorem Keeps.store (h : Keeps p first (id :: running) (some (.branched id)) slots l)
    (hdecl : p.slots[slot]? = some decl) (howner : decl.owner = id) (v : Value) :
    Keeps p first (id :: running) (some (.branched id)) (slots.set slot v) l := by
  refine ⟨h.guarded, h.inside, fun k hne => ?_⟩
  by_cases heq : slot = k
  · subst heq
    refine ⟨decl, hdecl, ?_, fun _ => ?_⟩
    · rw [h.inside, howner]
      rfl
    · rw [howner]
  · rw [get_set_ne heq] at hne
    exact h.owns k hne

theorem Keeps.note {phase : Phase} (h : Keeps p first running (some phase) slots l) :
    Keeps p first (Journal.running (⟨phase, slots⟩ :: l)) none slots (⟨phase, slots⟩ :: l) :=
  ⟨⟨h.owns, h.guarded⟩, rfl, fun _ hne => absurd rfl hne⟩

theorem Keeps.enter (h : Keeps p first running none slots l) (id : NodeId) :
    Keeps p first (id :: running) none slots (⟨.entered id, slots⟩ :: l) := by
  have hnote := (h.expect (.entered id)).note
  rwa [Journal.running, h.inside] at hnote

theorem Keeps.branch (h : Keeps p first running (some (.branched id)) slots l) :
    Keeps p first running none slots (⟨.branched id, slots⟩ :: l) := by
  have hnote := h.note
  rwa [Journal.running, h.inside] at hnote

theorem Keeps.leave (h : Keeps p first (id :: running) none slots l) :
    Keeps p first running none slots (⟨.left id, slots⟩ :: l) := by
  have hnote := (h.expect (.left id)).note
  rwa [Journal.running, h.inside] at hnote

/-- Nothing changes while nothing runs. -/
theorem Keeps.get_latest (h : Keeps p first [] none slots l) (slot : SlotId) :
    slots.get slot = (l.latest first).get slot := by
  refine Classical.byContradiction fun hne => ?_
  obtain ⟨decl, -, hrunning, -⟩ := h.owns slot hne
  rw [h.inside] at hrunning
  cases hrunning

theorem entered_of_mem_running : ∀ {l : Journal}, id ∈ l.running → .entered id ∈ l.phases
  | ⟨.entered other, slots⟩ :: earlier, h => by
    rcases List.mem_cons.mp h with rfl | h
    · exact List.mem_cons_self
    · exact List.mem_cons_of_mem _ (entered_of_mem_running h)
  | ⟨.branched _, _⟩ :: _, h => List.mem_cons_of_mem _ (entered_of_mem_running h)
  | ⟨.left _, _⟩ :: _, h => List.mem_cons_of_mem _ (entered_of_mem_running (List.mem_of_mem_tail h))

/-- A slot holds what it held at first if at no moment it was its owner's to change. -/
theorem Guarded.get_latest (hdecl : p.slots[slot]? = some decl) : ∀ {l : Journal},
    l.Guarded p first →
    (.entered decl.owner ∉ l.phases ∨ p.Forks decl.owner ∧ .branched decl.owner ∉ l.phases) →
    (l.latest first).get slot = first.get slot
  | [], _, _ => rfl
  | m :: earlier, hguarded, hidle => by
    have hearlier := hguarded.2.get_latest hdecl
      (hidle.imp (fun h hmem => h (List.mem_cons_of_mem _ hmem))
        fun h => ⟨h.1, fun hmem => h.2 (List.mem_cons_of_mem _ hmem)⟩)
    rw [← hearlier]
    refine Classical.byContradiction fun hne => ?_
    obtain ⟨decl', hdecl', hrunning, hnext⟩ := hguarded.1 slot hne
    rw [hdecl] at hdecl'
    cases hdecl'
    rcases hidle with hidle | ⟨hforks, hidle⟩
    · exact hidle (List.mem_cons_of_mem _ (entered_of_mem_running (List.mem_of_mem_head? hrunning)))
    · refine hidle ?_
      rw [← Option.some.inj (hnext hforks)]
      exact List.mem_cons_self

end Journal
end SignalGraph
