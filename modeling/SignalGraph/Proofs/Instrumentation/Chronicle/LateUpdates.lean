import SignalGraph.Proofs.Instrumentation.Chronicle.Backends

/-!
# Late updates

A frame queues the late updates that it executes, in order, and runs none of their bodies.  The
bodies run when the tasks are handed back, one after the other.  What they execute queues nothing
for a later frame.
-/

namespace SignalGraph

variable {σ : Type} {p : Program}

namespace Chronicle

/-- No late update runs its body: it ends as soon as it begins. -/
def Postponed (p : Program) (l : Chronicle) : Prop :=
  ∀ id, p.IsLate id → .branched id ∉ l ∧
    ∀ before after, l = before ++ .entered id :: after → ∃ rest, after = .left id :: rest

variable {l l' : Chronicle} {id : NodeId}

theorem postponed_of_not_mem (h : ∀ id, p.IsLate id → .branched id ∉ l ∧ .entered id ∉ l) :
    l.Postponed p := by
  refine fun id hlate => ⟨(h id hlate).1, fun before after heq => ?_⟩
  exact absurd (heq ▸ List.mem_append_right _ List.mem_cons_self) (h id hlate).2

theorem postponed_append (h : l.Postponed p) (h' : l'.Postponed p) : Postponed p (l ++ l') := by
  refine fun id hlate => ⟨fun hmem => ?_, fun before after heq => ?_⟩
  · exact (List.mem_append.mp hmem).elim (h id hlate).1 (h' id hlate).1
  · rcases split_append heq with ⟨rest, hl, rfl⟩ | ⟨first, -, hl'⟩
    · obtain ⟨rest', rfl⟩ := (h id hlate).2 before rest hl
      exact ⟨rest' ++ l', rfl⟩
    · exact (h' id hlate).2 first after hl'

end Chronicle

namespace Program

open Chronicle

variable {id : NodeId} {n : Node} {st : Statement}

theorem not_isLate_of_kind (hget : p.nodes[id]? = some n) (hkind : n.kind = .statement st)
    (hst : st ≠ .lateUpdate) : ¬p.IsLate id := by
  rintro ⟨n', hget', hlate⟩
  cases hget.symm.trans hget'
  exact hst (Kind.statement.inj (hkind.symm.trans hlate))

theorem not_isLate_of_ordinary (hget : p.nodes[id]? = some n) (hn : n.Ordinary) : ¬p.IsLate id := by
  obtain ⟨st, hkind, hspecial⟩ := hn
  refine not_isLate_of_kind hget hkind ?_
  rintro rfl
  cases hspecial

/-- A special statement is no late update, or it queues itself and does nothing else. -/
theorem late_of_special {h h' : Holdings} {es : Chronicle} (hget : p.nodes[id]? = some n)
    (hs : Special id n h es h') : p.IsLate id ∧ es = [] ∧ h' = h.queue id ∨
      ¬p.IsLate id ∧ h'.late = h.late := by
  cases hs with
  | late hkind => exact .inl ⟨⟨n, hget, hkind⟩, rfl, rfl⟩
  | again hkind | first hkind | named hkind =>
    exact .inr ⟨not_isLate_of_kind hget hkind (fun h => nomatch h), rfl⟩
  | pointed hkind hfollows =>
    refine .inr ⟨not_isLate_of_kind hget hkind ?_, rfl⟩
    rintro rfl
    cases hfollows
  | missing hkind hst =>
    refine .inr ⟨not_isLate_of_kind hget hkind ?_, rfl⟩
    rintro rfl
    rcases hst with hfollows | ⟨type, hst⟩
    · cases hfollows
    · cases hst

theorem carries_postponed : Carries p fun _ es _ => es.Postponed p where
  quiet _ es hes := postponed_of_not_mem fun id _ =>
    ⟨(fun hmem => nomatch hes _ hmem), hes.not_entered id⟩
  append := postponed_append
  entered id n _ hget hn := by
    refine postponed_of_not_mem fun id' hlate => ⟨fun hmem => ?_, fun hmem => ?_⟩
    · cases List.mem_singleton.mp hmem
    · cases List.mem_singleton.mp hmem
      exact not_isLate_of_ordinary hget hn hlate
  branched id n _ hget hn := by
    refine postponed_of_not_mem fun id' hlate => ⟨fun hmem => ?_, fun hmem => ?_⟩
    · cases List.mem_singleton.mp hmem
      exact not_isLate_of_ordinary hget hn hlate
    · cases List.mem_singleton.mp hmem
  left id n _ _ _ := by
    refine postponed_of_not_mem fun id' hlate => ⟨fun hmem => ?_, fun hmem => ?_⟩
    · cases List.mem_singleton.mp hmem
    · cases List.mem_singleton.mp hmem
  store _ _ _ _ _ _ _ _ := postponed_of_not_mem fun _ _ => ⟨List.not_mem_nil, List.not_mem_nil⟩
  special id n h h' es hget hspecial := by
    intro id' hlate
    constructor
    · intro hmem
      rcases List.mem_append.mp hmem with hmem | hmem
      · rcases List.mem_cons.mp hmem with heq | hmem
        · cases heq
        · cases hspecial.flat _ hmem
      · cases List.mem_singleton.mp hmem
    · intro before after heq
      obtain ⟨rfl, rfl, rfl⟩ := split_special hspecial.flat heq
      rcases late_of_special hget hspecial with ⟨-, rfl, -⟩ | ⟨hnot, -⟩
      · exact ⟨[], rfl⟩
      · exact absurd hlate hnot

def Queues (p : Program) : Tale := fun h es h' =>
  h'.late.toList = h.late.toList ++ es.executed.filter (· ∈ p.lateNodes)

theorem carries_queues : Carries p p.Queues where
  quiet h es hes := by
    rw [Queues, hes.executed]
    exact (List.append_nil _).symm
  append ha hb := by
    rw [Queues] at ha hb ⊢
    rw [hb, ha, executed_append, List.filter_append, List.append_assoc]
  entered id n h hget hn := by
    have hnot : id ∉ p.lateNodes :=
      fun hmem => not_isLate_of_ordinary hget hn (mem_lateNodes.mp hmem)
    have hexecuted : executed [.entered id] = [id] := rfl
    rw [Queues, hexecuted, List.filter_cons_of_neg (by simpa using hnot)]
    exact (List.append_nil _).symm
  branched _ _ _ _ _ := (List.append_nil _).symm
  left _ _ _ _ _ := (List.append_nil _).symm
  store _ _ _ _ _ _ _ _ := (List.append_nil _).symm
  special id n h h' es hget hspecial := by
    rw [Queues, executed_special hspecial.flat]
    rcases late_of_special hget hspecial with ⟨hlate, -, rfl⟩ | ⟨hnot, heq⟩
    · have hmem : id ∈ p.lateNodes := mem_lateNodes.mpr hlate
      rw [List.filter_cons_of_pos (by simpa using hmem)]
      exact Array.toList_push
    · have hmem : id ∉ p.lateNodes := fun hmem => hnot (mem_lateNodes.mp hmem)
      rw [List.filter_cons_of_neg (by simpa using hmem), heq]
      exact (List.append_nil _).symm

variable {h h' : Holdings} {es : Chronicle}

theorem postponed_opening (frames : Nat) : (opening frames).Postponed p :=
  postponed_of_not_mem fun _ _ => ⟨(fun hmem => (mem_opening hmem).elim nofun nofun),
    fun hmem => (mem_opening hmem).elim nofun nofun⟩

theorem postponed_task (task : NodeId) : Postponed p [.task task] :=
  postponed_of_not_mem fun _ _ => ⟨(fun hmem => nomatch List.mem_singleton.mp hmem),
    fun hmem => nomatch List.mem_singleton.mp hmem⟩

theorem executed_opening (frames : Nat) : (opening frames).executed = [] := by
  unfold opening
  split <;> rfl

/-- A frame begins with an empty queue. -/
theorem FrameRun.late (hrun : p.FrameRun h es h') :
    h'.late.toList = es.executed.filter (· ∈ p.lateNodes) := by
  obtain ⟨frames, ran, rfl, hran⟩ := hrun
  rw [executed_append, executed_opening, List.nil_append]
  exact carries_queues.ran hran

theorem FrameRun.postponed (hrun : p.FrameRun h es h') : es.Postponed p :=
  hrun.carries carries_postponed fun frames _ => postponed_opening frames

theorem Bodies.postponed {tasks : List NodeId} (hrun : p.Bodies tasks h es h') : es.Postponed p :=
  hrun.carries carries_postponed fun task _ => postponed_task task

/-- A call that breaks off was given a task that is none. -/
theorem Broken.not_isLate {tasks : List NodeId} (hrun : p.Broken tasks h es h') :
    ∃ task ∈ tasks, ¬p.IsLate task := by
  induction hrun with
  | here hnot => exact ⟨_, List.mem_cons_self, hnot⟩
  | cons _ _ ih =>
    obtain ⟨task, hmem, hnot⟩ := ih
    exact ⟨task, List.mem_cons_of_mem _ hmem, hnot⟩

/-- A late update at the end of another one's body. -/
def deferring : Document where
  main := {
    id := 0
    nodes := [{ pos := ⟨0, 0, 0⟩, kind := 566 }, { pos := ⟨4, 0, 4⟩, kind := 566 },
      { pos := ⟨8, 0, 8⟩, kind := 252 }]
    connections := [.between ⟨0, 0, 0⟩ ⟨15, 1, 3⟩ ⟨4, 0, 4⟩ ⟨3, 1, 15⟩,
      .between ⟨4, 0, 4⟩ ⟨15, 1, 3⟩ ⟨8, 0, 8⟩ ⟨3, 1, 15⟩] }

theorem exists_analyse_deferring : ∃ c p, c.Stocked ∧ analyse c deferring = .ok p ∧
    p.nodes.size = 3 ∧ p.slots.length = 0 ∧ p.vars.length = 0 ∧ p.entryPoints = [0] ∧
    p.lateNodes = [0, 1] := by
  have hsome : (Catalog.stock.bind fun c => analyse c deferring).toOption.any (fun p =>
      p.nodes.size = 3 ∧ p.slots.length = 0 ∧ p.vars.length = 0 ∧ p.entryPoints = [0] ∧
        p.lateNodes = [0, 1]) = true := by
    decide +kernel
  obtain ⟨c, p, -, hc, hp, hsizes⟩ := Catalog.exists_stock hsome
  exact ⟨c, p, hc, hp, of_decide_eq_true hsizes⟩

end Program

namespace Backend

variable {e : Engine σ} {strategy : Strategy} {b : Backend σ}

/-- Late updates are scheduled.  A frame returns the late updates that it has executed, in order,
each as often as it was executed, and runs no body of theirs.  When late tasks are run, their bodies
run one after the other in the given order.  A late update that is executed in one of them does not
run its own body, and as every list that a later frame returns is made of what that frame executes,
it is in none.  Compiled code keeps ids in words of 32 bits, and the limits on the size of the
program are those of these words. -/
theorem late_updates_scheduled {c : Catalog} {d : Document} (hc : c.Stocked)
    (h : Program.analyse c d = .ok p) (hfit : strategy = .compiled → p.Addressable)
    {w : Backend (σ × Chronicle)} (hw : Chronicled strategy p e b w) :
    ∃ l, w = b.beside l ∧
      (∃ tasks es, b.runFrame e = (.ok tasks, (b.runFrame e).2) ∧
        w.tellFrame e = (.ok tasks, (b.runFrame e).2.beside (l ++ es)) ∧
        p.FrameRun b.world.holdings es (b.runFrame e).2.world.holdings ∧
        tasks = es.executed.filter (· ∈ p.lateNodes) ∧ es.Postponed p) ∧
      ∀ tasks, (∀ task ∈ tasks, p.IsLate task) → ∃ es,
        b.runLate e tasks = (.ok (), (b.runLate e tasks).2) ∧
        w.tellLate e tasks = (.ok (), (b.runLate e tasks).2.beside (l ++ es)) ∧
        p.Bodies tasks b.world.holdings es (b.runLate e tasks).2.world.holdings ∧
        es.Postponed p := by
  have hp := Program.wellFormed_of_analyse hc h
  have howns := Program.owns_of_analyse hc h
  obtain ⟨l, rfl, htold, -⟩ := told_of_chronicled hp hfit howns (Program.shares_of_analyse hc h) hw
  refine ⟨l, rfl, ?_, fun tasks htasks => ?_⟩
  · obtain ⟨tasks, es, hframe, htell, hqueue, hrun, -⟩ := htold.frame (e := e) hp hfit howns
    exact ⟨tasks, es, hframe, htell, hrun, hqueue.trans hrun.late, hrun.postponed⟩
  · obtain ⟨es, htell, hrun, -⟩ := htold.late (e := e) hp hfit howns tasks
    cases hresult : (b.runLate e tasks).1 with
    | error fault =>
      rw [hresult] at hrun
      obtain ⟨task, hmem, hnot⟩ := Program.Broken.not_isLate hrun
      exact absurd (htasks task hmem) hnot
    | ok =>
      rw [hresult] at htell hrun
      exact ⟨es, Prod.ext hresult rfl, htell, hrun, hrun.postponed⟩

theorem late_updates_scheduled_deferring : ∃ c p, c.Stocked ∧
    Program.analyse c Program.deferring = .ok p ∧ p.lateNodes = [0, 1] ∧
    ∀ strategy, ∃ (b : Backend Headless) (w : Backend (Headless × Chronicle)),
      Chronicled strategy p Headless.engine b w ∧ ∃ (l : Chronicle) (tasks : List NodeId)
        (es : Chronicle), w = b.beside l ∧
        b.runFrame Headless.engine = (.ok tasks, (b.runFrame Headless.engine).2) ∧
        tasks = es.executed.filter (· ∈ p.lateNodes) ∧ es.Postponed p := by
  obtain ⟨c, p, hc, hp, hnodes, hslots, hvars, -, hlate⟩ := Program.exists_analyse_deferring
  refine ⟨c, p, hc, hp, hlate, fun strategy => ?_⟩
  have hfit : p.Addressable := ⟨by omega, by omega, by omega⟩
  obtain ⟨b, w, hchronicled, -⟩ := exists_chronicled (Program.wellFormed_of_analyse hc hp)
    strategy Headless.engine (Headless.ofSeed 0) 1
  obtain ⟨l, hl, ⟨tasks, es, hframe, -, -, htasks, hpostponed⟩, -⟩ :=
    late_updates_scheduled hc hp (fun _ => hfit) (hchronicled.late [0])
  exact ⟨_, _, hchronicled.late [0], l, tasks, es, hl, hframe, htasks, hpostponed⟩

end Backend
end SignalGraph
