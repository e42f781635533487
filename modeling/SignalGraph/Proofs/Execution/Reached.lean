import SignalGraph.Backend
import SignalGraph.Proofs.Analysis.Analysed
import SignalGraph.Proofs.Execution.Depth
import SignalGraph.Proofs.Execution.Statements

/-!
# Reached states

Every state of an interpreted session is typed: between calls, at the start of each statement, and
wherever an input has been evaluated.  No call of a frame fails, and neither does a late task that a
frame has queued.
-/

namespace SignalGraph

/-- A backend that a program was started in, after any calls and whatever its host did between them.
Variables are only restored from what such a backend has saved. -/
inductive Backend.Reached (strategy : Strategy) (p : Program) :
    {σ : Type} → Engine σ → Backend σ → Prop
  | start {σ : Type} {e : Engine σ} {engine : σ} {b : Backend σ} :
    Backend.start strategy p engine = .ok b → Reached strategy p e b
  | restore {σ τ : Type} {e : Engine σ} {e' : Engine τ} {b : Backend σ} {b' : Backend τ} :
    Reached strategy p e b → Reached strategy p e' b' →
    Reached strategy p e (b.restore b'.vars.saved)
  | ask {σ α : Type} {e : Engine σ} {b : Backend σ} (action : StateM σ α) :
    Reached strategy p e b → Reached strategy p e (b.ask action).2
  | frame {σ : Type} {e : Engine σ} {b : Backend σ} :
    Reached strategy p e b → Reached strategy p e (b.runFrame e).2
  | late {σ : Type} {e : Engine σ} {b : Backend σ} (tasks : List NodeId) :
    Reached strategy p e b → Reached strategy p e (b.runLate e tasks).2

namespace Interpreter

variable {σ α : Type} {p : Program} {e : Engine σ} {E : State σ → Prop}

/-- The state after a run, whether it failed or not. -/
def after (run : Run σ α) (s : State σ) : State σ :=
  match run s with
  | .ok _ s' => s'
  | .error _ s' => s'

theorem meets_after {I : State σ → Prop} {run : Run σ α} {Q : α → Prop} (h : Meets I I run Q)
    {s : State σ} (hs : I s) : I (after run s) := by
  have hrun := h s hs
  unfold after
  cases hresult : run s with
  | ok a s' =>
    rw [hresult] at hrun
    exact hrun.2
  | error fault s' =>
    rw [hresult] at hrun
    exact hrun

theorem ok_of_meets {I : State σ → Prop} {run : Run σ α} {Q : α → Prop}
    (h : Meets I (fun _ => False) run Q) {s : State σ} (hs : I s) :
    ∃ a s', run s = .ok a s' ∧ Q a ∧ I s' := by
  have hrun := h s hs
  cases hresult : run s with
  | ok a s' =>
    rw [hresult] at hrun
    exact ⟨a, s', rfl, hrun⟩
  | error fault s' =>
    rw [hresult] at hrun
    exact hrun.elim

theorem typed_start (p : Program) (engine : σ) : (Session.start p engine).state.Typed p := by
  refine ⟨SlotStore.typed_empty p, VariableStore.typed_empty p, Array.size_replicate, ?_, ?_⟩
  · intro k v hv
    have hmem := Array.mem_of_getElem? hv
    exact nomatch (Array.mem_replicate.mp hmem).2
  · exact fun id hid => absurd hid (Array.not_mem_empty id)

theorem typed_clear {s : State σ} (hs : s.Typed p) :
    State.Typed p
      { world := s.world.clearQueue, memo := Array.replicate p.memoPoints.length none } := by
  refine ⟨hs.slots, hs.vars, Array.size_replicate, ?_, ?_⟩
  · intro k v hv
    have hmem := Array.mem_of_getElem? hv
    exact nomatch (Array.mem_replicate.mp hmem).2
  · exact fun id hid => absurd hid (Array.not_mem_empty id)

theorem rank_lt_of_isStatement {rank : NodeId → Nat} (hrank : p.Falls p.Leads rank)
    {ids : List NodeId} (hids : ∀ id ∈ ids, p.IsStatement id) :
    ∀ id ∈ ids, rank id < p.nodes.size + 1 := by
  intro id hid
  obtain ⟨n, hn, -⟩ := hids id hid
  exact Nat.lt_succ_of_lt (hrank.bounded id (Array.getElem?_eq_some_iff.mp hn).1)

theorem meets_run (e : Engine σ) (hp : p.WellFormed) {ids : List NodeId}
    (hids : ∀ id ∈ ids, p.IsStatement id) :
    Meets (State.Typed p) E (run e p ids) fun _ => True := by
  obtain ⟨rank, hrank⟩ := hp.leads
  exact meets_runChain e hp hrank hids (.inr (rank_lt_of_isStatement hrank hids))

/-- A frame returns the late tasks that it has queued. -/
theorem meets_frame (e : Engine σ) (hp : p.WellFormed) :
    Meets (State.Typed p) E (frame e p) fun tasks => ∀ task ∈ tasks, p.IsLate task := by
  refine meets_bind (meets_modify (Q := fun _ => True) (fun s hs => typed_clear hs) trivial)
    fun _ _ => ?_
  refine meets_bind (meets_run e hp hp.entryPoints) fun _ _ => ?_
  refine meets_bind meets_get fun s hs => meets_pure fun task htask => ?_
  exact hs.late task (Array.mem_toList_iff.mp htask)

/-- A late task runs unless its number is no late task's. -/
theorem meets_lateTask (e : Engine σ) (hp : p.WellFormed) {task : NodeId}
    (htask : (∀ s, State.Typed p s → E s) ∨ p.IsLate task) :
    Meets (State.Typed p) E (lateTask e p task) fun _ => True := by
  unfold lateTask
  cases hnode : p.node task with
  | error fault =>
    refine meets_bind (P := fun _ => False) (fun s hs => ?_) fun _ h => h.elim
    refine htask.elim (fun h => h s hs) fun ⟨n, hn, _⟩ => ?_
    rw [Program.node_eq_ok hn] at hnode
    exact nomatch hnode
  | ok n =>
    refine meets_check rfl ?_
    have hget := Program.getElem?_of_node hnode
    by_cases hkind : n.kind = .statement .lateUpdate
    · rw [if_neg (not_not_intro hkind)]
      have hn := hp.nodes task n hget
      refine meets_runBranch hn (fun ids hids => meets_run e hp (hn.targets ids hids)) ?_
      rw [hkind]
      exact Nat.zero_lt_one
    · rw [if_pos hkind]
      refine meets_bind (P := fun _ => False) (meets_throw ?_) fun _ h => h.elim
      refine htask.elim id fun ⟨m, hm, hlate⟩ => ?_
      rw [hget] at hm
      cases hm
      exact absurd hlate hkind

theorem meets_late (e : Engine σ) (hp : p.WellFormed) {tasks : List NodeId}
    (htasks : ∀ task ∈ tasks, (∀ s, State.Typed p s → E s) ∨ p.IsLate task) :
    Meets (State.Typed p) E (late e p tasks) fun _ => True :=
  meets_forM fun task htask => meets_lateTask e hp (htasks task htask)

theorem meets_advance (e : Engine σ) (frames : Nat) :
    Meets (State.Typed p) E (Session.advance e frames) fun _ => True := by
  unfold Session.advance
  split
  · exact meets_pure trivial
  · exact meets_ask fun _ => trivial

theorem perform_snd (s : Session σ) (action : Run σ α) :
    (s.perform action).2 = ⟨s.program, s.frames, after action s.state⟩ := by
  obtain ⟨program, frames, state⟩ := s
  unfold Session.perform after
  dsimp only
  cases action state <;> rfl

theorem perform_of_ok {s : Session σ} {action : Run σ α} {a : α} {s' : State σ}
    (h : action s.state = .ok a s') : s.perform action = (.ok a, ⟨s.program, s.frames, s'⟩) := by
  obtain ⟨program, frames, state⟩ := s
  unfold Session.perform
  dsimp only at h ⊢
  rw [h]

theorem runFrame_of_ok {s : Session σ} {tasks : List NodeId} {s' : State σ}
    (h : (do Session.advance e s.frames; frame e s.program) s.state = .ok tasks s') :
    (Backend.interpreted s).runFrame e =
      (.ok tasks, .interpreted ⟨s.program, s.frames + 1, s'⟩) := by
  have hperform := perform_of_ok (s := { s with frames := s.frames + 1 }) h
  rw [Backend.runFrame, Session.runFrame, hperform]
  rfl

theorem runLate_of_ok {s : Session σ} {tasks : List NodeId} {s' : State σ}
    (h : late e s.program tasks s.state = .ok () s') :
    (Backend.interpreted s).runLate e tasks =
      (.ok (), .interpreted ⟨s.program, s.frames, s'⟩) := by
  rw [Backend.runLate, Session.runLate, perform_of_ok h]
  rfl

/-- A reached backend is an interpreted session of the program in a typed state. -/
theorem typed_of_reached (hp : p.WellFormed) {σ : Type} {e : Engine σ} {b : Backend σ}
    (h : Backend.Reached .interpreter p e b) :
    ∃ s, b = .interpreted s ∧ s.program = p ∧ s.state.Typed p := by
  induction h with
  | start hstart =>
    cases hstart
    exact ⟨_, rfl, rfl, typed_start p _⟩
  | restore _ _ ih ih' =>
    obtain ⟨⟨program, frames, world, memo⟩, rfl, hprogram, hs⟩ := ih
    obtain ⟨s', rfl, -, hs'⟩ := ih'
    exact ⟨_, rfl, hprogram, hs.restore (VariableStore.entryTyped_of_saved hs'.vars)⟩
  | ask action _ ih =>
    obtain ⟨⟨program, frames, world, memo⟩, rfl, hprogram, hs⟩ := ih
    exact ⟨_, rfl, hprogram, hs.ask action⟩
  | @frame σ e b _ ih =>
    obtain ⟨s, rfl, rfl, hs⟩ := ih
    refine ⟨(s.runFrame e).2, rfl, ?_, ?_⟩
    · rw [Session.runFrame, perform_snd]
    · rw [Session.runFrame, perform_snd]
      refine meets_after (Q := fun _ => True) ?_ hs
      exact meets_bind (meets_advance e _) fun _ _ =>
        meets_mono (meets_frame e hp) fun _ _ => trivial
  | @late σ e b tasks _ ih =>
    obtain ⟨s, rfl, rfl, hs⟩ := ih
    refine ⟨(s.runLate e tasks).2, rfl, ?_, ?_⟩
    · rw [Session.runLate, perform_snd]
    · rw [Session.runLate, perform_snd]
      exact meets_after (meets_late e hp fun _ _ => .inl fun _ h => h) hs

end Interpreter
end SignalGraph
