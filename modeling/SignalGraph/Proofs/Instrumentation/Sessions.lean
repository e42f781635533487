import SignalGraph.Compiler.Session
import SignalGraph.Proofs.Emission.TotalCalls
import SignalGraph.Proofs.Instrumentation.Code

/-!
# Mirrored sessions

Compiled sessions with something extra.  If the functions do the same with it, then so do frames and
late tasks, which never fail, except for a task that is none.
-/

namespace SignalGraph
namespace Compiler

open Wasm Machine

variable {σ τ L α : Type} {p : Program} {c : Wasm.Module} {e : Engine σ}

def callWith (run : Nat → List Lane → Exec (World τ) (List Lane)) (m : Wasm.Module) (name : String)
    (lanes : List Lane) : EStateM Fault (State τ) Unit := fun s =>
  match (do
      let f ← orStuck (m.export? name)
      run f lanes.reverse : Exec (World τ) (List Lane)) s with
  | .ok _ s => .ok () s
  | .error _ s => .error .invalidModule s

def frameWith (run : Nat → List Lane → Exec (World τ) (List Lane)) (m : Wasm.Module) :
    EStateM Fault (State τ) (List NodeId) := do
  onWorld World.clearQueue
  callWith run m frameName []
  return (← get).host.late.toList

def lateTaskWith (run : Nat → List Lane → Exec (World τ) (List Lane)) (p : Program)
    (m : Wasm.Module) (task : NodeId) : EStateM Fault (State τ) Unit := do
  match p.node task with
  | .error fault => throw fault
  | .ok n =>
    if n.kind ≠ .statement .lateUpdate then throw (.breach (.notLate task n.kind))
    callWith run m lateName [.i32 (Int32.ofNat task)]

variable {run' : Nat → List Lane → Exec (World (σ × L)) (List Lane)}
  {I I' J : State σ → L → Prop} {E : State σ → L → Prop}

abbrev outermost (e : Engine σ) (p : Program) (c : Wasm.Module) :
    Nat → List Lane → Exec (World σ) (List Lane) :=
  invoke c (Host.functions e p) (c.functions.size + 2)

/-- A call that returns does the same with something extra, and leaves the globals of their
types. -/
theorem mirrors_callWith {name : String} {f : Nat} {lanes : List Lane}
    (hexport : c.export? name = some f)
    (hrun : Escorts I (fun _ => J) (run' f lanes.reverse) (outermost e p c f lanes.reverse))
    (hreturns : ∀ t, Settled c t → ∃ outs t', outermost e p c f lanes.reverse t = .ok outs t' ∧
      Settled c t') :
    Mirrors Machine.beside (fun t l => Settled c t ∧ I t l) (fun _ t l => Settled c t ∧ J t l) E
      (callWith run' c name lanes) (call e p c name lanes) := by
  rintro t l ⟨ht, hI⟩
  obtain ⟨outs, t', hok, ht'⟩ := hreturns t ht
  have hmirror := hrun t l hI
  rw [hok] at hmirror
  obtain ⟨l', hok', hJ⟩ := hmirror
  have hcall : call e p c name lanes t = .ok () t' := by
    have hfound : Machine.run c (Host.functions e p) name lanes t = .ok outs t' := by
      unfold Machine.run
      rw [hexport]
      exact hok
    unfold call
    rw [hfound]
  rw [hcall]
  have hfound : (orStuck (some f) >>= fun f => run' f lanes.reverse) (t.beside l) =
      .ok outs (t'.beside l') := hok'
  refine ⟨l', ?_, ht', hJ⟩
  unfold callWith
  rw [hexport, hfound]

theorem mirrors_frameWith (hp : p.WellFormed) (hc : Compiled p c)
    (hclear : ∀ t l, Settled c t → I' t l → I { t with host := t.host.clearQueue } l)
    (hrun : Escorts I (fun _ => J) (run' Target.frameFunction [])
      (outermost e p c Target.frameFunction [])) :
    Mirrors Machine.beside (fun t l => Settled c t ∧ I' t l)
      (fun tasks t l => tasks = t.host.late.toList ∧ Settled c t ∧ J t l) E (frameWith run' c)
      (frame e p c) := by
  have hcleared : Mirrors Machine.beside (fun t l => Settled c t ∧ I' t l)
      (fun _ t l => Settled c t ∧ I t l) E
      (onWorld World.clearQueue : EStateM Fault (State (σ × L)) Unit)
      (onWorld World.clearQueue) := fun t l ⟨ht, hl⟩ =>
    ⟨l, rfl, ⟨ht.globals, ht.locals⟩, hclear t l ht hl⟩
  refine mirrors_bind hcleared fun _ => ?_
  refine mirrors_bind (mirrors_callWith (export_frame hc) hrun fun t => returns_frame hp hc e)
    fun _ => ?_
  exact fun _ l hs => ⟨l, rfl, rfl, hs⟩

/-- A late task runs, or is none and changes nothing. -/
theorem mirrors_lateTaskWith (hp : p.WellFormed) (hc : Compiled p c) {task : NodeId}
    (hrun : p.IsLate task → Escorts I (fun _ => J)
      (run' Target.lateFunction [.i32 (Int32.ofNat task)])
      (outermost e p c Target.lateFunction [.i32 (Int32.ofNat task)]))
    (hnone : ¬p.IsLate task → ∀ t l, I t l → E t l) :
    Mirrors Machine.beside (fun t l => Settled c t ∧ I t l) (fun _ t l => Settled c t ∧ J t l)
      (fun t l => Settled c t ∧ E t l) (lateTaskWith run' p c task) (lateTask e p c task) := by
  unfold lateTaskWith lateTask
  cases hnode : p.node task with
  | error fault =>
    have hnot : ¬p.IsLate task := fun ⟨n, hget, _⟩ => by
      rw [Program.node_eq_ok hget] at hnode
      cases hnode
    exact mirrors_throw fun _ _ h => ⟨h.1, hnone hnot _ _ h.2⟩
  | ok n =>
    have hget := Program.getElem?_of_node hnode
    dsimp only
    by_cases hkind : n.kind = .statement .lateUpdate
    · rw [if_neg (not_not.mpr hkind), if_neg (not_not.mpr hkind)]
      exact mirrors_callWith (export_late hc) (hrun ⟨n, hget, hkind⟩) fun t =>
        returns_late hp hc e _
    · rw [if_pos hkind, if_pos hkind]
      have hnot : ¬p.IsLate task := fun ⟨n', hget', hkind'⟩ => by
        cases hget.symm.trans hget'
        exact hkind hkind'
      exact fun t l h => ⟨l, rfl, h.1, hnone hnot t l h.2⟩

namespace Session

theorem mirrors_advance (frames : Nat)
    (hask : ∀ t l w, w.slots = t.host.slots → I t l → I { t with host := w } l) :
    Mirrors Machine.beside (fun t l => Settled c t ∧ I t l) (fun _ t l => Settled c t ∧ I t l) E
      (advance (e.beside L) frames) (advance e frames) := by
  unfold advance
  split
  · exact mirrors_done
  · rintro t l ⟨ht, hl⟩
    exact ⟨l, rfl, ⟨ht.globals, ht.locals⟩, hask t l _ rfl hl⟩

def beside (s : Session σ) (l : L) : Session (σ × L) :=
  ⟨s.program, s.code, s.frames, s.state.beside l⟩

/-- What a session does with something extra and without, and how that ends. -/
theorem perform_outcome {E : State σ → L → Prop} {J : α → State σ → L → Prop}
    {action' : EStateM Fault (State (σ × L)) α} {action : EStateM Fault (State σ) α}
    (h : Mirrors Machine.beside I J E action' action) {s : Session σ} {l : L}
    (hs : I s.state l) : ∃ r state l',
      s.perform action = (r, ⟨s.program, s.code, s.frames, state⟩) ∧
      (s.beside l).perform action' = (r, Session.beside ⟨s.program, s.code, s.frames, state⟩ l') ∧
      match r with
      | .ok a => J a state l'
      | .error _ => E state l' := by
  obtain ⟨program, code, frames, state⟩ := s
  have hrun := h state l hs
  unfold perform beside
  dsimp only
  cases hresult : action state with
  | ok a state' | error fault state' =>
    rw [hresult] at hrun
    obtain ⟨l', hrun', hJ⟩ := hrun
    rw [hrun']
    exact ⟨_, state', l', rfl, rfl, hJ⟩

theorem perform_beside {J : State σ → L → Prop} {action' : EStateM Fault (State (σ × L)) α}
    {action : EStateM Fault (State σ) α}
    (h : Mirrors Machine.beside I (fun _ => J) J action' action) {s : Session σ} {l : L}
    (hs : I s.state l) : ∃ l', (s.beside l).perform action' =
      ((s.perform action).1, (s.perform action).2.beside l') ∧ J (s.perform action).2.state l' := by
  obtain ⟨r, state, l', hrun, hrun', hJ⟩ := perform_outcome h hs
  rw [hrun]
  exact ⟨l', hrun', by cases r <;> exact hJ⟩

end Session

/-- A session that was started has the code of its program, and nothing has been called yet. -/
theorem start_eq_ok {engine : σ} {s : Session σ} (h : Session.start p engine = .ok s) :
    ∃ m, Compiled p m ∧ s = ⟨p, m, 0, ⟨.start p engine, m.globals.toArray, #[]⟩⟩ ∧
      Settled m s.state := by
  obtain ⟨m, hcompile, hs⟩ := Outcome.bind_eq_ok.mp h
  split at hs
  · cases hs
  · cases hs
    refine ⟨m, compiled_of_ok hcompile, rfl, fun i => ?_, fun i => rfl⟩
    rw [List.getElem?_toArray, ← List.getElem?_map]
    rfl

theorem perform_snd (s : Session σ) (action : EStateM Fault (State σ) α) :
    (s.perform action).2 = ⟨s.program, s.code, s.frames, (s.perform action).2.state⟩ := by
  obtain ⟨program, code, frames, state⟩ := s
  unfold Session.perform
  dsimp only
  cases action state <;> rfl

end Compiler
end SignalGraph
