import SignalGraph.Proofs.Instrumentation.Ledger.Calls
import SignalGraph.Proofs.Instrumentation.Sessions

/-!
# Watched frames

Frames and late tasks of a compiled program with a ledger.  They never fail, except for a task that
is none, and whatever frame number the stamps are compared with, the ledger agrees with the memo
points.
-/

namespace SignalGraph
namespace Compiler

open Wasm Machine

variable {σ : Type} {p : Program} {c : Wasm.Module} {e : Engine σ}

abbrev idle : MemoId → Prop := fun _ => False

theorem stamped_of_settled (hc : Compiled p c) {t : Machine (World σ)} (ht : Settled c t) :
    Stamped p t.globals := by
  have htypes : ∀ i : Nat, (t.globals[i]?).map Lane.type = ((globals p).map Lane.type)[i]? := by
    intro i
    rw [ht.globals i, context, hc.globals]
  have hword : ∀ {i : Nat}, ((globals p).map Lane.type)[i]? = some .i32 →
      ∃ n, t.globals[i]? = some (.i32 n) := by
    intro i hi
    rw [← htypes i] at hi
    obtain ⟨lane, hlane, htype⟩ := Option.map_eq_some_iff.mp hi
    obtain ⟨n, rfl⟩ := eq_i32 htype
    exact ⟨n, hlane⟩
  refine ⟨?_, hword rfl, fun k m hk => hword (globals_types (x := target p) hk (j := 0) rfl)⟩
  have hnone : ∀ i, t.globals.size ≤ i ↔ (globals p).length ≤ i := by
    intro i
    have hi := htypes i
    rw [← Array.getElem?_eq_none_iff, ← Option.map_eq_none_iff (f := Lane.type), hi,
      List.getElem?_eq_none_iff, List.length_map]
  exact Nat.le_antisymm ((hnone _).mpr (Nat.le_refl _)) ((hnone _).mp (Nat.le_refl _))

/-- A new frame number leaves the ledger empty, whatever the stamps say. -/
theorem filed_count {g : Array Lane} (h : Stamped p g) (n : Int32) :
    Filed p idle (g.setIfInBounds Target.frameGlobal (.i32 n)) [] := by
  obtain ⟨n', hframe⟩ := h.frame
  have hin := (Array.getElem?_eq_some_iff.mp hframe).1
  refine ⟨⟨Array.size_setIfInBounds.trans h.size, ⟨n, ?_⟩, fun k m hk => ?_⟩, Ledger.agrees_nil p _⟩
  · exact Array.getElem?_setIfInBounds_self_of_lt hin
  · have hpos : Target.frameGlobal < (target p).stampGlobal k := stampGlobal_pos k
    rw [Array.getElem?_setIfInBounds_ne (Nat.ne_of_lt hpos)]
    exact h.stamp k m hk

section

variable {call' : Nat → List Lane → Exec (World (σ × Ledger)) (List Lane)}
  {call : Nat → List Lane → Exec (World σ) (List Lane)} {chains : Code}

theorem shadows_frameBody (hchains : Shadows (Filed p idle) (Remains (Filed p idle) 0)
      (instrs call' chains []) (instrs call chains [])) :
    Shadows (fun g l => Stamped p g ∧ l = []) (Remains (Filed p idle) 0)
      (instrs call' ([.globalGet Target.frameGlobal, int 1, .numeric .i32Add,
        .globalSet Target.frameGlobal] ++ chains) [])
      (instrs call ([.globalGet Target.frameGlobal, int 1, .numeric .i32Add,
        .globalSet Target.frameGlobal] ++ chains) []) := by
  rintro t l ⟨hstamped, rfl⟩
  obtain ⟨n, hframe⟩ := hstamped.frame
  have hcount : ∀ {τ : Type} {run : Nat → List Lane → Exec τ (List Lane)} {t : Machine τ},
      t.globals[Target.frameGlobal]? = some (.i32 n) →
      Runs run [.globalGet Target.frameGlobal, int 1, .numeric .i32Add,
        .globalSet Target.frameGlobal] [] t []
        { t with globals := t.globals.setIfInBounds Target.frameGlobal (.i32 (n + 1)) } :=
    fun hframe => runs_cons (runs_globalGet hframe) (runs_cons (runs_const _)
      (runs_cons (runs_numeric rfl) (runs_globalSet _ _)))
  rw [instrs_append (hcount hframe), instrs_append (hcount (t := t.beside []) hframe)]
  exact hchains _ [] (filed_count hstamped (n + 1))

end

theorem shadowed_calls (hp : p.WellFormed) (hshares : p.Shares) (hc : Compiled p c)
    {reads leads : NodeId → Nat} (hrank : p.Falls p.Reads reads) (hrank' : p.Falls p.Leads leads)
    (depth : Nat) : Shadowed (limits (Callable p reads leads p.nodes.size p.nodes.size) 0)
      (Filed p idle) (listen p (watchedInvoke e p c depth)) (invoke c (Host.functions e p) depth) :=
  ⟨fun f hf s => shadows_call hp hshares hc hrank hrank' depth (fun _ _ h => h.elim)
    (fun _ _ h => h) f hf s, fun _ h => h.elim⟩

theorem shadows_frame (hp : p.WellFormed) (hshares : p.Shares) (hc : Compiled p c) (depth : Nat)
    (s : List Lane) : Shadows (fun g l => Stamped p g ∧ l = []) (fun _ => Filed p idle)
      (watchedInvoke e p c (depth + 1) Target.frameFunction s)
      (invoke c (Host.functions e p) (depth + 1) Target.frameFunction s) := by
  obtain ⟨reads, hrank⟩ := hp.reads
  obtain ⟨leads, hrank'⟩ := hp.leads
  obtain ⟨fn, hfn, hcode⟩ := hc.functions.frame
  obtain ⟨chains, hbody, hconfined⟩ := body_of_writes hcode (writes_frameCode hp hrank hrank')
  have hchains := shadows_instrs (shadowed_calls (e := e) hp hshares hc hrank hrank' depth)
    (hconfined 0) []
  have hbodies := shadows_frameBody hchains
  rw [← hbody] at hbodies
  have hother := watchedModule_other hfn hcode
    (congrArg some ofMemoPoints_watching.frameCode_eq)
  refine mirrors_mono (shadows_enter hc hother hfn rfl rfl hbodies s) fun out t l h => ?_
  obtain ⟨_, _, -, h⟩ := h
  exact h.1

theorem shadows_late (hp : p.WellFormed) (hshares : p.Shares) (hc : Compiled p c) (depth : Nat)
    (s : List Lane) : Shadows (Filed p idle) (fun _ => Filed p idle)
      (watchedInvoke e p c (depth + 1) Target.lateFunction s)
      (invoke c (Host.functions e p) (depth + 1) Target.lateFunction s) := by
  obtain ⟨reads, hrank⟩ := hp.reads
  obtain ⟨leads, hrank'⟩ := hp.leads
  obtain ⟨fn, hfn, hcode⟩ := hc.functions.late
  have hconfined := body_of_writes hcode (writes_lateCode hp hrank hrank')
  have hbodies := shadows_instrs (shadowed_calls (e := e) hp hshares hc hrank hrank' depth)
    (hconfined 0) []
  have hother := watchedModule_other hfn hcode
    (congrArg some ofMemoPoints_watching.lateCode_eq)
  refine mirrors_mono (shadows_enter hc hother hfn rfl rfl hbodies s) fun out t l h => ?_
  obtain ⟨_, _, -, h⟩ := h
  exact h.1

def Sound (p : Program) (c : Wasm.Module) (t : State σ) (l : Ledger) : Prop :=
  Settled c t ∧ Filed p idle t.globals l

def watchedFrame (e : Engine σ) (p : Program) (m : Wasm.Module) :
    EStateM Fault (State (σ × Ledger)) (List NodeId) :=
  frameWith (watchedInvoke e p m (m.functions.size + 2)) m

def watchedLate (e : Engine σ) (p : Program) (m : Wasm.Module) (tasks : List NodeId) :
    EStateM Fault (State (σ × Ledger)) Unit :=
  tasks.forM (lateTaskWith (watchedInvoke e p m (m.functions.size + 2)) p m)

/-- A frame returns its queue, with a ledger that it began. -/
theorem mirrors_watchedFrame (hp : p.WellFormed) (hshares : p.Shares) (hc : Compiled p c)
    (frames : Nat) {E : State σ → Ledger → Prop} :
    Mirrors Machine.beside (fun t l => Settled c t ∧ l = []) (fun _ => Sound p c) E
      (do Session.advance (e.beside Ledger) frames; watchedFrame e p c)
      (do Session.advance e frames; frame e p c) := by
  have hclear : ∀ (t : State σ) (l : Ledger), Settled c t → l = [] → Stamped p t.globals ∧ l = [] :=
    fun t l ht hl => ⟨stamped_of_settled hc ht, hl⟩
  refine mirrors_bind (Session.mirrors_advance frames fun _ _ _ _ hl => hl) fun _ => ?_
  exact mirrors_mono (mirrors_frameWith hp hc hclear (shadows_frame hp hshares hc _ _))
    fun _ _ _ h => h.2

/-- A late task runs, or is none and changes nothing. -/
theorem mirrors_watchedLate (hp : p.WellFormed) (hshares : p.Shares) (hc : Compiled p c)
    (tasks : List NodeId) : Mirrors Machine.beside (Sound p c) (fun _ => Sound p c) (Sound p c)
      (watchedLate e p c tasks) (late e p c tasks) :=
  mirrors_forM fun _ _ => mirrors_lateTaskWith hp hc (fun _ => shadows_late hp hshares hc _ _)
    fun _ _ _ h => h

end Compiler
end SignalGraph
