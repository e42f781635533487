import SignalGraph.Proofs.Execution.KeptRuns
import SignalGraph.Proofs.Instrumentation.Journal.Calls

/-!
# What code keeps

What the host's functions keep of the host's state, a module that calls them keeps: its own
instructions only touch locals and globals.
-/

namespace SignalGraph

variable {σ τ α : Type} {vars : List Variable}

namespace Wasm
namespace Machine

def HostIn (J : τ → Prop) (t : Machine τ) : Prop := J t.host

variable {J : τ → Prop} {call : Nat → List Lane → Exec τ (List Lane)}

theorem preserves_orStuck {I : Machine τ → Prop} :
    ∀ {o : Option α}, Preserves I (orStuck o : Exec τ α)
  | none => preserves_throw
  | some _ => preserves_pure

theorem preserves_setLocal (i : Nat) (lane : Lane) : Preserves (HostIn J) (setLocal i lane) :=
  preserves_modify fun _ ht => ht

theorem preserves_setGlobal (i : Nat) (lane : Lane) : Preserves (HostIn J) (setGlobal i lane) :=
  preserves_modify fun _ ht => ht

theorem preserves_iterate {I : Machine τ → Prop} {body : Exec τ Outcome} (h : Preserves I body) :
    ∀ bound, Preserves I (iterate body bound)
  | 0 => preserves_throw
  | bound + 1 => by
    refine preserves_bind h fun outcome => ?_
    rcases outcome with stack | _ | label
    · exact preserves_pure
    · exact preserves_iterate h bound
    · exact preserves_pure

mutual

theorem preserves_instr (hcall : ∀ f s, Preserves (HostIn J) (call f s)) :
    ∀ i s, Preserves (HostIn J) (instr call i s)
  | .const lane, s => preserves_pure
  | .localGet i, s =>
    preserves_bind preserves_get fun _ => preserves_bind preserves_orStuck fun _ => preserves_pure
  | .globalGet i, s =>
    preserves_bind preserves_get fun _ => preserves_bind preserves_orStuck fun _ => preserves_pure
  | .localSet i, [] => preserves_throw
  | .localSet i, lane :: s => preserves_bind (preserves_setLocal i lane) fun _ => preserves_pure
  | .globalSet i, [] => preserves_throw
  | .globalSet i, lane :: s => preserves_bind (preserves_setGlobal i lane) fun _ => preserves_pure
  | .call f, s => preserves_bind (hcall f s) fun _ => preserves_pure
  | .numeric op, s => preserves_bind preserves_orStuck fun _ => preserves_pure
  | .when body, s => by
    rcases s with _ | ⟨n | x, s⟩
    · exact preserves_throw
    · show Preserves _ (if n != 0 then _ else _)
      split
      · exact preserves_bind (preserves_instrs hcall body []) fun _ => preserves_pure
      · exact preserves_pure
    · exact preserves_throw
  | .ifElse _ a b, s => by
    rcases s with _ | ⟨n | x, s⟩
    · exact preserves_throw
    · show Preserves _ (if n != 0 then _ else _)
      split
      · exact preserves_bind (preserves_instrs hcall a []) fun _ => preserves_pure
      · exact preserves_bind (preserves_instrs hcall b []) fun _ => preserves_pure
    · exact preserves_throw
  | .block body, s => preserves_bind (preserves_instrs hcall body []) fun _ => preserves_pure
  | .loop body, s => by
    refine preserves_bind (preserves_iterate (preserves_instrs hcall body []) loopBound)
      fun outcome => ?_
    cases outcome <;> exact preserves_pure
  | .br label, s => preserves_pure
  | .brIf label, s => by
    rcases s with _ | ⟨n | x, s⟩
    · exact preserves_throw
    · exact preserves_pure
    · exact preserves_throw

theorem preserves_instrs (hcall : ∀ f s, Preserves (HostIn J) (call f s)) :
    ∀ code s, Preserves (HostIn J) (instrs call code s)
  | [], s => preserves_pure
  | i :: rest, s => by
    refine preserves_bind (preserves_instr hcall i s) fun outcome => ?_
    cases outcome with
    | next s => exact preserves_instrs hcall rest s
    | jump label => exact preserves_pure

end

theorem preserves_arguments {I : Machine τ → Prop} (count : Nat) (stack : List Lane) :
    Preserves I (arguments count stack : Exec τ _) := by
  unfold arguments
  split
  · exact preserves_throw
  · exact preserves_pure

theorem preserves_callBody {body : Exec τ Outcome} (h : Preserves (HostIn J) body)
    (locals : Array Lane) :
    Preserves (HostIn J) (callBody body locals) := by
  refine preserves_bind preserves_get fun t =>
    preserves_bind (preserves_modify fun _ ht => ht) fun _ => ?_
  refine preserves_bind h fun outcome =>
    preserves_bind (preserves_modify fun _ ht => ht) fun _ => ?_
  cases outcome with
  | next stack => exact preserves_pure
  | jump label => exact preserves_throw

section

variable {host : Host τ} (hhost : ∀ f lanes s, J s → J (host f lanes s).2)
include hhost

theorem preserves_callHost (f : Nat) (lanes : List Lane) :
    Preserves (HostIn J) (callHost host f lanes) :=
  fun t ht => hhost f lanes t.host ht

theorem preserves_invoke (m : Module) :
    ∀ depth f stack, Preserves (HostIn J) (invoke m host depth f stack) := by
  intro depth
  induction depth with
  | zero => exact fun _ _ => preserves_throw
  | succ depth ih =>
    intro f stack
    unfold invoke
    split
    · refine preserves_bind (preserves_arguments _ _) fun split => ?_
      exact preserves_bind (preserves_callHost hhost _ _) fun _ => preserves_pure
    · refine preserves_bind preserves_orStuck fun function => ?_
      refine preserves_bind (preserves_arguments _ _) fun split => ?_
      exact preserves_bind (preserves_callBody (preserves_instrs ih _ _) _) fun _ => preserves_pure

theorem preserves_run (m : Module) (name : String) (lanes : List Lane) :
    Preserves (HostIn J) (run m host name lanes) :=
  preserves_bind preserves_orStuck fun _ => preserves_invoke hhost m _ _ _

end

end Machine
end Wasm

namespace Host

open Wasm

theorem declares_writeVariable {w : World σ} (h : w.Declares vars) (p : Program) (f : Format)
    (var index : Int32)
    (lanes : List Lane) : (writeVariable p f var index lanes w).Declares vars := by
  unfold writeVariable
  split
  · exact VariableStore.declares_set h _ _
  · exact h

/-- No imported function adds a variable or takes one away. -/
theorem declares_run (e : Engine σ) (p : Program) (i : Import) (lanes : List Lane) {w : World σ}
    (h : w.Declares vars) : (run e p i lanes w).2.Declares vars := by
  have hspares : i.changes = false ∨ i = .menuItem → (run e p i lanes w).2.Declares vars := by
    intro hi
    have hvars : (run e p i lanes w).2.vars = w.vars :=
      congrArg (fun held : Holdings => held.vars) (spares_run e p hi lanes w)
    unfold World.Declares
    rw [hvars]
    exact h
  cases i with
  | setVariable f =>
    rcases lanes with _ | ⟨var, _ | ⟨index, lanes⟩⟩
    · exact h
    · exact h
    · exact declares_writeVariable h p f _ _ lanes
  | setSlot f => rcases lanes with _ | ⟨slot, lanes⟩ <;> exact h
  | deferLate => rcases lanes with _ | ⟨_, _ | ⟨_, _⟩⟩ <;> exact h
  | menuItem => exact hspares (.inr rfl)
  | _ => exact hspares (.inl rfl)

theorem declares_functions (e : Engine σ) (p : Program) (f : Nat) (lanes : List Lane) {w : World σ}
    (h : w.Declares vars) : (functions e p f lanes w).2.Declares vars := by
  unfold functions
  cases Import.table.toArray[f]? with
  | none => exact h
  | some i => exact declares_run e p i lanes h

end Host

namespace Compiler

open Wasm

abbrev State.Declares (vars : List Variable) : State σ → Prop :=
  Machine.HostIn (World.Declares vars)

theorem preserves_onWorld {change : World σ → World σ}
    (h : ∀ w : World σ, w.Declares vars → (change w).Declares vars) :
    Preserves (State.Declares vars) (onWorld change) := preserves_modify fun _ ht => h _ ht

theorem preserves_call (e : Engine σ) (p : Program) (m : Wasm.Module) (name : String)
    (lanes : List Lane) :
    Preserves (State.Declares vars) (call e p m name lanes) := by
  intro t ht
  have hhost : ∀ f lanes (w : World σ), w.Declares vars →
    (Host.functions e p f lanes w).2.Declares vars :=
    fun f lanes _ => Host.declares_functions e p f lanes
  have hrun := Machine.preserves_run hhost m name lanes t ht
  unfold call
  cases hresult : Machine.run m (Host.functions e p) name lanes t with
  | ok a t' =>
    rw [hresult] at hrun
    exact hrun
  | error trap t' =>
    rw [hresult] at hrun
    exact hrun

theorem preserves_frame (e : Engine σ) (p : Program) (m : Wasm.Module) :
    Preserves (State.Declares vars) (frame e p m) :=
  preserves_bind (preserves_onWorld fun _ hw => hw) fun _ =>
    preserves_bind (preserves_call e p m _ _) fun _ => preserves_bind preserves_get fun _ =>
      preserves_pure

theorem preserves_late (e : Engine σ) (p : Program) (m : Wasm.Module) (tasks : List NodeId) :
    Preserves (State.Declares vars) (late e p m tasks) := by
  refine preserves_forM fun task _ => ?_
  unfold lateTask
  split
  · exact preserves_throw
  · split
    · exact preserves_bind preserves_throw fun _ => preserves_call e p m _ _
    · exact preserves_call e p m _ _

theorem preserves_advance (e : Engine σ) (frames : Nat) :
    Preserves (State.Declares vars) (Session.advance e frames) := by
  unfold Session.advance
  split
  · exact preserves_pure
  · exact preserves_onWorld fun _ hw => World.declares_ask hw _

theorem declares_perform {s : Session σ} {action : EStateM Fault (State σ) α}
    (h : Preserves (State.Declares vars) action) (hs : s.state.Declares vars) :
    (s.perform action).2.state.Declares vars := by
  obtain ⟨program, code, frames, state⟩ := s
  have hrun := h state hs
  unfold Session.perform
  dsimp only
  cases hresult : action state with
  | ok a s' =>
    rw [hresult] at hrun
    exact hrun
  | error fault s' =>
    rw [hresult] at hrun
    exact hrun

end Compiler
end SignalGraph
