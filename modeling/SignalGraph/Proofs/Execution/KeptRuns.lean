import SignalGraph.Backend

/-!
# What runs keep

A property of states that every step keeps, whether it fails or not.  Programs add no variable and
take none away, however they are run: this holds of any program, sound or not, and of any code.
-/

namespace SignalGraph

variable {ε S α β : Type} {I : S → Prop}

/-- From a state in `I` the run comes to a state in `I`, even if it fails. -/
def Preserves (I : S → Prop) (run : EStateM ε S α) : Prop :=
  ∀ s, I s → match run s with
    | .ok _ s' => I s'
    | .error _ s' => I s'

theorem preserves_pure {a : α} : Preserves I (pure a : EStateM ε S α) := fun _ hs => hs

theorem preserves_throw {fault : ε} : Preserves I (throw fault : EStateM ε S α) := fun _ hs => hs

theorem preserves_get : Preserves I (get : EStateM ε S S) := fun _ hs => hs

theorem preserves_modify {f : S → S} (h : ∀ s, I s → I (f s)) :
    Preserves I (modify f : EStateM ε S Unit) := h

theorem preserves_bind {x : EStateM ε S α} {f : α → EStateM ε S β} (hx : Preserves I x)
    (hf : ∀ a, Preserves I (f a)) : Preserves I (x >>= f) := by
  intro s hs
  have h := hx s hs
  simp only [bind, EStateM.bind]
  cases hrun : x s with
  | ok a s' =>
    rw [hrun] at h
    exact hf a s' h
  | error fault s' =>
    rw [hrun] at h
    exact h

theorem preserves_map {f : α → β} {x : EStateM ε S α} (hx : Preserves I x) :
    Preserves I (f <$> x) := by
  rw [map_eq_pure_bind]
  exact preserves_bind hx fun _ => preserves_pure

theorem preserves_mapM {f : β → EStateM ε S α} : ∀ {l : List β}, (∀ b ∈ l, Preserves I (f b)) →
    Preserves I (l.mapM f)
  | [], _ => preserves_pure
  | b :: l, h => by
    rw [List.mapM_cons]
    refine preserves_bind (h b List.mem_cons_self) fun _ => ?_
    exact preserves_bind (preserves_mapM fun x hx => h x (List.mem_cons_of_mem b hx)) fun _ =>
      preserves_pure

theorem preserves_forM {f : β → EStateM ε S Unit} : ∀ {l : List β}, (∀ b ∈ l, Preserves I (f b)) →
    Preserves I (l.forM f)
  | [], _ => preserves_pure
  | b :: l, h => by
    rw [List.forM_eq_forM, List.forM_cons]
    exact preserves_bind (h b List.mem_cons_self) fun _ =>
      preserves_forM (l := l) fun x hx => h x (List.mem_cons_of_mem b hx)

namespace VariableStore

def Declares (vars : List Variable) (s : VariableStore) : Prop := s.cells.toList.map (·.decl) = vars

variable {vars : List Variable} {s : VariableStore}

theorem declares_empty (p : Program) : Declares p.vars (empty p) := by
  simp [Declares, empty, ofVariables, Function.comp_def]

/-- Other elements make no other variable. -/
theorem declares_modify (h : Declares vars s) (i : VarId) {f : Cell → Cell}
    (hf : ∀ cell, (f cell).decl = cell.decl) : Declares vars { cells := s.cells.modify i f } := by
  rw [← show s.cells.toList.map (·.decl) = vars from h]
  refine List.ext_getElem? fun j => ?_
  simp only [List.getElem?_map, Array.getElem?_toList, Array.getElem?_modify]
  split
  · rw [Option.map_map]
    exact congrArg (Option.map · _) (funext hf)
  · rfl

theorem declares_set (h : Declares vars s) (p : Pointer) (v : Value) :
    Declares vars (s.set p v) := by
  unfold set
  split
  · exact h
  · split
    · exact declares_modify h p.var fun _ => rfl
    · exact h

theorem declares_restore (h : Declares vars s) (entries : List SavedVariable) :
    Declares vars (s.restore entries) := by
  unfold restore
  induction entries generalizing s with
  | nil => exact h
  | cons entry rest ih =>
    refine ih ?_
    unfold restoreEntry
    split
    · exact h
    · exact declares_modify h _ fun _ => rfl

end VariableStore

variable {σ : Type} {vars : List Variable}

def World.Declares (vars : List Variable) (w : World σ) : Prop := w.vars.Declares vars

theorem World.declares_ask {w : World σ} (h : w.Declares vars) (action : StateM σ α) :
    (World.ask action w).2.Declares vars := h

namespace Interpreter

variable {e : Engine σ} {p : Program} {n : Node} {made : Producer → Run σ Value}
  {chain : List NodeId → Run σ Unit}

abbrev State.Declares (vars : List Variable) (s : State σ) : Prop := s.world.Declares vars

theorem preserves_check {I : State σ → Prop} {r : Except Fault α} :
    Preserves I (check r : Run σ α) := by
  intro s hs
  cases r <;> exact hs

theorem preserves_inWorld {change : World σ → α × World σ}
    (h : ∀ w : World σ, w.Declares vars → (change w).2.Declares vars) :
    Preserves (State.Declares vars) (inWorld change) := fun s hs => h s.world hs

theorem preserves_onWorld {change : World σ → World σ}
    (h : ∀ w : World σ, w.Declares vars → (change w).Declares vars) :
    Preserves (State.Declares vars) (onWorld change) := preserves_inWorld h

theorem preserves_ask {action : StateM σ α} :
    Preserves (State.Declares vars) (inWorld (World.ask action)) :=
  preserves_inWorld fun _ hw => World.declares_ask hw action

abbrev Retains (vars : List Variable) (run : Run σ α) : Prop := Preserves (State.Declares vars) run

theorem retains_load (type : WireType) (v : Value) : Retains vars (load type v : Run σ Value) := by
  unfold load
  split
  · exact preserves_pure
  · refine preserves_bind preserves_get fun s => ?_
    split <;> exact preserves_pure

theorem retains_memoized {id : MemoId} {compute : Run σ Value} (h : Retains vars compute) :
    Retains vars (memoized id compute) := by
  unfold memoized
  refine preserves_bind preserves_get fun s => ?_
  split
  · exact preserves_pure
  · exact preserves_bind h fun _ => preserves_bind (preserves_modify fun _ hs => hs) fun _ =>
      preserves_pure

section

variable (hmade : ∀ source, Retains vars (made source))
include hmade

theorem retains_readOperand : ∀ operand, Retains vars (readOperand made operand)
  | .default _ => preserves_pure
  | .absent => preserves_pure
  | .wire w => by
    rw [readOperand, readWire]
    have hrest : ∀ v, Retains vars (if w.deref then load w.type v else return v : Run σ Value) := by
      intro v
      split
      · exact retains_load _ _
      · exact preserves_pure
    split
    · exact preserves_bind (retains_memoized (hmade w.source)) hrest
    · exact preserves_bind (hmade w.source) hrest

theorem retains_input (i : Nat) : Retains vars (input made n i) :=
  preserves_bind preserves_check fun operand => retains_readOperand hmade operand

theorem retains_optionalInput (i : Nat) : Retains vars (optionalInput made n i) := by
  refine preserves_bind preserves_check fun operand => ?_
  split
  · exact preserves_pure
  · exact preserves_bind (retains_readOperand hmade _) fun _ => preserves_pure

theorem retains_inputs (count : Nat) : Retains vars (inputs made n count) :=
  preserves_mapM fun i _ => retains_input hmade i

theorem retains_effectInputs (pins : List Pin) : Retains vars (effectInputs made n pins) := by
  refine preserves_mapM fun entry _ => ?_
  obtain ⟨pin, i⟩ := entry
  dsimp only
  split
  · exact retains_optionalInput hmade _
  · exact preserves_map (retains_input hmade _)

theorem retains_evaluate (output : Nat) :
    ∀ x : Expression, Retains vars (evaluate e made n output x)
  | .literal _ => preserves_pure
  | .operation _ | .routine _ => preserves_bind (retains_inputs hmade _) fun _ => preserves_pure
  | .query _ =>
    preserves_bind (retains_inputs hmade _) fun _ => preserves_bind preserves_ask fun _ =>
      preserves_pure
  | .currentFrame => preserves_bind preserves_ask fun _ => preserves_pure
  | .and | .or => by
    refine preserves_bind (retains_input hmade 0) fun v => ?_
    split
    all_goals first
      | exact preserves_pure
      | exact preserves_bind (retains_input hmade 1) fun _ => preserves_pure
  | .getVariable _ => by
    rw [evaluate]
    split <;> exact preserves_pure
  | .list _ =>
    preserves_bind (retains_input hmade 0) fun _ => preserves_bind (retains_input hmade 1) fun _ =>
      preserves_pure

end

theorem retains_readSlot (output : Nat) : Retains vars (readSlot n output : Run σ Value) := by
  refine preserves_bind preserves_check fun place => preserves_bind preserves_get fun s => ?_
  obtain ⟨slot, component⟩ := place
  cases component <;> exact preserves_pure

theorem retains_produce (e : Engine σ) (p : Program) : ∀ (depth : Nat) (source : Producer),
    Retains vars (produce e p depth source) := by
  intro depth
  induction depth with
  | zero => exact fun _ => preserves_throw
  | succ depth ih =>
    intro source
    refine preserves_bind preserves_check fun n => ?_
    split
    · exact retains_readSlot _
    · split
      · exact retains_evaluate ih _ _
      · exact preserves_throw

theorem retains_writeSlot (i : Nat) (v : Value) : Retains vars (writeSlot n i v : Run σ Unit) :=
  preserves_bind preserves_check fun _ => preserves_onWorld fun _ hw => hw

theorem retains_runBranch (h : ∀ ids, Retains vars (chain ids)) (i : Nat) :
    Retains vars (runBranch chain n i) :=
  preserves_bind preserves_check fun ids => h ids

theorem retains_repeatFrom {body : UInt32 → Run σ Unit} (h : ∀ k, Retains vars (body k)) :
    ∀ (count : Nat) (k : UInt32), Retains vars (repeatFrom body count k)
  | 0, _ => preserves_pure
  | count + 1, k => preserves_bind (h k) fun _ => retains_repeatFrom h count (k + 1)

section

variable (hmade : ∀ source, Retains vars (made source)) (hchain : ∀ ids, Retains vars (chain ids))
include hmade

theorem retains_runEffect (effect : Effect) : Retains vars (runEffect e made n effect) := by
  refine preserves_bind (retains_effectInputs hmade _) fun arguments =>
    preserves_bind preserves_ask fun result => ?_
  split
  · exact retains_writeSlot 0 _
  · exact preserves_pure

theorem retains_runMenuItem (all : List Variable) : Retains vars (runMenuItem e all made n) := by
  refine preserves_bind preserves_check fun slot => preserves_bind preserves_get fun s => ?_
  split
  · exact preserves_pure
  · refine preserves_bind (retains_input hmade 0) fun _ =>
      preserves_bind (retains_input hmade 1) fun _ => ?_
    split
    · exact preserves_bind preserves_ask fun _ => preserves_onWorld fun _ hw => hw
    · exact preserves_onWorld fun _ hw => hw

theorem retains_adjust (delta : Binary32) : Retains vars (adjust made n delta) := by
  refine preserves_bind (retains_input hmade 0) fun v => ?_
  split
  · exact preserves_pure
  · exact preserves_onWorld fun w hw => VariableStore.declares_set hw _ _

include hchain

theorem retains_runLoop : Retains vars (runLoop made chain n) := by
  refine preserves_bind (retains_input hmade 0) fun _ =>
    preserves_bind (retains_input hmade 1) fun _ => ?_
  refine preserves_bind preserves_check fun slot => ?_
  dsimp only
  refine retains_repeatFrom (fun k => ?_) _ _
  exact preserves_bind (preserves_onWorld fun _ hw => hw) fun _ => retains_runBranch hchain 0

theorem retains_execute (all : List Variable) (id : NodeId) :
    ∀ st : Statement, Retains vars (execute e all made chain id n st)
  | .effect effect => retains_runEffect hmade effect
  | .menuItem => retains_runMenuItem hmade all
  | .ifThen => preserves_bind (retains_input hmade 0) fun _ => retains_runBranch hchain _
  | .lateUpdate => preserves_onWorld fun _ hw => hw
  | .loop => retains_runLoop hmade hchain
  | .inspect _ => preserves_bind (retains_input hmade 0) fun _ => preserves_ask
  | .increment | .decrement => retains_adjust hmade _
  | .playSensor | .boxArtSensor | .button => by
    refine preserves_bind preserves_ask fun answer => ?_
    split
    · exact retains_runBranch hchain 0
    · exact preserves_pure
  | .touchSensor | .swipeSensor => by
    refine preserves_bind preserves_ask fun answer => ?_
    split
    · exact preserves_bind (retains_writeSlot 0 _) fun _ => retains_runBranch hchain 0
    · exact preserves_pure
  | .collision => by
    refine preserves_bind (retains_input hmade 0) fun object =>
      preserves_bind preserves_ask fun answer => ?_
    split
    · refine preserves_bind (retains_writeSlot 0 _) fun _ =>
        preserves_bind (retains_writeSlot 1 _) fun _ => ?_
      exact preserves_bind (retains_writeSlot 2 _) fun _ => retains_runBranch hchain 0
    · exact preserves_pure
  | .setVariable _ => by
    refine preserves_bind (retains_input hmade 0) fun v => ?_
    split
    · exact preserves_onWorld fun w hw => VariableStore.declares_set hw _ _
    · exact preserves_pure
  | .setPointer _ => by
    refine preserves_bind (retains_input hmade 0) fun target =>
      preserves_bind (retains_input hmade 1) fun v => ?_
    split
    · exact preserves_onWorld fun w hw => VariableStore.declares_set hw _ _
    · exact preserves_pure

end

theorem retains_runChain (e : Engine σ) (p : Program) : ∀ (depth : Nat) (ids : List NodeId),
    Retains vars (runChain e p depth ids) := by
  intro depth
  induction depth with
  | zero => exact fun ids => preserves_forM fun _ _ => preserves_throw
  | succ depth ih =>
    refine fun ids => preserves_forM fun id _ => preserves_bind preserves_check fun n => ?_
    split
    · exact preserves_bind (retains_execute (retains_produce e p _) ih _ _ _) fun _ => ih _
    · exact preserves_bind preserves_throw fun _ => ih _

theorem retains_frame (e : Engine σ) (p : Program) : Retains vars (frame e p) :=
  preserves_bind (preserves_modify fun _ hs => hs) fun _ =>
    preserves_bind (retains_runChain e p _ _) fun _ => preserves_bind preserves_get fun _ =>
      preserves_pure

theorem retains_late (e : Engine σ) (p : Program) (tasks : List NodeId) :
    Retains vars (late e p tasks) := by
  refine preserves_forM fun task _ => preserves_bind preserves_check fun n => ?_
  split
  · exact preserves_bind preserves_throw fun _ => retains_runBranch (retains_runChain e p _) 0
  · exact retains_runBranch (retains_runChain e p _) 0

theorem retains_advance (e : Engine σ) (frames : Nat) :
    Retains vars (Session.advance e frames) := by
  unfold Session.advance
  split
  · exact preserves_pure
  · exact preserves_ask

theorem declares_perform {s : Session σ} {run : Run σ α} (h : Retains vars run)
    (hs : s.state.Declares vars) :
    (s.perform run).2.state.Declares vars := by
  obtain ⟨program, frames, state⟩ := s
  have hrun := h state hs
  unfold Session.perform
  dsimp only
  cases hresult : run state with
  | ok a s' =>
    rw [hresult] at hrun
    exact hrun
  | error fault s' =>
    rw [hresult] at hrun
    exact hrun

end Interpreter
end SignalGraph
