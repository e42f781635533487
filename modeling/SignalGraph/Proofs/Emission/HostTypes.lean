import SignalGraph.Compiler.Host
import SignalGraph.Proofs.Emission.Layout
import SignalGraph.Proofs.Execution.Values
import SignalGraph.Proofs.Wasm.StackHeights
import SignalGraph.Proofs.Wasm.WellTypedRuns

namespace SignalGraph

open Wasm

variable {σ : Type}

namespace Lanes

theorem type_ofValue {b : Base} {v : Value} (h : v.HasBase b) :
    (ofValue v).map Lane.type = b.lanes := by
  cases h using Value.HasBase.cases <;> rfl

theorem type_flatMap {pins : List Pin} {vs : List Value} (h : Pin.Carry pins vs) :
    (vs.flatMap ofValue).map Lane.type = Pin.lanes pins := by
  induction h with
  | nil => rfl
  | cons hv _ ih =>
    obtain ⟨b, hb, hv⟩ := hv
    rw [List.flatMap_cons, List.map_append, ih, type_ofValue hv, Pin.lanes, Pin.lanes,
      List.flatMap_cons, hb]
    rfl

end Lanes

theorem Format.type_ofValue (f : Format) (v : Value) : (f.ofValue v).map Lane.type = f.lanes := by
  cases f <;> rfl

namespace Host

theorem length_values : ∀ (pins : List Pin) (lanes : List Lane),
    (values pins lanes).length = pins.length
  | [], _ => rfl
  | pin :: rest, lanes => congrArg (· + 1) (length_values rest (lanes.drop pin.type.lanes.length))

/-- An effect reads as many inputs as it has, whatever the lanes, so what it keeps is there. -/
theorem type_runEffect (e : Engine σ) (effect : Effect) (lanes : List Lane) (w : World σ) :
    (runEffect e effect lanes w).1.map Lane.type = (Import.effectType effect).results := by
  obtain ⟨engine, vars, slots, late⟩ := w
  cases effect <;> rfl

theorem type_runQuery (e : Engine σ) (q : Query) (lanes : List Lane) (w : World σ) :
    (runQuery e q lanes w).1.map Lane.type = Pin.lanes q.shape.outputs := by
  obtain ⟨engine, vars, slots, late⟩ := w
  have hcarry := Query.carry_ask e (length_values q.shape.inputs lanes) engine
  have houtputs : q.shape.dataOutputs = q.shape.outputs := by cases q <;> rfl
  rw [← houtputs, ← Lanes.type_flatMap hcarry]
  rfl

theorem type_routine (r : Routine) (lanes : List Lane) :
    ((r.apply (values r.shape.inputs lanes)).flatMap Lanes.ofValue).map Lane.type =
      Pin.lanes r.shape.outputs := by
  have hcarry := Routine.carry_apply (length_values r.shape.inputs lanes)
  have houtputs : r.shape.dataOutputs = r.shape.outputs := by cases r <;> rfl
  rw [← houtputs, ← Lanes.type_flatMap hcarry]

theorem length_of_types {lanes : List Lane} {types : List LaneType}
    (h : lanes.map Lane.type = types) : lanes.length = types.length := by
  rw [← h, List.length_map]

/-- An imported function returns lanes of its type, if it has as many as it takes. -/
theorem type_run (e : Engine σ) (p : Program) (i : Import) {lanes : List Lane} (w : World σ)
    (hlen : lanes.length = i.type.params.length) :
    (run e p i lanes w).1.map Lane.type = i.type.results := by
  obtain ⟨engine, vars, slots, late⟩ := w
  cases i with
  | effect effect => exact type_runEffect e effect lanes _
  | query q => exact type_runQuery e q lanes _
  | routine r => exact type_routine r lanes
  | menuItem | inspect | setVariable | setSlot | deferLate =>
    rcases lanes with _ | ⟨_, _ | ⟨_, _ | ⟨_, _ | ⟨_, _ | ⟨_, _⟩⟩⟩⟩⟩ <;> rfl
  | currentFrame | takingBoxArt => rfl
  | button =>
    obtain ⟨style, rfl⟩ := List.length_eq_one_iff.mp hlen
    rfl
  | getSlot f =>
    obtain ⟨slot, rfl⟩ := List.length_eq_one_iff.mp hlen
    exact f.type_ofValue _
  | getVariable f =>
    obtain ⟨var, index, rfl⟩ := List.length_eq_two.mp hlen
    exact f.type_ofValue _
  | loopCount =>
    obtain ⟨start, stop, rfl⟩ := List.length_eq_two.mp hlen
    rfl
  | loopCounter =>
    obtain ⟨start, stop, k, rfl⟩ := List.length_eq_three.mp hlen
    rfl
  | touch =>
    obtain ⟨state, finger, rfl⟩ := List.length_eq_two.mp hlen
    have hfound : ∀ o : Option Vec2,
        (flagged [.f32 0, .f32 0] (o.map fun v => [.f32 v.x, .f32 v.y])).map Lane.type =
          [.i32, .f32, .f32] := fun o => by cases o <;> rfl
    exact hfound _
  | swipe =>
    have hfound : ∀ o : Option Vec3, (flagged (Lanes.vec3 .zero) (o.map Lanes.vec3)).map Lane.type =
        [.i32, .f32, .f32, .f32] := fun o => by cases o <;> rfl
    exact hfound _
  | collision =>
    obtain ⟨object, rfl⟩ := List.length_eq_one_iff.mp hlen
    have hfound : ∀ o : Option Contact,
        (flagged (contact ⟨0, 0, .zero⟩) (o.map contact)).map Lane.type =
          [.i32, .i32, .f32, .f32, .f32, .f32] := fun o => by cases o <;> rfl
    exact hfound _

end Host

namespace Compiler

theorem type_functions {p : Program} {m : Wasm.Module} (hm : Compiled p m) (e : Engine σ) {f : Nat}
    {i : ImportedFunction} (hi : m.imports[f]? = some i) {lanes : List Lane}
    (hlen : lanes.length = i.type.params.length) (w : World σ) :
    (Host.functions e p f lanes w).1.map Lane.type = i.type.results := by
  rw [hm.imports, List.getElem?_toArray, List.getElem?_map] at hi
  obtain ⟨imported, himported, rfl⟩ := Option.map_eq_some_iff.mp hi
  unfold Host.functions
  rw [List.getElem?_toArray, himported]
  exact Host.type_run e p imported w hlen

/-- The host of a compiled program keeps the types that the module declares. -/
theorem safeHost_of_compiled {p : Program} {m : Wasm.Module} (hm : Compiled p m) (e : Engine σ) :
    Machine.SafeHost m (Host.functions e p) :=
  fun _ _ hi _ w hlanes => type_functions hm e hi (Host.length_of_types hlanes) w

theorem hostHeights_of_compiled {p : Program} {m : Wasm.Module} (hm : Compiled p m) (e : Engine σ) :
    Machine.HostHeights m (Host.functions e p) :=
  fun _ _ hi _ w hlen => Host.length_of_types (type_functions hm e hi hlen w)

end Compiler
end SignalGraph
