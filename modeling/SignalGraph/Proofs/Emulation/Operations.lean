import SignalGraph.Proofs.Emulation.Inputs

namespace SignalGraph
namespace Compiler

open Wasm Machine Interpreter

variable {σ α β : Type} {y : Setting σ} {lo hi : Nat} {a b : Code} {ins outs : List Lane}
  {x : Run σ α} {R : α → List Lane → Prop}

theorem mapM_fresh (types : List LaneType) (l : Locals) :
    types.mapM fresh l =
      .ok (List.range' l.count types.length, { l with types := l.types ++ types }) := by
  induction types generalizing l with
  | nil =>
    rw [List.mapM_nil, List.length_nil, List.range'_zero, List.append_nil]
    rfl
  | cons t rest ih =>
    have hcount : Locals.count { l with types := l.types ++ [t] } = l.count + 1 := by
      simp [Locals.count, Nat.add_assoc]
    rw [List.mapM_cons]
    show (rest.mapM fresh { l with types := l.types ++ [t] } >>= fun r =>
      .ok (l.count :: r.1, r.2)) = _
    rw [ih, hcount, List.append_assoc]
    rfl

theorem spill_eq_ok (types : List LaneType) (l : Locals) :
    spill types l = .ok ((List.range' l.count types.length,
      (List.range' l.count types.length).reverse.map .localSet),
        { l with types := l.types ++ types }) := by
  show (types.mapM fresh l >>= fun r => .ok ((r.1, r.1.reverse.map Instr.localSet), r.2)) = _
  rw [mapM_fresh]
  rfl

theorem gives_spill (types : List LaneType) :
    Gives (spill types) fun l l' r => r.1 = List.range' l.count types.length ∧
      r.2 = r.1.reverse.map .localSet ∧ l'.count = l.count + types.length := by
  intro l
  refine ⟨_, _, spill_eq_ok types l, ⟨rfl, List.prefix_append _ _⟩, rfl, rfl, ?_⟩
  simp [Locals.count, Nat.add_assoc]

theorem gives_keep (types : List LaneType) (start count : Nat) :
    Gives (keep types start count) fun l l' code => ∀ (lanes : List Lane) (v : α),
      lanes.length = types.length → R v ((lanes.drop start).take count) →
      y.Emulates l.count l'.count code lanes (pure v) R := by
  refine gives_bind (gives_spill types) fun r =>
    gives_pure fun l₁ l₀ hext _ hr lanes v hlen hv => ?_
  obtain ⟨hlocals, hcode, hcount⟩ := hr
  rw [hcode, hlocals]
  refine emulates_spilled hlen (by omega) (fun t below hholds => ?_) hv
  exact runs_localGets (List.forall₂_take count (List.forall₂_drop start hholds))

theorem length_flatMap_ofValue {pins : List Pin} {vs : List Value} (h : Pin.Carry pins vs) :
    (vs.flatMap Lanes.ofValue).length = (Pin.lanes pins).length := by
  induction h with
  | nil => rfl
  | cons hv _ ih =>
    obtain ⟨base, hbase, hv⟩ := hv
    rw [List.flatMap_cons, Pin.lanes, List.flatMap_cons, List.length_append, List.length_append, ih,
      Pin.lanes, hbase, Lanes.length_ofValue hv]
    rfl

theorem slice_ofValue {pins : List Pin} {vs : List Value} (h : Pin.Carry pins vs) {output : Nat}
    {pin : Pin} (hpin : pins[output]? = some pin) :
    ((vs.flatMap Lanes.ofValue).drop (Pin.lanes (pins.take output)).length).take
      pin.type.lanes.length = Lanes.ofValue (pickOutput vs output) := by
  have hlen := h.length_eq
  have hlt : output < vs.length := by
    rw [← hlen]
    exact (List.getElem?_eq_some_iff.mp hpin).1
  have hget : vs[output]? = some (pickOutput vs output) := by
    have hmin : min output (vs.length - 1) = output := by omega
    rw [pickOutput, hmin, List.getD_eq_getElem?_getD, List.getElem?_eq_getElem hlt]
    rfl
  obtain ⟨base, hbase, hv⟩ := h.pick hpin
  have htake : Pin.Carry (pins.take output) (vs.take output) := List.forall₂_take output h
  rw [← length_flatMap_ofValue htake, hbase,
    show (WireType.value base).lanes.length = _ from (Lanes.length_ofValue hv).symm]
  exact flatMap_slice hget

theorem gives_keepOutput {pins : List Pin} {output : Nat} {pin : Pin}
    (hpin : pins[output]? = some pin) :
    Gives (keepOutput pins output) fun l l' code => ∀ vs, Pin.Carry pins vs →
      y.Emulates l.count l'.count code (vs.flatMap Lanes.ofValue) (pure (pickOutput vs output))
        (Value.InLanes y.program.vars pin.type) := by
  have hlt : output < pins.length := (List.getElem?_eq_some_iff.mp hpin).1
  have hresult : ∀ vs, Pin.Carry pins vs → Value.InLanes y.program.vars pin.type
      (pickOutput vs output) (Lanes.ofValue (pickOutput vs output)) := by
    intro vs hvs
    obtain ⟨base, hbase, hv⟩ := hvs.pick hpin
    rw [hbase]
    exact ⟨hv, rfl⟩
  unfold keepOutput
  by_cases hone : pins.length ≤ 1
  · rw [if_pos hone]
    refine gives_pure fun l vs hvs => ?_
    have hlen := hvs.length_eq
    obtain ⟨v, rfl⟩ := List.length_eq_one_iff.mp (show vs.length = 1 by omega)
    have hv := hresult _ hvs
    rw [pickOutput_one] at hv ⊢
    rw [List.flatMap_singleton]
    exact emulates_nil hv
  · rw [if_neg hone]
    dsimp only
    have hmin : min output (pins.length - 1) = output := by omega
    rw [hmin, Pin.lanes_one hpin]
    have hkeep := gives_keep (y := y) (R := Value.InLanes y.program.vars pin.type) (Pin.lanes pins)
      (Pin.lanes (pins.take output)).length pin.type.lanes.length
    refine gives_mono hkeep fun l l' code hcode vs hvs => ?_
    refine hcode _ _ (length_flatMap_ofValue hvs) ?_
    rw [slice_ofValue hvs hpin]
    exact hresult vs hvs

variable {vars : List Variable} {pins : List Pin} {vs : List Value} {lanes : List Lane}

theorem filled_one {pin : Pin} (h : Pin.Filled vars [pin] vs lanes) :
    ∃ v, vs = [v] ∧ v.InLanes vars pin.type lanes := by
  cases h with
  | cons hv hrest =>
    cases hrest
    rw [List.append_nil]
    exact ⟨_, rfl, hv⟩

theorem filled_cons {pin : Pin} (h : Pin.Filled vars (pin :: pins) vs lanes) :
    ∃ v rest first more, vs = v :: rest ∧ lanes = first ++ more ∧ v.InLanes vars pin.type first ∧
      Pin.Filled vars pins rest more := by
  cases h with
  | cons hv hrest => exact ⟨_, _, _, _, rfl, rfl, hv, hrest⟩

theorem filled_two {p q : Pin} (h : Pin.Filled vars [p, q] vs lanes) :
    ∃ u v first second, vs = [u, v] ∧ lanes = first ++ second ∧ u.InLanes vars p.type first ∧
      v.InLanes vars q.type second := by
  obtain ⟨u, rest, first, more, rfl, rfl, hu, hrest⟩ := filled_cons h
  obtain ⟨v, rfl, hv⟩ := filled_one hrest
  exact ⟨u, v, first, more, rfl, rfl, hu, hv⟩

/-- An instruction that computes a value from the lanes of others. -/
theorem imitates_numeric {op : Numeric} {v : Value} {t : Base} (hv : v.HasBase t)
    (h : ∀ below, op.apply (ins.reverse ++ below) = some ((Lanes.ofValue v).reverse ++ below)) :
    y.Imitates (pure [.numeric op]) ins (pure v) (Value.InLanes y.program.vars (.value t)) :=
  imitates_pure fun _ => emulates_runs _ (fun _ below => runs_numeric (h below)) ⟨hv, rfl⟩

theorem runs_components {op : Numeric} {f : Binary32 → Binary32 → Binary32}
    (hop : ∀ a b below, op.apply (.f32 b :: .f32 a :: below) = some (.f32 (f a b) :: below))
    {t : Machine (World σ)} {is js : Nat → Nat} {u v : Nat → Binary32}
    (hu : ∀ i, i < 3 → t.locals[is i]? = some (.f32 (u i)))
    (hv : ∀ i, i < 3 → t.locals[js i]? = some (.f32 (v i))) (below : List Lane) :
    Runs y.call ((List.range 3).flatMap fun i => getLocals [is i, js i] ++ [.numeric op]) below t
      ([.f32 (f (u 0) (v 0)), .f32 (f (u 1) (v 1)), .f32 (f (u 2) (v 2))].reverse ++ below) t := by
  have hone : ∀ (i : Nat) below, i < 3 →
    Runs y.call (getLocals [is i, js i] ++ [.numeric op]) below t
      (.f32 (f (u i) (v i)) :: below) t := by
    intro i below hi
    refine runs_append (runs_localGets (.cons (hu i hi) (.cons (hv i hi) .nil))) ?_
    exact runs_numeric (hop _ _ below)
  exact runs_append (hone 0 _ (by decide)) (runs_append (hone 1 _ (by decide))
    (runs_append (hone 2 _ (by decide)) runs_nil))

theorem imitates_eachComponent {op : Numeric} {f : Binary32 → Binary32 → Binary32}
    (hop : ∀ a b below, op.apply (.f32 b :: .f32 a :: below) = some (.f32 (f a b) :: below))
    (u v : Vec3) :
    y.Imitates (eachComponent op) (Lanes.vec3 u ++ Lanes.vec3 v)
      (pure (.vec3 ⟨f u.x v.x, f u.y v.y, f u.z v.z⟩))
      (Value.InLanes y.program.vars (.value .vec3)) := by
  refine gives_bind (gives_spill _) fun r => gives_pure fun l₁ l₀ hext _ hr => ?_
  obtain ⟨hlocals, hcode, hcount⟩ := hr
  rw [hcode, hlocals]
  have hresult : Value.InLanes y.program.vars (.value .vec3)
    (.vec3 ⟨f u.x v.x, f u.y v.y, f u.z v.z⟩)
      [.f32 (f u.x v.x), .f32 (f u.y v.y), .f32 (f u.z v.z)] := ⟨trivial, rfl⟩
  refine emulates_spilled rfl (Nat.le_of_eq hcount.symm) (fun t below hholds => ?_) hresult
  obtain _ | ⟨h0, _ | ⟨h1, _ | ⟨h2, _ | ⟨h3, _ | ⟨h4, _ | ⟨h5, _⟩⟩⟩⟩⟩⟩ := hholds
  refine runs_components (u := fun i => [u.x, u.y, u.z].getD i 0)
    (v := fun i => [v.x, v.y, v.z].getD i 0)
    hop (fun i hi => ?_) (fun i hi => ?_) below
  · match i, hi with
    | 0, _ => exact h0
    | 1, _ => exact h1
    | 2, _ => exact h2
  · match i, hi with
    | 0, _ => exact h3
    | 1, _ => exact h4
    | 2, _ => exact h5

theorem imitates_scaleComponents (u : Vec3) (k : Binary32) :
    y.Imitates scaleComponents (Lanes.vec3 u ++ [.f32 k]) (pure (.vec3 (u * k)))
      (Value.InLanes y.program.vars (.value .vec3)) := by
  refine gives_bind (gives_spill _) fun r => gives_pure fun l₁ l₀ hext _ hr => ?_
  obtain ⟨hlocals, hcode, hcount⟩ := hr
  rw [hcode, hlocals]
  have hresult : Value.InLanes y.program.vars (.value .vec3) (.vec3 (u * k))
      [.f32 (u.x * k), .f32 (u.y * k), .f32 (u.z * k)] := ⟨trivial, rfl⟩
  refine emulates_spilled rfl (Nat.le_of_eq hcount.symm) (fun t below hholds => ?_) hresult
  obtain _ | ⟨h0, _ | ⟨h1, _ | ⟨h2, _ | ⟨h3, _⟩⟩⟩⟩ := hholds
  refine runs_components (f := fun a b => a * b) (u := fun i => [u.x, u.y, u.z].getD i 0)
    (v := fun _ => k) (fun _ _ _ => rfl) (fun i hi => ?_) (fun _ _ => h3) below
  match i, hi with
  | 0, _ => exact h0
  | 1, _ => exact h1
  | 2, _ => exact h2

theorem imitates_single {code : Emit Code} {only pin : Pin} {output : Nat} {v : Value}
    (hpin : [only][output]? = some pin)
    (h : y.Imitates code ins (pure v) (Value.InLanes y.program.vars only.type)) :
    y.Imitates code ins (pure (pickOutput [v] output))
      (Value.InLanes y.program.vars pin.type) := by
  rw [eq_of_single hpin, pickOutput_one]
  exact h

theorem imitates_operation {op : Operation} {output : Nat} {pin : Pin}
    (hpin : op.shape.outputs[output]? = some pin)
    (h : Pin.Filled y.program.vars op.shape.inputs vs lanes) :
    y.Imitates (operation op output) lanes (pure (pickOutput (op.apply vs) output))
      (Value.InLanes y.program.vars pin.type) := by
  cases op with
  | negate | round | floor | ceiling | absolute =>
    obtain ⟨u, rfl, hu⟩ := filled_one h
    obtain ⟨⟨a, rfl⟩, rfl⟩ := And.intro hu.1.float hu.2
    exact imitates_single hpin (imitates_numeric (t := .float) trivial fun _ => rfl)
  | addNumbers | subtractNumbers | multiply | divide =>
    obtain ⟨u, v, first, second, rfl, rfl, hu, hv⟩ := filled_two h
    obtain ⟨⟨a, rfl⟩, rfl⟩ := And.intro hu.1.float hu.2
    obtain ⟨⟨b, rfl⟩, rfl⟩ := And.intro hv.1.float hv.2
    exact imitates_single hpin (imitates_numeric (t := .float) trivial fun _ => rfl)
  | lessThan | greaterThan =>
    obtain ⟨u, v, first, second, rfl, rfl, hu, hv⟩ := filled_two h
    obtain ⟨⟨a, rfl⟩, rfl⟩ := And.intro hu.1.float hu.2
    obtain ⟨⟨b, rfl⟩, rfl⟩ := And.intro hv.1.float hv.2
    exact imitates_single hpin (imitates_numeric (t := .bool) trivial fun _ => rfl)
  | not =>
    obtain ⟨u, rfl, hu⟩ := filled_one h
    obtain ⟨⟨t, rfl⟩, rfl⟩ := And.intro hu.1.bool hu.2
    refine imitates_single hpin (imitates_numeric (t := .bool) trivial fun below => ?_)
    cases t <;> rfl
  | equalObjects =>
    obtain ⟨u, v, first, second, rfl, rfl, hu, hv⟩ := filled_two h
    obtain ⟨⟨i, rfl⟩, rfl⟩ := And.intro hu.1.obj hu.2
    obtain ⟨⟨j, rfl⟩, rfl⟩ := And.intro hv.1.obj hv.2
    exact imitates_single hpin (imitates_numeric (t := .bool) trivial fun _ => rfl)
  | equalTruths =>
    obtain ⟨u, v, first, second, rfl, rfl, hu, hv⟩ := filled_two h
    obtain ⟨⟨s, rfl⟩, rfl⟩ := And.intro hu.1.bool hu.2
    obtain ⟨⟨t, rfl⟩, rfl⟩ := And.intro hv.1.bool hv.2
    refine imitates_single hpin (imitates_numeric (t := .bool) trivial fun below => ?_)
    cases s <;> cases t <;> rfl
  | addVectors | subtractVectors =>
    obtain ⟨u, v, first, second, rfl, rfl, hu, hv⟩ := filled_two h
    obtain ⟨⟨i, rfl⟩, rfl⟩ := And.intro hu.1.vec3 hu.2
    obtain ⟨⟨j, rfl⟩, rfl⟩ := And.intro hv.1.vec3 hv.2
    exact imitates_single hpin (imitates_eachComponent (fun _ _ _ => rfl) i j)
  | scale =>
    obtain ⟨u, v, first, second, rfl, rfl, hu, hv⟩ := filled_two h
    obtain ⟨⟨i, rfl⟩, rfl⟩ := And.intro hu.1.vec3 hu.2
    obtain ⟨⟨k, rfl⟩, rfl⟩ := And.intro hv.1.float hv.2
    exact imitates_single hpin (imitates_scaleComponents i k)
  | makeVector =>
    obtain ⟨u, rest, first, more, rfl, rfl, hu, hrest⟩ := filled_cons h
    obtain ⟨v, w, second, third, rfl, rfl, hv, hw⟩ := filled_two hrest
    obtain ⟨⟨a, rfl⟩, rfl⟩ := And.intro hu.1.float hu.2
    obtain ⟨⟨b, rfl⟩, rfl⟩ := And.intro hv.1.float hv.2
    obtain ⟨⟨c, rfl⟩, rfl⟩ := And.intro hw.1.float hw.2
    exact imitates_single hpin (imitates_pure fun lo => emulates_nil ⟨trivial, rfl⟩)
  | breakVector =>
    obtain ⟨u, rfl, hu⟩ := filled_one h
    obtain ⟨⟨i, rfl⟩, rfl⟩ := And.intro hu.1.vec3 hu.2
    refine gives_mono (gives_keepOutput (y := y) hpin) fun l l' code hcode => ?_
    have hcount : [Value.vec3 i].length = Operation.breakVector.shape.inputs.length := rfl
    exact hcode _ (Operation.carry_apply hcount)

end Compiler
end SignalGraph
