import Mathlib.Data.List.Forall2
import SignalGraph.Proofs.Blocks.Catalogs
import SignalGraph.Run.Blocks

/-!
# Typed values

Which values are right for a wire, and that the tables behind the blocks return such values.
-/

namespace SignalGraph

namespace Value

variable {vars : List Variable} {v : Value}

/-- Whether a value is right for a type.  A missing pointer is `void`; a pointer that is there leads
to a variable of its base type. -/
def Fits (vars : List Variable) : WireType → Value → Prop
  | .void, v => v = .void
  | .value b, v => v.HasBase b
  | .pointer b, v =>
    v = .void ∨ ∃ p decl, v = .ptr p ∧ vars[p.var]? = some decl ∧ decl.type = b

theorem HasBase.float (h : v.HasBase .float) : ∃ x, v = .float x := by
  cases v with
  | float x => exact ⟨x, rfl⟩
  | _ => exact h.elim

theorem HasBase.vec3 (h : v.HasBase .vec3) : ∃ x, v = .vec3 x := by
  cases v with
  | vec3 x => exact ⟨x, rfl⟩
  | _ => exact h.elim

theorem HasBase.rot (h : v.HasBase .rot) : ∃ q, v = .rot q := by
  cases v with
  | rot q => exact ⟨q, rfl⟩
  | _ => exact h.elim

theorem HasBase.bool (h : v.HasBase .bool) : ∃ b, v = .bool b := by
  cases v with
  | bool b => exact ⟨b, rfl⟩
  | _ => exact h.elim

theorem HasBase.obj (h : v.HasBase .obj) : ∃ id, v = .obj id := by
  cases v with
  | obj id => exact ⟨id, rfl⟩
  | _ => exact h.elim

theorem HasBase.con (h : v.HasBase .con) : ∃ id, v = .con id := by
  cases v with
  | con id => exact ⟨id, rfl⟩
  | _ => exact h.elim

/-- A value of a base type is one of the values of that type. -/
@[elab_as_elim]
theorem HasBase.cases {motive : ∀ (b : Base) (v : Value), v.HasBase b → Prop}
    (float : ∀ x h, motive .float (.float x) h) (vec3 : ∀ x h, motive .vec3 (.vec3 x) h)
    (rot : ∀ q h, motive .rot (.rot q) h) (bool : ∀ t h, motive .bool (.bool t) h)
    (obj : ∀ id h, motive .obj (.obj id) h) (con : ∀ id h, motive .con (.con id) h) :
    ∀ {b : Base} {v : Value} (h : v.HasBase b), motive b v h
  | .float, .float x, h => float x h
  | .vec3, .vec3 x, h => vec3 x h
  | .rot, .rot q, h => rot q h
  | .bool, .bool t, h => bool t h
  | .obj, .obj id, h => obj id h
  | .con, .con id, h => con id h

theorem HasBase.ne_void {b : Base} (h : v.HasBase b) : v ≠ .void := by
  rintro rfl
  cases b <;> exact h.elim

end Value

abbrev Pin.Carry (pins : List Pin) (vs : List Value) : Prop :=
  List.Forall₂ (fun pin v => ∃ b, pin.type = .value b ∧ v.HasBase b) pins vs

theorem eq_of_single {α : Type} {a b : α} {i : Nat} (h : [a][i]? = some b) : b = a := by
  cases i with
  | zero =>
    cases h
    rfl
  | succ i => exact nomatch h

theorem Pin.carry_one {pin : Pin} {b : Base} {v : Value} (hpin : pin.type = .value b)
    (hv : v.HasBase b) : Pin.Carry [pin] [v] :=
  .cons ⟨b, hpin, hv⟩ .nil

/-- Of the outputs of a block, each has its own type. -/
theorem Pin.Carry.pick {pins : List Pin} {vs : List Value} (h : Pin.Carry pins vs) {output : Nat}
    {pin : Pin} (hpin : pins[output]? = some pin) :
    ∃ b, pin.type = .value b ∧ (pickOutput vs output).HasBase b := by
  have hlen := h.length_eq
  have hlt : output < pins.length := (List.getElem?_eq_some_iff.mp hpin).1
  have hmin : min output (vs.length - 1) = output := by omega
  rw [pickOutput, hmin, List.getD_eq_getElem?_getD, List.getElem?_eq_getElem (by omega)]
  have hget := List.forall₂_iff_get.mp h
  obtain ⟨b, hb, hv⟩ := hget.2 output hlt (by omega)
  have heq : pins[output] = pin := (List.getElem?_eq_some_iff.mp hpin).2
  refine ⟨b, ?_, hv⟩
  rw [← heq]
  exact hb

theorem pickOutput_one (v : Value) (output : Nat) : pickOutput [v] output = v := by
  rw [pickOutput, List.length_singleton, Nat.sub_self, Nat.min_zero]
  rfl

theorem Operation.carry_apply {op : Operation} {vs : List Value}
    (h : vs.length = op.shape.inputs.length) : Pin.Carry op.shape.dataOutputs (op.apply vs) := by
  cases op with
  | negate | not | round | floor | ceiling | absolute =>
    obtain ⟨a, rfl⟩ := List.length_eq_one_iff.mp h
    exact Pin.carry_one rfl trivial
  | breakVector =>
    obtain ⟨a, rfl⟩ := List.length_eq_one_iff.mp h
    exact .cons ⟨.float, rfl, trivial⟩ (.cons ⟨.float, rfl, trivial⟩ (Pin.carry_one rfl trivial))
  | makeVector =>
    obtain ⟨a, b, c, rfl⟩ := List.length_eq_three.mp h
    exact Pin.carry_one rfl trivial
  | _ =>
    obtain ⟨a, b, rfl⟩ := List.length_eq_two.mp h
    exact Pin.carry_one rfl trivial

theorem Routine.carry_apply {r : Routine} {vs : List Value}
    (h : vs.length = r.shape.inputs.length) : Pin.Carry r.shape.dataOutputs (r.apply vs) := by
  cases r with
  | inverse | sin | cos | normalize =>
    obtain ⟨a, rfl⟩ := List.length_eq_one_iff.mp h
    exact Pin.carry_one rfl trivial
  | breakRotation =>
    obtain ⟨a, rfl⟩ := List.length_eq_one_iff.mp h
    exact .cons ⟨.float, rfl, trivial⟩ (.cons ⟨.float, rfl, trivial⟩ (Pin.carry_one rfl trivial))
  | lerp | makeRotation =>
    obtain ⟨a, b, c, rfl⟩ := List.length_eq_three.mp h
    exact Pin.carry_one rfl trivial
  | lineVsPlane =>
    obtain ⟨a, rest, rfl⟩ := List.exists_of_length_succ vs h
    obtain ⟨b, c, d, rfl⟩ := List.length_eq_three.mp (Nat.succ.inj h)
    exact Pin.carry_one rfl trivial
  | _ =>
    obtain ⟨a, b, rfl⟩ := List.length_eq_two.mp h
    exact Pin.carry_one rfl trivial

variable {σ : Type}

theorem Query.carry_ask (e : Engine σ) {q : Query} {vs : List Value}
    (h : vs.length = q.shape.inputs.length) (s : σ) :
    Pin.Carry q.shape.dataOutputs (q.ask e vs s).1 := by
  cases q with
  | accelerometer =>
    obtain rfl := List.length_eq_zero_iff.mp h
    exact Pin.carry_one rfl trivial
  | screenSize =>
    obtain rfl := List.length_eq_zero_iff.mp h
    exact .cons ⟨.float, rfl, trivial⟩ (Pin.carry_one rfl trivial)
  | getPosition =>
    obtain ⟨a, rfl⟩ := List.length_eq_one_iff.mp h
    exact .cons ⟨.vec3, rfl, trivial⟩ (Pin.carry_one rfl trivial)
  | getSize | getVelocity =>
    obtain ⟨a, rfl⟩ := List.length_eq_one_iff.mp h
    exact .cons ⟨.vec3, rfl, trivial⟩ (Pin.carry_one rfl trivial)
  | worldToScreen =>
    obtain ⟨a, rfl⟩ := List.length_eq_one_iff.mp h
    exact .cons ⟨.float, rfl, trivial⟩ (Pin.carry_one rfl trivial)
  | random =>
    obtain ⟨a, b, rfl⟩ := List.length_eq_two.mp h
    exact Pin.carry_one rfl trivial
  | raycast =>
    obtain ⟨a, b, rfl⟩ := List.length_eq_two.mp h
    exact .cons ⟨.bool, rfl, trivial⟩ (.cons ⟨.vec3, rfl, trivial⟩ (Pin.carry_one rfl trivial))
  | screenToWorld =>
    obtain ⟨a, b, rfl⟩ := List.length_eq_two.mp h
    exact .cons ⟨.vec3, rfl, trivial⟩ (Pin.carry_one rfl trivial)

/-- What a node keeps of an answer is of the type of its slot. -/
theorem Effect.keeps_perform (e : Engine σ) {effect : Effect} {number : Int32}
    {vs : List (Option Value)} {s : σ} {v : Value} (h : (effect.perform e number vs s).1 = some v) :
    ∃ purpose b, effect.slots = [(purpose, b)] ∧ v.HasBase b := by
  unfold perform at h
  split at h
  all_goals first
    | (cases h
       exact ⟨_, _, rfl, trivial⟩)
    | exact nomatch h

/-- Requests without a number do not depend on one. -/
theorem Effect.perform_number (e : Engine σ) {effect : Effect} (h : effect.hasNumber = false)
    (number number' : Int32) (vs : List (Option Value)) :
    effect.perform e number vs = effect.perform e number' vs := by
  cases effect with
  | win | lose | setScore | setCamera | playSound | joystick => exact nomatch h
  | _ =>
    rcases vs with _ | ⟨_ | a, _ | ⟨_ | b, _ | ⟨c, _ | ⟨d, _ | ⟨x, rest⟩⟩⟩⟩⟩ <;> rfl

theorem Literal.carry_value (c : Constant) (l : Literal) :
    Pin.Carry l.shape.dataOutputs [l.value c] := by
  rcases l with _ | _ | _ | (_ | _) <;> exact Pin.carry_one rfl trivial

end SignalGraph
