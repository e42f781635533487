import SignalGraph.Compiler.Host
import SignalGraph.Proofs.Emission.Pins
import SignalGraph.Proofs.Execution.Values

/-!
# Values in lanes

What travels in lanes can be read back: values by the type of what holds them, ids by their number.
A missing pointer may have any index, because elements of a list that is not there are not there
either.
-/

namespace SignalGraph

open Wasm

def Value.InLanes (vars : List Variable) : WireType → Value → List Lane → Prop
  | .void, _, _ => False
  | .value b, v, lanes => v.HasBase b ∧ lanes = Lanes.ofValue v
  | .pointer b, v, lanes => (v = .void ∧ ∃ i, lanes = [.i32 (-1), .i32 i]) ∨
      ∃ q decl, v = .ptr q ∧ vars[q.var]? = some decl ∧ decl.type = b ∧ lanes = Lanes.pointer q

theorem toNat_ofNat {n : Nat} (h : n < 4294967296) : Host.idOf (Int32.ofNat n) = n := by
  rw [Host.idOf, Int32.toUInt32_ofNat', UInt32.toNat_ofNat', Nat.mod_eq_of_lt h]

theorem ofNat_inj {a b : Nat} (ha : a < 4294967296) (hb : b < 4294967296)
    (h : Int32.ofNat a = Int32.ofNat b) : a = b := by
  rw [← toNat_ofNat ha, ← toNat_ofNat hb, h]

theorem toInt_ofNat {n : Nat} (h : n < 2147483648) : (Int32.ofNat n).toInt = n :=
  Int32.toInt_ofNat_of_lt h

namespace Lanes

theorem toPointer_ofNat {var : VarId} (h : var < 2147483648) (index : Int32) :
    toPointer (Int32.ofNat var) index = some { var, index } := by
  rw [toPointer, toInt_ofNat h, if_pos (Int.natCast_nonneg var), Int.toNat_natCast]

theorem toPointer_missing (index : Int32) : toPointer (-1) index = none := rfl

variable {b : Base} {v : Value}

theorem length_ofValue (h : v.HasBase b) : (ofValue v).length = b.lanes.length := by
  cases h using Value.HasBase.cases <;> rfl

theorem truth_ne_zero (t : Bool) : ((if t then 1 else 0 : Int32) != 0) = t := by
  cases t <;> rfl

/-- What was put in lanes is read back. -/
theorem toValue_ofValue (h : v.HasBase b) : toValue b (ofValue v) = v := by
  cases h using Value.HasBase.cases with
  | bool t => exact congrArg Value.bool (truth_ne_zero t)
  | _ => rfl

end Lanes

namespace Format

variable {b : Base} {v : Value}

theorem toValue_ofBase (h : v.HasBase b) : (ofBase b).toValue (.value b) (Lanes.ofValue v) = v := by
  cases h using Value.HasBase.cases with
  | bool t => exact congrArg Value.bool (Lanes.truth_ne_zero t)
  | _ => rfl

theorem ofValue_ofBase (h : v.HasBase b) : (ofBase b).ofValue v = Lanes.ofValue v := by
  cases h using Value.HasBase.cases <;> rfl

/-- Nothing reads as the default. -/
theorem ofValue_void (b : Base) : (ofBase b).ofValue .void = Lanes.ofValue b.default := by
  cases b <;> rfl

/-- A slot holds no rotation, and everything else has one layout. -/
theorem ofSlot_eq (h : b ≠ .rot) : ofSlot b = ofBase b := by
  cases b with
  | rot => exact absurd rfl h
  | _ => rfl

end Format

namespace Value

variable {vars : List Variable} {type : WireType} {v : Value} {lanes : List Lane}

theorem InLanes.fits (h : v.InLanes vars type lanes) : v.Fits vars type := by
  cases type with
  | void => exact h.elim
  | value b => exact h.1
  | pointer b => exact h.imp (·.1) fun ⟨q, decl, hv, hdecl, htype, _⟩ => ⟨q, decl, hv, hdecl, htype⟩

theorem InLanes.length (h : v.InLanes vars type lanes) : lanes.length = type.lanes.length := by
  cases type with
  | void => exact h.elim
  | value b =>
    rw [h.2]
    exact Lanes.length_ofValue h.1
  | pointer b =>
    rcases h with ⟨-, i, rfl⟩ | ⟨q, decl, -, -, -, rfl⟩ <;> rfl

theorem InLanes.pointer {b : Base} (h : v.InLanes vars (.pointer b) lanes)
    (hvars : vars.length ≤ 2147483648) :
    ∃ var index, lanes = [.i32 var, .i32 index] ∧ Lanes.toPointer var index = v.asPtr := by
  rcases h with ⟨rfl, i, rfl⟩ | ⟨q, decl, rfl, hdecl, -, rfl⟩
  · exact ⟨-1, i, rfl, Lanes.toPointer_missing i⟩
  · have hlt := (List.getElem?_eq_some_iff.mp hdecl).1
    exact ⟨_, q.index, rfl, Lanes.toPointer_ofNat (Nat.lt_of_lt_of_le hlt hvars) q.index⟩

end Value

/-- Elements with a value each, and the lanes of all values in order. -/
inductive Rows {α β : Type} (R : β → α → List Lane → Prop) : List β → List α → List Lane → Prop
  | nil : Rows R [] [] []
  | cons {b : β} {v : α} {bs : List β} {vs : List α} {first rest : List Lane} :
    R b v first → Rows R bs vs rest → Rows R (b :: bs) (v :: vs) (first ++ rest)

variable {α β : Type} {vars : List Variable}

theorem rows_of_zipIdx {R : β × Nat → α → List Lane → Prop} {S : β → α → List Lane → Prop} :
    ∀ {bs : List β} {k : Nat} {vs : List α} {lanes : List Lane}, Rows R (bs.zipIdx k) vs lanes →
      (∀ i b v l, bs[i]? = some b → R (b, k + i) v l → S b v l) → Rows S bs vs lanes
  | [], k, vs, lanes, h, _ => by
    cases h
    exact .nil
  | b :: bs, k, vs, lanes, h, hS => by
    cases h with
    | cons hfirst hrest =>
      refine .cons (hS 0 b _ _ rfl hfirst) (rows_of_zipIdx hrest fun i b' v l hb hR => ?_)
      refine hS (i + 1) b' v l hb ?_
      rw [Nat.add_comm i, ← Nat.add_assoc]
      exact hR

theorem rows_of_map {γ : Type} {f : γ → β} {R : β → α → List Lane → Prop} :
    ∀ {cs : List γ} {vs : List α} {lanes : List Lane}, Rows R (cs.map f) vs lanes →
      Rows (fun c => R (f c)) cs vs lanes
  | [], _, _, .nil => .nil
  | _ :: _, _, _, .cons hfirst hrest => .cons hfirst (rows_of_map hrest)

theorem rows_of_range {R : Nat → α → List Lane → Prop} {S : β → α → List Lane → Prop}
    {bs : List β} {k : Nat} {vs : List α} {lanes : List Lane}
    (h : Rows R (List.range' k bs.length) vs lanes)
    (hS : ∀ i b v l, bs[i]? = some b → R (k + i) v l → S b v l) : Rows S bs vs lanes := by
  rw [← List.zipIdx_map_snd] at h
  exact rows_of_zipIdx (rows_of_map h) hS

abbrev Pin.Filled (vars : List Variable) (pins : List Pin) (vs : List Value) (lanes : List Lane) :
    Prop :=
  Rows (fun pin v l => v.InLanes vars pin.type l) pins vs lanes

theorem Pin.Filled.length {pins : List Pin} {vs : List Value} {lanes : List Lane}
    (h : Pin.Filled vars pins vs lanes) : lanes.length = (Pin.lanes pins).length := by
  induction h with
  | nil => rfl
  | cons hfirst _ ih =>
    rw [List.length_append, ih, hfirst.length, Pin.lanes, Pin.lanes, List.flatMap_cons,
      List.length_append]

theorem Pin.Filled.count {pins : List Pin} {vs : List Value} {lanes : List Lane}
    (h : Pin.Filled vars pins vs lanes) : vs.length = pins.length := by
  induction h with
  | nil => rfl
  | cons _ _ ih => rw [List.length_cons, List.length_cons, ih]

/-- The host reads the values of inputs from their lanes. -/
theorem Host.values_eq {pins : List Pin} {vs : List Value} {lanes : List Lane}
    (h : Pin.Filled vars pins vs lanes) (hpins : ∀ pin ∈ pins, pin.type.isValue = true) :
    Host.values pins lanes = vs := by
  induction h with
  | nil => rfl
  | @cons pin v bs vs first rest hfirst _ ih =>
    obtain ⟨b, hb⟩ := WireType.isValue_iff.mp (hpins pin List.mem_cons_self)
    have hlen := hfirst.length
    rw [hb] at hfirst
    obtain ⟨hbase, rfl⟩ := hfirst
    rw [Host.values, ← hlen, List.take_left, List.drop_left,
      ih fun pin hpin => hpins pin (List.mem_cons_of_mem _ hpin), Host.pinValue, hb]
    show Lanes.toValue b _ :: _ = _
    rw [Lanes.toValue_ofValue hbase]

/-- The lanes of an input that may be left out, after their flag. -/
def Pin.InFlagged (pin : Pin) (v : Option Value) (lanes : List Lane) : Prop :=
  ∃ b, pin.type = .value b ∧
    if pin.optional then
      (v = none ∧ ∃ rest, rest.length = b.lanes.length ∧ lanes = .i32 0 :: rest) ∨
        ∃ u, v = some u ∧ u.HasBase b ∧ lanes = .i32 1 :: Lanes.ofValue u
    else ∃ u, v = some u ∧ u.HasBase b ∧ lanes = Lanes.ofValue u

theorem Pin.InFlagged.length {pin : Pin} {v : Option Value} {lanes : List Lane}
    (h : pin.InFlagged v lanes) :
    lanes.length = (if pin.optional then .i32 :: pin.type.lanes else pin.type.lanes).length := by
  obtain ⟨b, hb, h⟩ := h
  rw [hb]
  by_cases hoptional : pin.optional = true
  · rw [if_pos hoptional] at h ⊢
    rcases h with ⟨-, rest, hrest, rfl⟩ | ⟨u, -, hu, rfl⟩
    · exact congrArg (· + 1) hrest
    · exact congrArg (· + 1) (Lanes.length_ofValue hu)
  · rw [if_neg hoptional] at h ⊢
    obtain ⟨u, -, hu, rfl⟩ := h
    exact Lanes.length_ofValue hu

theorem Host.flaggedValues_cons (pin : Pin) (pins : List Pin) (lanes : List Lane) :
    Host.flaggedValues (pin :: pins) lanes =
      let count := pin.type.lanes.length
      let present := if pin.optional then (lanes.headD (.i32 0)).asInt != 0 else true
      let rest := if pin.optional then lanes.drop 1 else lanes
      let v := if present then some (Host.pinValue pin (rest.take count)) else none
      (v :: (Host.flaggedValues pins (rest.drop count)).1,
        (Host.flaggedValues pins (rest.drop count)).2) := by
  rw [Host.flaggedValues]
  by_cases hoptional : pin.optional = true
  · rw [if_pos hoptional, if_pos hoptional, if_pos hoptional]
  · rw [if_neg hoptional, if_neg hoptional, if_neg hoptional]

/-- The host reads the values of an effect from their lanes, and leaves the lanes after them. -/
theorem Host.flaggedValues_eq {pins : List Pin} {vs : List (Option Value)} {lanes : List Lane}
    (h : Rows Pin.InFlagged pins vs lanes) (after : List Lane) :
    Host.flaggedValues pins (lanes ++ after) = (vs, after) := by
  induction h with
  | nil => rfl
  | @cons pin v bs vs first rest hfirst _ ih =>
    obtain ⟨b, hb, hfirst⟩ := hfirst
    have hdecode : ∀ {u : Value}, u.HasBase b → ∀ more, (Lanes.ofValue u ++ more).drop
        pin.type.lanes.length = more ∧ Host.pinValue pin ((Lanes.ofValue u ++ more).take
          pin.type.lanes.length) = u := by
      intro u hu more
      have hlen : pin.type.lanes.length = (Lanes.ofValue u).length := by
        rw [hb]
        exact (Lanes.length_ofValue hu).symm
      rw [hlen, List.drop_left, List.take_left, Host.pinValue, hb]
      exact ⟨rfl, Lanes.toValue_ofValue hu⟩
    rw [Host.flaggedValues_cons]
    dsimp only
    by_cases hoptional : pin.optional = true
    · rw [if_pos hoptional] at hfirst
      simp only [if_pos hoptional]
      rcases hfirst with ⟨rfl, zeros, hzeros, rfl⟩ | ⟨u, rfl, hu, rfl⟩
      · have hdrop : (zeros ++ (rest ++ after)).drop pin.type.lanes.length = rest ++ after := by
          rw [hb, show (WireType.value b).lanes.length = zeros.length from hzeros.symm,
            List.drop_left]
        rw [List.append_assoc, List.cons_append, List.drop_one, List.tail_cons, hdrop, ih]
        rfl
      · obtain ⟨hdrop, hvalue⟩ := hdecode hu (rest ++ after)
        rw [List.append_assoc, List.cons_append, List.drop_one, List.tail_cons, hdrop, ih, hvalue]
        rfl
    · rw [if_neg hoptional] at hfirst
      simp only [if_neg hoptional]
      obtain ⟨u, rfl, hu, rfl⟩ := hfirst
      obtain ⟨hdrop, hvalue⟩ := hdecode hu (rest ++ after)
      rw [List.append_assoc, hdrop, ih, hvalue]
      rfl

theorem Effect.perform_keeps {σ : Type} (e : Engine σ) {effect : Effect}
    {purpose : String} {b : Base}
    (hslots : effect.slots = [(purpose, b)]) {vs : List (Option Value)} {lanes : List Lane}
    (h : Rows Pin.InFlagged effect.shape.inputs vs lanes) (number : Int32) (s : σ) :
    ∃ v, (effect.perform e number vs s).1 = some v := by
  cases effect with
  | joystick =>
    cases h
    exact ⟨_, rfl⟩
  | createObject =>
    obtain _ | ⟨⟨_, _, u, rfl, -⟩, _ | _⟩ := h
    exact ⟨_, rfl⟩
  | playSound =>
    obtain _ | ⟨⟨_, _, u, rfl, -⟩, _ | ⟨⟨_, _, w, rfl, -⟩, _ | _⟩⟩ := h
    exact ⟨_, rfl⟩
  | addConstraint =>
    obtain _ | ⟨⟨_, _, u, rfl, -⟩, _ | ⟨⟨_, _, w, rfl, -⟩, _ | ⟨-, _ | _⟩⟩⟩ := h
    exact ⟨_, rfl⟩
  | _ => exact nomatch hslots

end SignalGraph
