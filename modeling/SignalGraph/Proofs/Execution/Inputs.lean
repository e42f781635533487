import SignalGraph.Proofs.Analysis.WellFormed
import SignalGraph.Proofs.Execution.Triples
import SignalGraph.Proofs.Stores.Typed

/-!
# Evaluation

Evaluating an input of a well-formed program in a typed state yields a value of the type of the
input, and leaves the state typed.
-/

namespace SignalGraph
namespace Interpreter

variable {σ α : Type}

/-- The stores hold what the program declares, memo points hold values of their types, and only late
tasks are queued. -/
structure State.Typed (p : Program) (s : State σ) : Prop where
  slots : s.world.slots.Typed p.slots
  vars : s.world.vars.Typed p.vars
  memoSize : s.memo.size = p.memoPoints.length
  memo : ∀ (k : MemoId) (v : Value), s.memo[k]? = some (some v) →
    ∃ m, p.memoPoints[k]? = some m ∧ v.Fits p.vars m.type
  late : ∀ id ∈ s.world.late, p.IsLate id

theorem State.Typed.ask {p : Program} {s : State σ} (h : s.Typed p) (action : StateM σ α) :
    State.Typed p ⟨(World.ask action s.world).2, s.memo⟩ :=
  ⟨h.slots, h.vars, h.memoSize, h.memo, h.late⟩

theorem State.Typed.restore {p : Program} {s : State σ} (h : s.Typed p)
    {entries : List SavedVariable}
    (hentries : ∀ entry ∈ entries, VariableStore.EntryTyped entry) :
    State.Typed p ⟨{ s.world with vars := s.world.vars.restore entries }, s.memo⟩ :=
  ⟨h.slots, VariableStore.typed_restore h.vars hentries, h.memoSize, h.memo, h.late⟩

/-- A value at an input: of the type of the pin, or nothing where the operand is absent. -/
def InputFits (p : Program) (o : Operand) (pin : Pin) (v : Value) : Prop :=
  (o = .absent ∧ v = .void) ∨ v.Fits p.vars pin.type

/-- An element of a list is a pointer of the type of the list. -/
theorem fits_element {vars : List Variable} {v : Value} {b : Base} (h : v.Fits vars (.pointer b))
    (offset : Binary32) : (element v offset).Fits vars (.pointer b) := by
  rcases h with rfl | ⟨p, decl, rfl, hdecl, htype⟩
  · exact .inl rfl
  · exact .inr ⟨_, decl, rfl, hdecl, htype⟩

variable {p : Program} {E : State σ → Prop}

theorem meets_load {b : Base} {v : Value} (hv : v.Fits p.vars (.pointer b)) :
    Meets (State.Typed p) E (load (.pointer b) v : Run σ Value) (·.HasBase b) := by
  rcases hv with rfl | ⟨q, decl, rfl, hdecl, rfl⟩
  · exact meets_pure (Value.hasBase_default b)
  · refine meets_bind meets_get fun s hs => ?_
    have hbase := VariableStore.hasBase_get hs.vars hdecl
    split
    · exact meets_pure (Value.hasBase_default decl.type)
    · exact meets_pure hbase

theorem typed_setMemo {s : State σ} (hs : s.Typed p) {k : MemoId} {m : MemoPoint} {v : Value}
    (hm : p.memoPoints[k]? = some m) (hv : v.Fits p.vars m.type) :
    State.Typed p { s with memo := s.memo.setIfInBounds k (some v) } := by
  refine ⟨hs.slots, hs.vars, by rw [Array.size_setIfInBounds]; exact hs.memoSize, ?_, hs.late⟩
  intro i u hu
  rw [Array.getElem?_setIfInBounds] at hu
  by_cases hi : k = i
  · subst hi
    rw [if_pos rfl] at hu
    split at hu
    · cases hu
      exact ⟨m, hm, hv⟩
    · exact nomatch hu
  · rw [if_neg hi] at hu
    exact hs.memo i u hu

theorem meets_memoized {k : MemoId} {m : MemoPoint} {compute : Run σ Value}
    (hm : p.memoPoints[k]? = some m)
    (hcompute : Meets (State.Typed p) E compute (Value.Fits p.vars m.type)) :
    Meets (State.Typed p) E (memoized k compute) (Value.Fits p.vars m.type) := by
  refine meets_bind meets_get fun s hs => ?_
  split
  · next v hv =>
    obtain ⟨m', hm', hfits⟩ := hs.memo k v (Option.join_eq_some_iff.mp hv)
    rw [hm] at hm'
    cases hm'
    exact meets_pure hfits
  · refine meets_bind hcompute fun v hv => ?_
    refine meets_bind (meets_modify (Q := fun _ => True) (fun s hs => ?_) trivial) fun _ _ =>
      meets_pure hv
    exact typed_setMemo hs hm hv

variable {produce : Producer → Run σ Value}

/-- The value on a wire, as its memo point or its source gives it. -/
def fetch (produce : Producer → Run σ Value) (w : Wire) : Run σ Value :=
  match w.memo with
  | some k => memoized k (produce w.source)
  | none => produce w.source

theorem readWire_eq (w : Wire) : readWire produce w = (do
    let v ← fetch produce w
    if w.deref then load w.type v else return v) := by
  unfold readWire fetch
  cases w.memo <;> rfl

theorem meets_fetch (hp : p.WellFormed) {w : Wire} {type : WireType} (hw : w.Fits p type)
    (hproduce : Meets (State.Typed p) E (produce w.source) (Value.Fits p.vars w.type)) :
    Meets (State.Typed p) E (fetch produce w) (Value.Fits p.vars w.type) := by
  unfold fetch
  split
  · next k hk =>
    obtain ⟨m, hm, -, htype⟩ := hw.memoPoint hp hk
    rw [← htype] at hproduce ⊢
    exact meets_memoized hm hproduce
  · exact hproduce

theorem meets_readWire (hp : p.WellFormed) {w : Wire} {type : WireType} (hw : w.Fits p type)
    (hproduce : Meets (State.Typed p) E (produce w.source) (Value.Fits p.vars w.type)) :
    Meets (State.Typed p) E (readWire produce w) (Value.Fits p.vars type) := by
  rw [readWire_eq]
  refine meets_bind (meets_fetch hp hw hproduce) fun v hv => ?_
  rcases hw.read with ⟨hderef, rfl⟩ | ⟨b, hderef, htype, rfl⟩
  · rw [hderef]
    exact meets_pure hv
  · rw [hderef, htype]
    rw [htype] at hv
    exact meets_load hv

variable {id : NodeId} {n : Node}

def Supplied (p : Program) (E : State σ → Prop) (produce : Producer → Run σ Value) (n : Node) :
    Prop :=
  ∀ w, Operand.wire w ∈ n.inputs →
    Meets (State.Typed p) E (produce w.source) (Value.Fits p.vars w.type)

theorem meets_readOperand (hp : p.WellFormed) {o : Operand} {pin : Pin} (ho : o.Fits p pin)
    (hproduce : ∀ w, o = .wire w →
      Meets (State.Typed p) E (produce w.source) (Value.Fits p.vars w.type)) :
    Meets (State.Typed p) E (readOperand produce o) (InputFits p o pin) := by
  cases ho with
  | default htype _ hbase =>
    refine meets_pure (.inr ?_)
    rw [htype]
    exact hbase
  | absent _ => exact meets_pure (.inl ⟨rfl, rfl⟩)
  | wire hw => exact meets_mono (meets_readWire hp hw (hproduce _ rfl)) fun _ hv => .inr hv

/-- The operand of an input, and what evaluating it yields. -/
theorem meets_operand (hp : p.WellFormed) (hn : n.Fits p id) (hs : Supplied p E produce n) {i : Nat}
    {pin : Pin} (hpin : n.kind.shape.inputs[i]? = some pin) :
    ∃ o, n.inputs[i]? = some o ∧ o.Fits p pin ∧
      Meets (State.Typed p) E (readOperand produce o) (InputFits p o pin) := by
  obtain ⟨o, ho, hfits⟩ := hn.inputs i pin hpin
  refine ⟨o, ho, hfits, meets_readOperand hp hfits fun w hw => hs w ?_⟩
  rw [← hw]
  exact List.mem_of_getElem? ho

theorem meets_input (hp : p.WellFormed) (hn : n.Fits p id) (hs : Supplied p E produce n) {i : Nat}
    {pin : Pin} (hpin : n.kind.shape.inputs[i]? = some pin) :
    Meets (State.Typed p) E (input produce n i)
      fun v => ∃ o, n.inputs[i]? = some o ∧ InputFits p o pin v := by
  obtain ⟨o, ho, -, hmeets⟩ := meets_operand hp hn hs hpin
  refine meets_check (Node.input_eq_ok ho) ?_
  exact meets_mono hmeets fun v hv => ⟨o, ho, hv⟩

/-- At an input that cannot be left out there is a value of its type, or a missing pointer. -/
theorem meets_required (hp : p.WellFormed) (hn : n.Fits p id)
    (hs : Supplied p E produce n) {i : Nat}
    {pin : Pin} (hpin : n.kind.shape.inputs[i]? = some pin) (hoptional : pin.optional = false) :
    Meets (State.Typed p) E (input produce n i) (Value.Fits p.vars pin.type) := by
  obtain ⟨o, ho, hfits, hmeets⟩ := meets_operand hp hn hs hpin
  refine meets_check (Node.input_eq_ok ho) ?_
  refine meets_mono hmeets fun v hv => ?_
  rcases hv with ⟨rfl, rfl⟩ | hv
  · cases hfits with
    | absent habsent =>
      rw [hoptional] at habsent
      cases htype : pin.type with
      | pointer b => exact .inl rfl
      | _ => simp [htype, WireType.isPointer] at habsent
  · exact hv

theorem meets_optionalInput (hp : p.WellFormed) (hn : n.Fits p id) (hs : Supplied p E produce n)
    {i : Nat} {pin : Pin} (hpin : n.kind.shape.inputs[i]? = some pin) :
    Meets (State.Typed p) E (optionalInput produce n i)
      fun o => ∀ v, o = some v → v.Fits p.vars pin.type := by
  obtain ⟨o, ho, -, hmeets⟩ := meets_operand hp hn hs hpin
  refine meets_check (Node.input_eq_ok ho) ?_
  split
  · exact meets_pure fun v hv => nomatch hv
  · next hpresent =>
    refine meets_bind hmeets fun v hv => meets_pure fun u hu => ?_
    cases hu
    exact hv.resolve_left fun habsent => hpresent habsent.1

theorem meets_inputs (hp : p.WellFormed) (hn : n.Fits p id) (hs : Supplied p E produce n)
    {count : Nat} (hcount : count ≤ n.kind.shape.inputs.length) :
    Meets (State.Typed p) E (inputs produce n count) (·.length = count) := by
  refine meets_mono (meets_mapM (R := fun _ _ => True) fun i hi => ?_) fun vs hvs => ?_
  · have hlt : i < n.kind.shape.inputs.length :=
      Nat.lt_of_lt_of_le (List.mem_range.mp hi) hcount
    exact meets_mono (meets_input hp hn hs (List.getElem?_eq_getElem hlt)) fun _ _ => trivial
  · rw [← hvs.length_eq, List.length_range]

theorem meets_ask {action : StateM σ α} {Q : α → Prop} (h : ∀ s, Q (action s).1) :
    Meets (State.Typed p) E (inWorld (World.ask action)) Q :=
  meets_inWorld fun s hs => ⟨h s.world.engine, hs.ask action⟩

theorem fits_pick {pins : List Pin} {vs : List Value} {output : Nat} {pin : Pin}
    (h : Pin.Carry pins vs) (hpin : pins[output]? = some pin) :
    (pickOutput vs output).Fits p.vars pin.type := by
  obtain ⟨b, hb, hv⟩ := h.pick hpin
  rw [hb]
  exact hv

theorem meets_evaluate (e : Engine σ) (hp : p.WellFormed) (hn : n.Fits p id)
    (hs : Supplied p E produce n) {x : Expression} (hx : n.kind = .expression x) {output : Nat}
    {pin : Pin} (hpin : x.shape.dataOutputs[output]? = some pin) :
    Meets (State.Typed p) E (evaluate e produce n output x) (Value.Fits p.vars pin.type) := by
  have hinputs : Meets (State.Typed p) E (inputs produce n x.shape.inputs.length)
      (·.length = x.shape.inputs.length) := by
    refine meets_inputs hp hn hs ?_
    rw [hx]
    exact Nat.le_refl _
  have hinput : ∀ i, i < x.shape.inputs.length →
      Meets (State.Typed p) E (input produce n i) fun _ => True := by
    intro i hi
    have hlt : i < n.kind.shape.inputs.length := by
      rw [hx]
      exact hi
    exact meets_mono (meets_input hp hn hs (List.getElem?_eq_getElem hlt)) fun _ _ => trivial
  have hplain := hn.plain
  rw [hx] at hplain
  cases x with
  | literal l =>
    have hpick := fits_pick (p := p) (Literal.carry_value n.constant l) hpin
    rw [pickOutput_one] at hpick
    exact meets_pure hpick
  | operation op =>
    exact meets_bind hinputs fun vs hvs =>
      meets_pure (fits_pick (Operation.carry_apply hvs) hpin)
  | routine r =>
    exact meets_bind hinputs fun vs hvs =>
      meets_pure (fits_pick (Routine.carry_apply hvs) hpin)
  | query q =>
    refine meets_bind hinputs fun vs hvs => ?_
    refine meets_bind (meets_ask fun s => Query.carry_ask e hvs s) fun outputs houtputs => ?_
    exact meets_pure (fits_pick houtputs hpin)
  | currentFrame =>
    rw [eq_of_single (a := Pin.data .float "Counter") hpin]
    exact meets_bind (meets_ask (Q := fun _ => True) fun _ => trivial) fun _ _ => meets_pure trivial
  | and =>
    rw [eq_of_single (a := Pin.data .bool "And") hpin]
    refine meets_bind (hinput 0 (Nat.zero_lt_two)) fun v _ => ?_
    split
    · exact meets_bind (hinput 1 (Nat.one_lt_two)) fun _ _ => meets_pure trivial
    · exact meets_pure trivial
  | or =>
    rw [eq_of_single (a := Pin.data .bool "Or") hpin]
    refine meets_bind (hinput 0 (Nat.zero_lt_two)) fun v _ => ?_
    split
    · exact meets_pure trivial
    · exact meets_bind (hinput 1 (Nat.one_lt_two)) fun _ _ => meets_pure trivial
  | getVariable t =>
    obtain ⟨b, rfl⟩ := WireType.isValue_iff.mp hplain
    rw [eq_of_single (a := ({ type := .pointer b, name := "Variable" } : Pin)) hpin]
    obtain ⟨var, v, hvar, hv, htype⟩ := hn.named (.value b) (by rw [hx]; rfl)
    rw [evaluate, hvar]
    cases htype
    exact meets_pure (.inr ⟨_, v, rfl, hv, rfl⟩)
  | list t =>
    obtain ⟨b, rfl⟩ := WireType.isValue_iff.mp hplain
    rw [eq_of_single (a := ({ type := .pointer b, name := "Element" } : Pin)) hpin]
    have hfirst : n.kind.shape.inputs[0]? = some { type := .pointer b, name := "Variable" } := by
      rw [hx]
      rfl
    refine meets_bind (meets_required hp hn hs hfirst rfl) fun base hbase => ?_
    refine meets_bind (hinput 1 Nat.one_lt_two) fun offset _ => ?_
    exact meets_pure (fits_element hbase _)

theorem meets_readSlot (hn : n.Fits p id) {s : Statement} (hkind : n.kind = .statement s)
    {output : Nat} {pin : Pin} (hpin : s.shape.dataOutputs[output]? = some pin) :
    Meets (State.Typed p) E (readSlot n output : Run σ Value) (Value.Fits p.vars pin.type) := by
  have hplain := hn.plain
  rw [hkind] at hplain
  obtain ⟨i, component, purpose, b, houtput, hslot, -, hcases⟩ :=
    Statement.slot_of_output hplain hpin
  obtain ⟨slot, hget, hdecl⟩ := hn.slots i purpose b (by rw [hkind]; exact hslot)
  have hout : n.outputSlot output = .ok (slot, component) := by
    rw [Node.outputSlot, hkind, show (Kind.statement s).outputSlot output = _ from houtput]
    simp only [Node.slot, hget, Except.map]
  refine meets_check hout ?_
  refine meets_bind meets_get fun st hst => ?_
  rcases hcases with ⟨rfl, htype⟩ | ⟨k, -, rfl, -, htype⟩
  · rw [htype]
    exact meets_pure (hst.slots.holds slot _ hdecl)
  · rw [htype]
    exact meets_pure trivial

/-- An output is of its type.  A run that may fail need not be given a depth beyond the rank of the
node. -/
theorem meets_produce (e : Engine σ) (hp : p.WellFormed) {rank : NodeId → Nat}
    (hrank : p.Falls p.Reads rank) : ∀ {depth : Nat} {source : Producer} {type : WireType},
    p.Offers source type → ((∀ s, State.Typed p s → E s) ∨ rank source.node < depth) →
    Meets (State.Typed p) E (Interpreter.produce e p depth source) (Value.Fits p.vars type)
  | 0, _, _, _, hdepth => meets_throw (hdepth.resolve_right (Nat.not_lt_zero _))
  | depth + 1, source, type, ⟨n, hget, hout⟩, hdepth => by
    have hn := hp.nodes source.node n hget
    obtain ⟨pin, hpin, rfl⟩ := hn.dataOutput hout
    refine meets_check (Program.node_eq_ok hget) ?_
    cases hs : n.statement with
    | true =>
      obtain ⟨st, hkind⟩ := hn.statementKind hs
      rw [hkind] at hpin
      exact meets_readSlot hn hkind hpin
    | false =>
      obtain ⟨x, hkind⟩ := hn.expressionKind hs
      rw [hkind] at hpin ⊢
      refine meets_evaluate e hp hn (fun w hw => ?_) hkind hpin
      obtain ⟨type, hfits⟩ := hn.fits_of_wire hw
      refine meets_produce e hp hrank hfits.source (hdepth.imp id fun hlt => ?_)
      have hfall := hrank.falls source.node w.source.node ⟨n, w, hget, hs, hw, rfl⟩
      omega

end Interpreter
end SignalGraph
