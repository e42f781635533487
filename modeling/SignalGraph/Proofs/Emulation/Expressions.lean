import SignalGraph.Proofs.Emulation.Operations
import SignalGraph.Proofs.Execution.Depth

namespace SignalGraph
namespace Compiler

open Wasm Machine Interpreter

variable {σ α β : Type} {y : Setting σ} {lo hi : Nat} {a b : Code} {x : Run σ α}
  {R : α → List Lane → Prop} {vs : List Value} {lanes : List Lane} {id : NodeId} {n : Node}
  {emitted : Producer → Emit Code} {produce : Producer → Run σ Value}

theorem Expression.required : ∀ (e : Expression), ∀ pin ∈ e.shape.inputs, pin.optional = false := by
  intro e
  cases e with
  | literal l => rcases l with _ | _ | _ | (_ | _) <;> decide
  | operation op => cases op <;> decide
  | routine r => cases r <;> decide
  | query q => cases q <;> decide
  | currentFrame | and | or => decide
  | getVariable t => exact fun pin hpin => nomatch hpin
  | list t =>
    rintro pin (_ | ⟨_, _ | ⟨_, hpin⟩⟩)
    · rfl
    · rfl
    · exact nomatch hpin

theorem Routine.hasValueInputs (r : Routine) : ∀ pin ∈ r.shape.inputs, pin.type.isValue = true := by
  cases r <;> decide

theorem Query.hasValueInputs (q : Query) : ∀ pin ∈ q.shape.inputs, pin.type.isValue = true := by
  cases q <;> decide

/-- What a call returns to a block that keeps one of its outputs. -/
abbrev Returned (pins : List Pin) (outs : List Value) (lanes : List Lane) : Prop :=
  Pin.Carry pins outs ∧ lanes = outs.flatMap Lanes.ofValue

theorem imitates_calling (ask : List Value → Run σ (List Value)) {shape : Shape} {i : Import}
    (hoperands : y.Imitates (operands emitted n shape.inputs.length) []
      (inputs produce n shape.inputs.length) (Pin.Filled y.program.vars shape.inputs))
    (hcall : ∀ vs lanes, Pin.Filled y.program.vars shape.inputs vs lanes → ∀ lo hi,
      y.Emulates lo hi [callImport i] lanes (ask vs) (Returned shape.outputs))
    {output : Nat} {pin : Pin} (hpin : shape.outputs[output]? = some pin) :
    y.Imitates (calling emitted n shape i output) []
      (do return pickOutput (← ask (← inputs produce n shape.inputs.length)) output)
      (Value.InLanes y.program.vars pin.type) := by
  refine gives_bind hoperands fun arguments => ?_
  refine gives_bind (gives_keepOutput (y := y) hpin) fun kept => ?_
  refine gives_pure fun l₂ l₁ hext₁ _ hkept l₀ hext₀ _ harguments => ?_
  refine emulates_bind harguments (fun vs lanes hvs => ?_) (Locals.count_le hext₀)
    (Locals.count_le hext₁)
  have hcall := hcall vs lanes hvs l₁.count l₁.count
  refine emulates_bind (a := [callImport i]) hcall (fun outs returned hreturned => ?_)
    (Nat.le_refl _)
    (Locals.count_le hext₁)
  rw [hreturned.2]
  exact hkept outs hreturned.1

/-- A call that asks the engine and encodes its answer. -/
theorem emulates_ask {i : Import} {action : StateM σ α} (encode : α → List Lane)
    (hmem : i ∈ Import.table) (hlen : lanes.length = i.type.params.length)
    (hhost : ∀ w, Host.run y.engine y.program i lanes w =
      (encode (World.ask action w).1, (World.ask action w).2))
    (hR : ∀ s, R (action s).1 (encode (action s).1)) :
    y.Emulates lo hi [callImport i] lanes (inWorld (World.ask action)) R := by
  refine emulates_import hmem hlen fun s v s' hs hrun => ?_
  cases hrun
  rw [hhost]
  exact ⟨rfl, hs.ask action, hR s.world.engine⟩

theorem emulates_routine {r : Routine} (h : Pin.Filled y.program.vars r.shape.inputs vs lanes) :
    y.Emulates lo hi [callImport (.routine r)] lanes (pure (r.apply vs))
      (Returned r.shape.outputs) := by
  have hmem : Import.routine r ∈ Import.table := mem_table (fun h => nomatch h) fun h => nomatch h
  refine emulates_import hmem h.length fun s outs s' hs hrun => ?_
  cases hrun
  have hcarry := Routine.carry_apply (r := r) h.count
  have houtputs : r.shape.dataOutputs = r.shape.outputs :=
    Shape.dataOutputs_of_branches (Expression.hasDataInputs (.routine r) rfl).2.2
  rw [houtputs] at hcarry
  refine ⟨rfl, hs, hcarry, ?_⟩
  show (r.apply (Host.values r.shape.inputs lanes)).flatMap Lanes.ofValue = _
  rw [Host.values_eq h (Routine.hasValueInputs r)]

theorem emulates_query {q : Query} (h : Pin.Filled y.program.vars q.shape.inputs vs lanes) :
    y.Emulates lo hi [callImport (.query q)] lanes (inWorld (World.ask (q.ask y.engine vs)))
      (Returned q.shape.outputs) := by
  have hmem : Import.query q ∈ Import.table := mem_table (fun h => nomatch h) fun h => nomatch h
  have houtputs : q.shape.dataOutputs = q.shape.outputs :=
    Shape.dataOutputs_of_branches (Expression.hasDataInputs (.query q) rfl).2.2
  refine emulates_ask (fun outs => outs.flatMap Lanes.ofValue) hmem h.length
    (fun w => ?_) fun s => ?_
  · rw [← Host.values_eq h (Query.hasValueInputs q)]
    rfl
  · rw [← houtputs]
    exact ⟨Query.carry_ask y.engine h.count s, rfl⟩

theorem emulates_test {r : Option LaneType} {t : Bool}
    (htrue : t = true → y.Emulates lo hi a [] x R)
    (hfalse : t = false → y.Emulates lo hi b [] x R) :
    y.Emulates lo hi [.ifElse r a b] (Lanes.ofValue (.bool t)) x R := by
  cases t with
  | true => exact emulates_ifElse (fun _ => htrue rfl) fun h => nomatch h
  | false => exact emulates_ifElse (fun h => absurd rfl h) fun _ => hfalse rfl

theorem bind_inputs (f : Value → Value → Run σ β) :
    (do f (← input produce n 0) (← input produce n 1)) =
      (inputs produce n 2 >>= fun vs => f (vs.getD 0 .void) (vs.getD 1 .void)) := by
  have htwo : inputs produce n 2 = (do return [← input produce n 0, ← input produce n 1]) := by
    rw [inputs, show List.range 2 = [0, 1] from rfl]
    simp only [List.mapM_cons, List.mapM_nil, pure_bind, bind_assoc]
  rw [htwo]
  simp only [bind_assoc, pure_bind]
  rfl

theorem emulates_currentFrame :
    y.Emulates lo hi [callImport .currentFrame] []
      (inWorld (World.ask (y.engine.ask .currentFrame)))
      fun frame outs => outs = [.i32 frame.toInt32] :=
  emulates_ask (fun frame => [.i32 frame.toInt32]) (by decide) rfl (fun _ => rfl) fun _ => rfl

theorem emulates_element {v : Value} {base : Base} {first : List Lane}
    (hv : v.InLanes y.program.vars (.pointer base) first) (offset : Binary32) :
    y.Emulates lo hi [.numeric .f32Floor, .numeric .i32TruncSatF32S, .numeric .i32Add]
      (first ++ [.f32 offset]) (pure (element v offset))
      (Value.InLanes y.program.vars (.pointer base)) := by
  have hadd : ∀ (var index : Int32) (t : Machine (World σ)) below, Runs y.call
      [.numeric .f32Floor, .numeric .i32TruncSatF32S, .numeric .i32Add]
      ([.i32 var, .i32 index, .f32 offset].reverse ++ below) t
      ([.i32 var, .i32 (index + offset.floor.toInt32)].reverse ++ below) t := by
    intro var index t below
    exact runs_cons (runs_numeric rfl) (runs_cons (runs_numeric rfl) (runs_numeric rfl))
  rcases hv with ⟨rfl, i, rfl⟩ | ⟨q, decl, rfl, hdecl, htype, rfl⟩
  · exact emulates_runs _ (hadd (-1) i) (.inl ⟨rfl, _, rfl⟩)
  · exact emulates_runs _ (hadd (Int32.ofNat q.var) q.index)
      (.inr ⟨_, decl, rfl, hdecl, htype, rfl⟩)

/-- The truths of two inputs, where the code of the second is run as the first decides. -/
theorem imitates_junction (combine : Code → Code) (next : Bool → Run σ Value)
    (hfirst : y.Imitates (operand emitted n 0) [] (input produce n 0)
      (Value.InLanes y.program.vars (.value .bool)))
    (hsecond : y.Imitates (operand emitted n 1) [] (input produce n 1)
      (Value.InLanes y.program.vars (.value .bool)))
    (hcombine : ∀ (t : Bool) {lo hi second},
      y.Emulates lo hi second [] (input produce n 1)
        (Value.InLanes y.program.vars (.value .bool)) →
      y.Emulates lo hi (combine second) (Lanes.ofValue (.bool t)) (next t)
        (Value.InLanes y.program.vars (.value .bool))) :
    y.Imitates (do
      let first ← operand emitted n 0
      return first ++ combine (← operand emitted n 1)) []
      (do next (← input produce n 0).asBool) (Value.InLanes y.program.vars (.value .bool)) := by
  refine gives_bind hfirst fun first => gives_bind hsecond fun second => ?_
  refine gives_pure fun l₂ l₁ hext₁ _ hsecond l₀ hext₀ _ hfirst => ?_
  refine emulates_bind hfirst (fun v outs hv => ?_) (Locals.count_le hext₀) (Locals.count_le hext₁)
  obtain ⟨⟨t, rfl⟩, rfl⟩ := And.intro hv.1.bool hv.2
  exact hcombine t hsecond

theorem imitates_getVariable (hn : n.Fits y.program id) {t : Base}
    (hkind : n.kind = .expression (.getVariable (.value t))) {output : Nat} :
    y.Imitates (evaluate emitted n output (.getVariable (.value t))) []
      (Interpreter.evaluate y.engine produce n output (.getVariable (.value t)))
      (Value.InLanes y.program.vars (.pointer t)) := by
  obtain ⟨var, decl, hvar, hdecl, htype⟩ := hn.named (.value t) (by rw [hkind]; rfl)
  cases htype
  have hcode : Compiler.evaluate emitted n output (.getVariable (.value decl.type)) =
      pure ((Lanes.pointer { var, index := 0 }).map .const) := by
    unfold Compiler.evaluate variablePointer
    rw [hvar]
    rfl
  have hrun : Interpreter.evaluate y.engine produce n output (.getVariable (.value decl.type)) =
      pure (.ptr { var, index := 0 }) := by
    unfold Interpreter.evaluate
    rw [hvar]
    rfl
  rw [hcode, hrun]
  exact imitates_pure fun lo => emulates_consts (.inr ⟨_, decl, rfl, hdecl, rfl, rfl⟩)

theorem imitates_list {t : Base} {output : Nat}
    (hoperands : y.Imitates (operands emitted n 2) [] (inputs produce n 2)
      (Pin.Filled y.program.vars (Expression.list (.value t)).shape.inputs)) :
    y.Imitates (evaluate emitted n output (.list (.value t))) []
      (Interpreter.evaluate y.engine produce n output (.list (.value t)))
      (Value.InLanes y.program.vars (.pointer t)) := by
  have hrun : Interpreter.evaluate y.engine produce n output (.list (.value t)) =
      (inputs produce n 2 >>= fun vs =>
        pure (element (vs.getD 0 .void) (vs.getD 1 .void).asFloat)) :=
    bind_inputs fun u v => pure (element u v.asFloat)
  rw [hrun]
  refine gives_bind hoperands fun arguments => ?_
  refine gives_pure fun l₁ l₀ hext _ harguments => ?_
  refine emulates_bind harguments (fun vs outs hvs => ?_) (Locals.count_le hext) (Nat.le_refl _)
  obtain ⟨u, v, first, second, rfl, rfl, hu, hv⟩ := filled_two hvs
  obtain ⟨⟨offset, rfl⟩, rfl⟩ := And.intro hv.1.float hv.2
  exact emulates_element hu offset

theorem imitates_evaluate (hn : n.Fits y.program id) (hs : y.Sourced emitted produce n)
    {e : Expression} (hkind : n.kind = .expression e) {output : Nat} {pin : Pin}
    (hpin : e.shape.dataOutputs[output]? = some pin) :
    y.Imitates (evaluate emitted n output e) [] (Interpreter.evaluate y.engine produce n output e)
      (Value.InLanes y.program.vars pin.type) := by
  have hshape : n.kind.shape = e.shape := by rw [hkind]; rfl
  have hplain := hn.plain
  rw [hkind] at hplain
  have hrequired : ∀ pin ∈ n.kind.shape.inputs, pin.optional = true →
      pin.type.isPointer = true := by
    intro pin hpin hoptional
    rw [hshape] at hpin
    rw [Expression.required e pin hpin] at hoptional
    exact nomatch hoptional
  have hoperands := imitates_operands hn hs hrequired
  rw [hshape] at hoperands
  have hinput : ∀ {i : Nat} {pin : Pin}, e.shape.inputs[i]? = some pin →
      y.Imitates (operand emitted n i) [] (input produce n i)
        (Value.InLanes y.program.vars pin.type) := by
    intro i pin hi
    rw [← hshape] at hi
    exact imitates_operand hn hs hi (hrequired pin (List.mem_of_getElem? hi))
  have htruth : ∀ v lanes, Value.InLanes y.program.vars (.value .bool) v lanes →
      Value.InLanes y.program.vars (.value .bool) (.bool v.asBool) lanes := by
    rintro v lanes ⟨hbase, rfl⟩
    obtain ⟨t, rfl⟩ := hbase.bool
    exact ⟨hbase, rfl⟩
  have hvalue := hpin
  rw [Shape.dataOutputs_of_branches (Expression.hasDataInputs e hplain).2.2] at hpin
  cases e with
  | literal l =>
    obtain ⟨base, htype, hbase⟩ := (Literal.carry_value n.constant l).pick hvalue
    rw [pickOutput_one] at hbase
    rw [htype]
    exact imitates_pure fun _ => emulates_value hbase
  | operation op =>
    refine imitates_append hoperands (emits_operation (x := target y.program) hpin) ?_
    exact fun vs outs hvs => imitates_operation hpin hvs
  | routine r =>
    exact imitates_calling (fun vs => pure (r.apply vs)) hoperands
      (fun _ _ hvs _ _ => emulates_routine hvs) hpin
  | query q =>
    exact imitates_calling _ hoperands (fun _ _ hvs _ _ => emulates_query hvs) hpin
  | currentFrame =>
    rw [eq_of_single hpin]
    refine imitates_pure fun lo => ?_
    have hframe : y.Emulates lo lo [callImport .currentFrame] [] _ _ := emulates_currentFrame
    refine emulates_bind (a := [callImport .currentFrame]) hframe
      (fun frame outs houts => ?_) (Nat.le_refl lo) (Nat.le_refl lo)
    rw [houts]
    refine emulates_runs [.f32 (.ofUInt32 frame)] (fun t below => runs_numeric ?_) ?_
    · rfl
    · exact ⟨trivial, rfl⟩
  | and =>
    rw [eq_of_single hpin]
    refine imitates_junction (fun second => [.ifElse (some .i32) second [int 0]])
      (fun t => if t then (do return .bool (← input produce n 1).asBool)
        else pure (.bool false))
      (hinput (i := 0) rfl) (hinput (i := 1) rfl) fun t _ _ _ hsecond => ?_
    refine emulates_test (fun ht => ?_) fun ht => ?_
    · rw [ht]
      exact emulates_map hsecond htruth
    · rw [ht]
      exact emulates_value trivial
  | or =>
    rw [eq_of_single hpin]
    refine imitates_junction (fun second => [.ifElse (some .i32) [int 1] second])
      (fun t => if t then pure (.bool true)
        else (do return .bool (← input produce n 1).asBool))
      (hinput (i := 0) rfl) (hinput (i := 1) rfl) fun t _ _ _ hsecond => ?_
    refine emulates_test (fun ht => ?_) fun ht => ?_
    · rw [ht]
      exact emulates_value trivial
    · rw [ht]
      exact emulates_map hsecond htruth
  | getVariable type =>
    obtain ⟨t, rfl⟩ := WireType.isValue_iff.mp hplain
    rw [eq_of_single hpin]
    exact imitates_getVariable hn hkind
  | list type =>
    obtain ⟨t, rfl⟩ := WireType.isValue_iff.mp hplain
    rw [eq_of_single hpin]
    exact imitates_list hoperands

def slotValue (slot : SlotId) : Run σ Value := fun s => .ok (s.world.slots.get slot) s

theorem emulates_getSlot {slot : SlotId} {decl : Slot} (hdecl : y.program.slots[slot]? = some decl)
    (htype : decl.type ≠ .rot) :
    y.Emulates lo hi [Compiler.id slot, callImport (.getSlot (.ofSlot decl.type))] []
      (slotValue slot)
      (Value.InLanes y.program.vars (.value decl.type)) := by
  have hmem : Import.getSlot (.ofSlot decl.type) ∈ Import.table :=
    mem_table (fun h => ofSlot_ne_rot (Import.getSlot.inj h)) fun h => nomatch h
  have hlt : slot < 4294967296 :=
    Nat.lt_of_lt_of_le (List.getElem?_eq_some_iff.mp hdecl).1 y.addressable.slots
  refine emulates_const (.i32 (Int32.ofNat slot)) ?_
  refine emulates_import hmem rfl fun s v s' hs hrun => ?_
  cases hrun
  have hbase := hs.slots.holds slot decl hdecl
  refine ⟨rfl, hs, hbase, ?_⟩
  show (Format.ofSlot decl.type).ofValue (s.world.slots.get (Host.idOf (Int32.ofNat slot))) = _
  rw [toNat_ofNat hlt, Format.ofSlot_eq htype, Format.ofValue_ofBase hbase]

theorem imitates_readSlot (hn : n.Fits y.program id) {st : Statement}
    (hkind : n.kind = .statement st)
    {output : Nat} {pin : Pin} (hpin : st.shape.dataOutputs[output]? = some pin) :
    y.Imitates (Compiler.readSlot y.program n output) [] (Interpreter.readSlot n output)
      (Value.InLanes y.program.vars pin.type) := by
  have hplain := hn.plain
  rw [hkind] at hplain
  obtain ⟨i, component, purpose, base, houtput, hslot, hbase, hcases⟩ :=
    Statement.slot_of_output hplain hpin
  obtain ⟨slot, hget, hdecl⟩ := hn.slots i purpose base (by rw [hkind]; exact hslot)
  have hout : n.outputSlot output = .ok (slot, component) := by
    rw [Node.outputSlot, hkind, show (Kind.statement st).outputSlot output = _ from houtput]
    simp only [Node.slot, hget, Except.map]
  refine gives_lift hout (gives_lift (slotType_eq hdecl) ?_)
  rcases hcases with ⟨rfl, htype⟩ | ⟨k, hk, rfl, rfl, htype⟩
  · have hrun : Interpreter.readSlot n output = slotValue (σ := σ) slot := check_bind hout
    rw [hrun, htype]
    exact imitates_pure fun lo => emulates_getSlot hdecl hbase
  · have hrun : Interpreter.readSlot n output = (slotValue (σ := σ) slot >>= fun v =>
        pure (.float (v.asVec3.component k))) := check_bind hout
    rw [hrun, htype]
    have hkeep := gives_keep (y := y) (R := Value.InLanes y.program.vars (.value .float))
      Base.vec3.lanes k 1
    refine gives_bind hkeep fun kept => ?_
    refine gives_pure fun l₁ l₀ hext _ hkept => ?_
    refine emulates_bind (emulates_getSlot hdecl hbase) (fun v outs hv => ?_) (Nat.le_refl _)
      (Locals.count_le hext)
    obtain ⟨⟨u, rfl⟩, rfl⟩ := And.intro hv.1.vec3 hv.2
    refine hkept (Lanes.vec3 u) _ rfl ⟨trivial, ?_⟩
    obtain rfl | rfl | rfl : k = 0 ∨ k = 1 ∨ k = 2 := by omega
    all_goals rfl

/-- The functions of memo points below a rank do what memo points do. -/
def Setting.Memoizes (y : Setting σ) (rank : NodeId → Nat) (bound : Nat) : Prop :=
  ∀ (k : MemoId) (point : MemoPoint), y.program.memoPoints[k]? = some point →
    rank point.source.node < bound → ∀ lo hi, y.Emulates lo hi [.call (Target.memoFunction k)] []
      (memoized k (Interpreter.value y.engine y.program point.source))
      (Value.InLanes y.program.vars point.type)

variable {rank : NodeId → Nat} {bound : Nat}

/-- A wire leads to a source, or to the memo point of one. -/
theorem imitates_fetch {w : Wire} {type : WireType} (hmemo : y.Memoizes rank bound)
    (hw : w.Fits y.program type) (hrank : rank w.source.node < bound)
    (hproduce : y.Imitates (emitted w.source) [] (Interpreter.value y.engine y.program w.source)
      (Value.InLanes y.program.vars w.type)) :
    y.Imitates (Compiler.fetch emitted w) []
      (Interpreter.fetch (Interpreter.value y.engine y.program) w)
      (Value.InLanes y.program.vars w.type) := by
  unfold Compiler.fetch Interpreter.fetch
  cases hk : w.memo with
  | none => exact hproduce
  | some k =>
    obtain ⟨point, hpoint, hsource, htype⟩ := hw.memoPoint y.wellFormed hk
    rw [← hsource] at hrank ⊢
    rw [← htype]
    exact imitates_pure fun lo => hmemo k point hpoint hrank lo lo

/-- A depth beyond the rank of a node suffices for its code. -/
theorem imitates_produce (hrank : y.program.Falls y.program.Reads rank)
    (hmemo : y.Memoizes rank bound) : ∀ {depth : Nat} {source : Producer} {type : WireType},
    y.program.Offers source type → rank source.node < depth → rank source.node ≤ bound →
    y.Imitates (Compiler.produce y.program depth source) []
      (Interpreter.value y.engine y.program source) (Value.InLanes y.program.vars type)
  | 0, _, _, _, hdepth, _ => absurd hdepth (Nat.not_lt_zero _)
  | depth + 1, source, type, ⟨n, hget, hout⟩, hdepth, hbound => by
    have hn := y.wellFormed.nodes source.node n hget
    obtain ⟨pin, hpin, rfl⟩ := hn.dataOutput hout
    refine gives_lift (Program.node_eq_ok hget) ?_
    cases hs : n.statement with
    | true =>
      obtain ⟨st, hkind⟩ := hn.statementKind hs
      rw [hkind] at hpin
      rw [value_statement hget hs]
      exact imitates_readSlot hn hkind hpin
    | false =>
      obtain ⟨e, hkind⟩ := hn.expressionKind hs
      rw [value_expression y.wellFormed hget hkind hs]
      rw [hkind] at hpin ⊢
      refine imitates_evaluate hn (fun w hw => ?_) hkind hpin
      obtain ⟨type, hfits⟩ := hn.fits_of_wire hw
      have hfall := hrank.falls source.node w.source.node ⟨n, w, hget, hs, hw, rfl⟩
      refine imitates_fetch hmemo hfits (by omega) ?_
      exact imitates_produce hrank hmemo hfits.source (by omega) (by omega)

end Compiler
end SignalGraph
