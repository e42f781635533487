import SignalGraph.Proofs.Emission.Basic
import SignalGraph.Proofs.Emission.Pins

namespace SignalGraph
namespace Compiler

open Wasm Typing

variable {x : Target} {c : TypingContext} {labels : List (Option LaneType)}

theorem emits_append {first second : Emit Code} {ins mid outs : List LaneType}
    (hf : Emits x first ins mid) (hs : Emits x second mid outs) :
    Emits x (do return (← first) ++ (← second)) ins outs := by
  refine yields_bind hf fun a => ?_
  refine yields_bind hs fun b => ?_
  exact yields_pure fun c _ hb ha labels => types_append (ha labels) (hb labels)

theorem emits_keep (types : List LaneType) (start count : Nat) :
    Emits x (keep types start count) types ((types.drop start).take count) := by
  refine yields_bind (yields_spill types) fun r => ?_
  refine yields_pure fun c _ hr labels => ?_
  refine types_append (hr.2 labels) (types_getLocals ?_)
  exact List.forall₂_take count (List.forall₂_drop start hr.1)

theorem emits_keepOutput {pins : List Pin} {output : Nat} {pin : Pin}
    (hpin : pins[output]? = some pin) :
    Emits x (keepOutput pins output) (Pin.lanes pins) pin.type.lanes := by
  have hlt : output < pins.length := (List.getElem?_eq_some_iff.mp hpin).1
  unfold keepOutput
  by_cases hone : pins.length ≤ 1
  · rw [if_pos hone]
    have hzero : output = 0 := by omega
    subst hzero
    have hlanes := Pin.lanes_one hpin
    rw [List.drop_zero, List.take_of_length_le hone] at hlanes
    rw [hlanes]
    exact emits_pure fun _ _ _ => types_nil
  · rw [if_neg hone]
    dsimp only
    have hmin : min output (pins.length - 1) = output := by omega
    have hkeep := emits_keep (x := x) (Pin.lanes pins) (Pin.lanes (pins.take output)).length
      pin.type.lanes.length
    rw [Pin.slice_lanes hpin] at hkeep
    rw [hmin, Pin.lanes_one hpin]
    exact hkeep

variable {p : Program} {id : NodeId} {n : Node} {produce : Producer → Emit Code}

theorem inputType_eq {i : Nat} {pin : Pin} (h : n.kind.shape.inputs[i]? = some pin) :
    inputType n i = .ok pin.type := by
  rw [inputType, h]

/-- The code that puts the value on a wire on the stack, before its pointer is followed. -/
def fetch (produce : Producer → Emit Code) (w : Wire) : Emit Code :=
  match w.memo with
  | some k => pure [Instr.call (Target.memoFunction k)]
  | none => produce w.source

theorem wire_eq (w : Wire) : wire produce w = (do
    let code ← fetch produce w
    if w.deref then return code ++ [callImport (.getVariable (.ofType w.type))]
    else return code) := by
  unfold wire fetch
  cases w.memo <;> rfl

theorem emits_fetch (hx : x.program.WellFormed) {w : Wire} {type : WireType}
    (hw : w.Fits x.program type) (hproduce : Emits x (produce w.source) [] w.type.lanes) :
    Emits x (fetch produce w) [] w.type.lanes := by
  unfold fetch
  split
  · next k hk =>
    obtain ⟨m, hm, -, htype⟩ := hw.memoPoint hx hk
    rw [← htype]
    exact emits_pure fun c labels hc => types_call (hc.memo k m hm)
  · exact hproduce

theorem emits_wire (hx : x.program.WellFormed) {w : Wire} {type : WireType}
    (hw : w.Fits x.program type) (hproduce : Emits x (produce w.source) [] w.type.lanes) :
    Emits x (wire produce w) [] type.lanes := by
  rw [wire_eq]
  refine yields_bind (emits_fetch hx hw hproduce) fun code => ?_
  rcases hw.read with ⟨hderef, rfl⟩ | ⟨b, hderef, htype, rfl⟩
  · rw [hderef]
    exact yields_pure fun c _ hcode => hcode
  · rw [hderef, htype]
    refine yields_pure fun c hc hcode labels => types_append (hcode labels) ?_
    have hcall : Types c labels [callImport (.getVariable (.ofBase b))] [.i32, .i32]
        (Format.ofBase b).lanes :=
      types_callImport hc (mem_table (fun h => nomatch h) fun h => nomatch h)
    rwa [Format.lanes_ofBase] at hcall

/-- What a node needs of the code of the outputs that its wires lead to. -/
def Coded (x : Target) (produce : Producer → Emit Code) (n : Node) : Prop :=
  ∀ w, Operand.wire w ∈ n.inputs → Emits x (produce w.source) [] w.type.lanes

theorem types_noPointer : Types c labels (Lanes.noPointer.map .const) [] [.i32, .i32] :=
  types_consts Lanes.noPointer

theorem types_unconnected {type : WireType} (h : type ≠ .void) :
    Types c labels (unconnected type) [] type.lanes := by
  cases type with
  | void => exact absurd rfl h
  | value b => exact types_value (Value.hasBase_default b)
  | pointer b => exact types_noPointer

theorem emits_operand (hx : x.program.WellFormed) (hn : n.Fits x.program id)
    (hs : Coded x produce n)
    {i : Nat} {pin : Pin} (hpin : n.kind.shape.inputs[i]? = some pin) :
    Emits x (operand produce n i) [] pin.type.lanes := by
  obtain ⟨o, ho, hfits⟩ := hn.inputs i pin hpin
  refine yields_lift (Node.input_eq_ok ho) ?_
  cases hfits with
  | default htype _ hbase =>
    rw [htype]
    exact emits_pure fun _ _ _ => types_value hbase
  | absent _ =>
    refine yields_lift (inputType_eq hpin) ?_
    have hdata := Kind.hasDataInputs hn.plain pin (List.mem_of_getElem? hpin)
    exact emits_pure fun _ _ _ => types_unconnected hdata
  | wire hw => exact emits_wire hx hw (hs _ (List.mem_of_getElem? ho))

/-- The lanes of an input with the flag in front that tells whether it is there. -/
theorem emits_flaggedOperand (hx : x.program.WellFormed) (hn : n.Fits x.program id)
    (hs : Coded x produce n) {i : Nat} {pin : Pin} {b : Base}
    (hpin : n.kind.shape.inputs[i]? = some pin) (htype : pin.type = .value b) :
    Emits x (flaggedOperand produce n i) [] (.i32 :: pin.type.lanes) := by
  obtain ⟨o, ho, -⟩ := hn.inputs i pin hpin
  refine yields_lift (Node.input_eq_ok ho) ?_
  split
  · refine yields_lift (inputType_eq hpin) ?_
    rw [htype]
    refine emits_pure fun _ _ _ => ?_
    exact types_cons (types_int 0) (types_push [.i32] (types_value (Value.hasBase_default b)))
  · refine yields_bind (emits_operand hx hn hs hpin) fun code => ?_
    refine yields_pure fun c _ hcode labels => ?_
    exact types_cons (types_int 1) (types_push [.i32] (hcode labels))

theorem emits_operands (hx : x.program.WellFormed) (hn : n.Fits x.program id)
    (hs : Coded x produce n) :
    Emits x (operands produce n n.kind.shape.inputs.length) [] (Pin.lanes n.kind.shape.inputs) := by
  have hcodes : Yields x ((List.range n.kind.shape.inputs.length).mapM (operand produce n))
      fun c codes => List.Forall₂ (fun i code => ∀ pin, n.kind.shape.inputs[i]? = some pin →
        ∀ labels, Types c labels code [] pin.type.lanes) (List.range n.kind.shape.inputs.length)
        codes := by
    refine yields_mapM fun i hi => ?_
    have hpin := List.getElem?_eq_getElem (List.mem_range.mp hi)
    refine yields_mono (emits_operand hx hn hs hpin) fun c code _ hcode pin hpin' => ?_
    rw [hpin] at hpin'
    cases hpin'
    exact hcode
  unfold operands
  refine yields_bind hcodes fun codes => yields_pure fun c _ hcodes labels => ?_
  exact types_flatten (forall₂_of_range hcodes fun i pin code hpin hcode => hcode pin hpin labels)

theorem types_flatMap {α : Type} {f : α → List LaneType} {g : α → Code} {l : List α}
    (h : ∀ a ∈ l, Types c labels (g a) [] (f a)) :
    Types c labels (l.flatMap g) [] (l.flatMap f) := by
  rw [List.flatMap_def]
  exact types_flatten (List.forall₂_map_right_iff.mpr (List.forall₂_same.mpr h))

theorem local_of_areLocals {locals : List Nat} {types : List LaneType}
    (h : AreLocals c locals types)
    {i : Nat} {t : LaneType} (hi : types[i]? = some t) : c.locals[locals.getD i 0]? = some t := by
  obtain ⟨hlt, rfl⟩ := List.getElem?_eq_some_iff.mp hi
  have hlt' : i < locals.length := by
    rw [h.length_eq]
    exact hlt
  rw [List.getD_eq_getElem?_getD, List.getElem?_eq_getElem hlt', Option.getD_some]
  exact (List.forall₂_iff_get.mp h).2 i hlt' hlt

theorem types_components {op : Numeric} (hop : op.type = ([.f32, .f32], .f32)) {a b : Nat → Nat}
    (ha : ∀ i, i < 3 → c.locals[a i]? = some .f32) (hb : ∀ i, i < 3 → c.locals[b i]? = some .f32) :
    Types c labels ((List.range 3).flatMap fun i => getLocals [a i, b i] ++ [.numeric op]) []
      [.f32, .f32, .f32] := by
  refine types_flatMap (l := List.range 3) (f := fun _ => [.f32]) fun i hi => ?_
  have hlt := List.mem_range.mp hi
  have hop' : Types c labels [.numeric op] op.type.1 [op.type.2] := types_numeric op
  rw [hop] at hop'
  exact types_append (types_getLocals (.cons (ha i hlt) (.cons (hb i hlt) .nil))) hop'

theorem emits_eachComponent {op : Numeric} (hop : op.type = ([.f32, .f32], .f32)) :
    Emits x (eachComponent op) (List.replicate 6 .f32) [.f32, .f32, .f32] := by
  refine yields_bind (yields_spill _) fun r => yields_pure fun c _ hr labels => ?_
  refine types_append (hr.2 labels) (types_components hop (fun i hi => ?_) fun i hi => ?_)
  · exact local_of_areLocals hr.1 (List.getElem?_replicate_of_lt (by omega))
  · exact local_of_areLocals hr.1 (List.getElem?_replicate_of_lt (by omega))

theorem emits_scaleComponents :
    Emits x scaleComponents (List.replicate 4 .f32) [.f32, .f32, .f32] := by
  refine yields_bind (yields_spill _) fun r => yields_pure fun c _ hr labels => ?_
  refine types_append (hr.2 labels) (types_components rfl (fun i hi => ?_) fun _ _ => ?_)
  · exact local_of_areLocals hr.1 (List.getElem?_replicate_of_lt (by omega))
  · exact local_of_areLocals hr.1 (List.getElem?_replicate_of_lt (by omega))

theorem emits_operation {op : Operation} {output : Nat} {pin : Pin}
    (hpin : op.shape.outputs[output]? = some pin) :
    Emits x (operation op output) (Pin.lanes op.shape.inputs) pin.type.lanes := by
  cases op with
  | breakVector => exact emits_keepOutput hpin
  | makeVector =>
    rw [eq_of_single hpin]
    exact emits_pure fun _ _ _ => types_nil
  | addVectors | subtractVectors =>
    rw [eq_of_single hpin]
    exact emits_eachComponent rfl
  | scale =>
    rw [eq_of_single hpin]
    exact emits_scaleComponents
  | _ =>
    rw [eq_of_single hpin]
    exact emits_pure fun _ _ _ => types_numeric _

theorem emits_calling {shape : Shape} {i : Import} (hi : i ∈ Import.table)
    (htype : i.type = Import.shapeType shape)
    (hoperands : Emits x (operands produce n shape.inputs.length) [] (Pin.lanes shape.inputs))
    {output : Nat} {pin : Pin} (hpin : shape.outputs[output]? = some pin) :
    Emits x (calling produce n shape i output) [] pin.type.lanes := by
  refine yields_bind hoperands fun arguments => ?_
  refine yields_bind (emits_keepOutput hpin) fun kept => ?_
  refine yields_pure fun c hc hkept harguments labels => ?_
  have hcall : Types c labels [callImport i] i.type.params i.type.results := types_callImport hc hi
  rw [htype] at hcall
  exact types_append (harguments labels) (types_cons hcall (hkept labels))

theorem types_variablePointer (constant : Constant) :
    Types c labels (variablePointer constant) [] [.i32, .i32] := by
  unfold variablePointer
  split
  · exact types_cons (types_int _) (types_push [.i32] (types_int 0))
  · exact types_noPointer

theorem emits_evaluate (hx : x.program.WellFormed) (hn : n.Fits x.program id)
    (hs : Coded x produce n)
    {e : Expression} (hkind : n.kind = .expression e) {output : Nat} {pin : Pin}
    (hpin : e.shape.dataOutputs[output]? = some pin) :
    Emits x (evaluate produce n output e) [] pin.type.lanes := by
  have hshape : n.kind.shape = e.shape := by rw [hkind]; rfl
  have hplain := hn.plain
  rw [hkind] at hplain
  have hoperands : Emits x (operands produce n e.shape.inputs.length) []
    (Pin.lanes e.shape.inputs) := by
    rw [← hshape]
    exact emits_operands hx hn hs
  have hinput : ∀ {i : Nat} {pin : Pin}, e.shape.inputs[i]? = some pin →
      Emits x (operand produce n i) [] pin.type.lanes := by
    intro i pin hi
    rw [← hshape] at hi
    exact emits_operand hx hn hs hi
  have hvalue := hpin
  rw [Shape.dataOutputs_of_branches (Expression.hasDataInputs e hplain).2.2] at hpin
  cases e with
  | literal l =>
    obtain ⟨b, htype, hbase⟩ := (Literal.carry_value n.constant l).pick hvalue
    rw [pickOutput_one] at hbase
    rw [htype]
    exact emits_pure fun _ _ _ => types_value hbase
  | operation op => exact emits_append hoperands (emits_operation hpin)
  | routine r =>
    have hi : Import.routine r ∈ Import.table := mem_table (fun h => nomatch h) fun h => nomatch h
    exact emits_calling hi rfl hoperands hpin
  | query q =>
    have hi : Import.query q ∈ Import.table := mem_table (fun h => nomatch h) fun h => nomatch h
    exact emits_calling hi rfl hoperands hpin
  | currentFrame =>
    rw [eq_of_single hpin]
    exact emits_pure fun c labels hc =>
      types_cons (types_callImport hc (by decide)) (types_numeric .f32ConvertI32U)
  | and =>
    rw [eq_of_single hpin]
    refine yields_bind (hinput (i := 0) rfl) fun first => ?_
    refine yields_bind (hinput (i := 1) rfl) fun second => ?_
    refine yields_pure fun c _ hsecond hfirst labels => types_append (hfirst labels) ?_
    exact types_ifElse (r := some .i32) (hsecond _) (types_int 0)
  | or =>
    rw [eq_of_single hpin]
    refine yields_bind (hinput (i := 0) rfl) fun first => ?_
    refine yields_bind (hinput (i := 1) rfl) fun second => ?_
    refine yields_pure fun c _ hsecond hfirst labels => types_append (hfirst labels) ?_
    exact types_ifElse (r := some .i32) (types_int 1) (hsecond _)
  | getVariable t =>
    obtain ⟨b, rfl⟩ := WireType.isValue_iff.mp hplain
    rw [eq_of_single hpin]
    exact emits_pure fun _ _ _ => types_variablePointer n.constant
  | list t =>
    obtain ⟨b, rfl⟩ := WireType.isValue_iff.mp hplain
    rw [eq_of_single hpin]
    refine yields_bind hoperands fun arguments => yields_pure fun c _ harguments labels => ?_
    have hindex : Types c labels [.numeric .f32Floor, .numeric .i32TruncSatF32S] [.f32] [.i32] :=
      types_cons (types_numeric .f32Floor) (types_numeric .i32TruncSatF32S)
    have hadd : Types c labels [.numeric .i32Add] ([.i32] ++ [.i32, .i32]) ([.i32] ++ [.i32]) :=
      types_frame [.i32] (types_numeric .i32Add)
    exact types_append (harguments labels)
      (types_append (types_frame [.i32, .i32] hindex) hadd)

theorem lanes_ofSlot {b : Base} (h : b ≠ .rot) : (Format.ofSlot b).lanes = b.lanes := by
  cases b with
  | rot => exact absurd rfl h
  | _ => rfl

theorem ofSlot_ne_rot {b : Base} : Format.ofSlot b ≠ .rot := by
  cases b <;> exact fun h => nomatch h

theorem slotType_eq {slot : SlotId} {decl : Slot} (h : p.slots[slot]? = some decl) :
    slotType p slot = .ok decl.type := by
  rw [slotType, h]

theorem types_getSlot (hc : x.Context c) {b : Base} (hb : b ≠ .rot) (slot : SlotId) :
    Types c labels [Compiler.id slot, callImport (.getSlot (.ofSlot b))] [] b.lanes := by
  have hcall : Types c labels [callImport (.getSlot (.ofSlot b))] [.i32] (Format.ofSlot b).lanes :=
    types_callImport hc
      (mem_table (fun h => ofSlot_ne_rot (Import.getSlot.inj h)) fun h => nomatch h)
  rw [lanes_ofSlot hb] at hcall
  exact types_cons (types_int _) hcall

theorem emits_readSlot (hn : n.Fits x.program id) {st : Statement} (hkind : n.kind = .statement st)
    {output : Nat} {pin : Pin} (hpin : st.shape.dataOutputs[output]? = some pin) :
    Emits x (readSlot x.program n output) [] pin.type.lanes := by
  have hplain := hn.plain
  rw [hkind] at hplain
  obtain ⟨i, component, purpose, b, houtput, hslot, hb, hcases⟩ :=
    Statement.slot_of_output hplain hpin
  obtain ⟨slot, hget, hdecl⟩ := hn.slots i purpose b (by rw [hkind]; exact hslot)
  have hout : n.outputSlot output = .ok (slot, component) := by
    rw [Node.outputSlot, hkind, show (Kind.statement st).outputSlot output = _ from houtput]
    simp only [Node.slot, hget, Except.map]
  refine yields_lift hout ?_
  refine yields_lift (slotType_eq hdecl) ?_
  rcases hcases with ⟨rfl, htype⟩ | ⟨k, hk, rfl, rfl, htype⟩
  · rw [htype]
    exact emits_pure fun c labels hc => types_getSlot hc hb slot
  · rw [htype]
    refine yields_bind (emits_keep Base.vec3.lanes k 1) fun kept => ?_
    refine yields_pure fun c hc hkept labels => ?_
    have hone : (Base.vec3.lanes.drop k).take 1 = [.f32] := by
      obtain rfl | rfl | rfl : k = 0 ∨ k = 1 ∨ k = 2 := by omega
      all_goals rfl
    rw [hone] at hkept
    exact types_append (types_getSlot hc hb slot) (hkept labels)

/-- The code of an output leaves the lanes of its type. -/
theorem emits_produce (hx : x.program.WellFormed) {rank : NodeId → Nat}
    (hrank : x.program.Falls x.program.Reads rank) :
    ∀ {depth : Nat} {source : Producer} {type : WireType}, x.program.Offers source type →
      rank source.node < depth → Emits x (Compiler.produce x.program depth source) [] type.lanes
  | 0, _, _, _, hdepth => absurd hdepth (Nat.not_lt_zero _)
  | depth + 1, source, type, ⟨n, hget, hout⟩, hdepth => by
    have hn := hx.nodes source.node n hget
    obtain ⟨pin, hpin, rfl⟩ := hn.dataOutput hout
    refine yields_lift (Program.node_eq_ok hget) ?_
    cases hs : n.statement with
    | true =>
      obtain ⟨st, hkind⟩ := hn.statementKind hs
      rw [hkind] at hpin
      exact emits_readSlot hn hkind hpin
    | false =>
      obtain ⟨e, hkind⟩ := hn.expressionKind hs
      rw [hkind] at hpin ⊢
      refine emits_evaluate hx hn (fun w hw => ?_) hkind hpin
      obtain ⟨type, hfits⟩ := hn.fits_of_wire hw
      refine emits_produce hx hrank hfits.source ?_
      have hfall := hrank.falls source.node w.source.node ⟨n, w, hget, hs, hw, rfl⟩
      omega

end Compiler
end SignalGraph
