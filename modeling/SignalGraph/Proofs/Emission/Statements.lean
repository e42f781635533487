import SignalGraph.Proofs.Emission.Expressions

/-!
# Code of statements

The code of a statement takes nothing from the stack and leaves nothing there, and neither does a
chain of statements.
-/

namespace SignalGraph
namespace Compiler

open Wasm Typing

variable {x : Target} {c : TypingContext} {labels : List (Option LaneType)} {id : NodeId} {n : Node}
  {produce : Producer → Emit Code} {chain : List NodeId → Emit Code}

/-- What a statement needs of the code of the chains that it starts. -/
def Chained (x : Target) (chain : List NodeId → Emit Code) (n : Node) : Prop :=
  ∀ ids ∈ n.controls, Emits x (chain ids) [] []

theorem emits_branch (hn : n.Fits x.program id) (hc : Chained x chain n) {i : Nat}
    (hi : i < n.kind.shape.branches.length) : Emits x (branch chain n i) [] [] := by
  obtain ⟨ids, hids, hbranch⟩ := hn.branch hi
  exact yields_lift hbranch (hc ids hids)

theorem types_setSlot (hc : x.Context c) {f : Format} (hf : f ≠ .rot) :
    Types c labels [callImport (.setSlot f)] (.i32 :: f.lanes) [] :=
  types_callImport hc (mem_table (fun h => nomatch h) fun h => hf (Import.setSlot.inj h))

theorem types_under {a : Code} {t : LaneType} {outs : List LaneType} (i : Instr)
    (hi : Types c labels [i] [] [t]) (ha : Types c labels a [] outs) :
    Types c labels (i :: a) [] (t :: outs) :=
  types_cons hi (types_push [t] ha)

theorem emits_storeLocals (hn : n.Fits x.program id) {i : Nat} {purpose : String} {b : Base}
    (hslot : n.kind.slots[i]? = some (purpose, b)) {f : Format} (hf : f ≠ .rot)
    (locals : List Nat) :
    Yields x (storeLocals n i f locals) fun c code =>
      AreLocals c locals f.lanes → ∀ labels, Types c labels code [] [] := by
  obtain ⟨slot, hget, -⟩ := hn.slots i purpose b hslot
  refine yields_lift (Node.slot_eq_ok hget) (yields_pure fun c hc hlocals labels => ?_)
  exact types_append (types_under _ (types_int _) (types_getLocals hlocals)) (types_setSlot hc hf)

theorem Effect.hasValueInputs :
    ∀ (e : Effect), ∀ pin ∈ e.shape.inputs, pin.type.isValue = true := by
  intro e
  cases e <;> decide

/-- An effect keeps nothing, or its answer in a slot of its own. -/
theorem Effect.slots_cases (e : Effect) :
    e.slots = [] ∨ ∃ purpose b, e.slots = [(purpose, b)] ∧ b ≠ .rot := by
  cases e with
  | playSound | joystick | createObject | addConstraint =>
    exact .inr ⟨_, _, rfl, fun h => nomatch h⟩
  | _ => exact .inl rfl

theorem emits_effectOperands (hx : x.program.WellFormed) (hn : n.Fits x.program id)
    (hs : Coded x produce n) {e : Effect} (hkind : n.kind = .effect e) :
    Emits x (effectOperands produce n e.shape.inputs) [] (Pin.flaggedLanes e.shape.inputs) := by
  have hshape : n.kind.shape = e.shape := by rw [hkind]; rfl
  refine yields_bind (yields_mapM (R := fun c r code => ∀ labels, Types c labels code []
    (if r.1.optional then .i32 :: r.1.type.lanes else r.1.type.lanes)) ?_) fun codes => ?_
  · rintro ⟨pin, i⟩ hmem
    have hi : e.shape.inputs[i]? = some pin := List.mem_zipIdx_iff_getElem?.mp hmem
    obtain ⟨b, hb⟩ := WireType.isValue_iff.mp
      (Effect.hasValueInputs e pin (List.mem_of_getElem? hi))
    rw [← hshape] at hi
    dsimp only
    by_cases hoptional : pin.optional = true
    · rw [if_pos hoptional, if_pos hoptional]
      exact emits_flaggedOperand hx hn hs hi hb
    · rw [if_neg hoptional, if_neg hoptional]
      exact emits_operand hx hn hs hi
  · refine yields_pure fun c _ hcodes labels => ?_
    exact types_flatten (forall₂_of_zipIdx hcodes fun i pin code _ hcode => hcode labels)

theorem types_request (e : Effect) (number : Int32) :
    Types c labels (if e.hasNumber then [int number] else []) []
      (if e.hasNumber then [.i32] else []) := by
  by_cases hnumber : e.hasNumber = true
  · rw [if_pos hnumber, if_pos hnumber]
    exact types_int number
  · rw [if_neg hnumber, if_neg hnumber]
    exact types_nil

theorem emits_effect (hx : x.program.WellFormed) (hn : n.Fits x.program id) (hs : Coded x produce n)
    {e : Effect} (hkind : n.kind = .effect e) : Emits x (effect produce n e) [] [] := by
  have hoperands := emits_effectOperands hx hn hs hkind
  have hi : Import.effect e ∈ Import.table := mem_table (fun h => nomatch h) fun h => nomatch h
  unfold effect
  rcases Effect.slots_cases e with hslots | ⟨purpose, b, hslots, hb⟩
  · rw [hslots]
    refine yields_bind hoperands fun arguments => yields_pure fun c hc harguments labels => ?_
    have hcall : Types c labels [callImport (.effect e)] (Import.effectType e).params
        (e.slots.flatMap fun slot => slot.2.lanes) := types_callImport hc hi
    rw [hslots] at hcall
    exact types_append (types_then (harguments labels) (types_request e _)) hcall
  · obtain ⟨slot, hget, -⟩ := hn.slots 0 purpose b (by
      rw [hkind, show (Kind.effect e).slots = e.slots from rfl, hslots]
      rfl)
    rw [hslots]
    refine yields_lift (Node.slot_eq_ok hget) ?_
    refine yields_bind hoperands fun arguments => yields_pure fun c hc harguments labels => ?_
    have hcall : Types c labels [callImport (.effect e)] (Import.effectType e).params
        (e.slots.flatMap fun slot => slot.2.lanes) := types_callImport hc hi
    rw [hslots, List.flatMap_singleton] at hcall
    have harguments := types_under (Compiler.id slot) (types_int _) (harguments labels)
    have hset : Types c labels [callImport (.setSlot (.ofSlot b))]
        (.i32 :: (Format.ofSlot b).lanes) [] :=
      types_setSlot hc ofSlot_ne_rot
    rw [lanes_ofSlot hb] at hset
    exact types_append (types_then harguments (types_request e _))
      (types_cons (types_frame [.i32] hcall) hset)

theorem emits_menuItem (hx : x.program.WellFormed) (hn : n.Fits x.program id)
    (hs : Coded x produce n) (hkind : n.kind = .statement .menuItem) :
    Emits x (menuItem produce id n) [] [] := by
  obtain ⟨slot, hget, -⟩ := hn.slots 0 "registered" .bool (by rw [hkind]; rfl)
  have hoperands := emits_operands hx hn hs
  rw [hkind] at hoperands
  refine yields_lift (Node.slot_eq_ok hget) ?_
  refine yields_bind hoperands fun arguments => yields_pure fun c hc harguments labels => ?_
  have hread : Types c labels [Compiler.id slot, callImport (.getSlot .word), .numeric .i32Eqz] []
      [.i32] :=
    types_cons (types_int _) (types_cons (types_callImport hc (by decide)) (types_numeric .i32Eqz))
  have hregister : Types c (none :: labels) (Compiler.id id :: arguments ++
      [callImport .menuItem, Compiler.id slot, int 1, callImport (.setSlot .word)]) [] [] := by
    refine types_append (types_under _ (types_int _) (harguments _)) ?_
    refine types_cons (types_callImport hc (by decide)) ?_
    exact types_append (types_under _ (types_int _) (types_int 1)) (types_setSlot hc (by decide))
  exact types_append hread (types_when hregister)

theorem emits_touchSensor (hn : n.Fits x.program id) (hc : Chained x chain n)
    (hkind : n.kind = .statement .touchSensor) : Emits x (touchSensor chain n) [] [] := by
  obtain ⟨slot, hget, -⟩ := hn.slots 0 "touch" .vec3 (by rw [hkind]; rfl)
  refine yields_bind (yields_spill _) fun r => ?_
  refine yields_lift (Node.slot_eq_ok hget) ?_
  refine yields_bind (emits_branch hn hc (by rw [hkind]; exact Nat.zero_lt_one)) fun body => ?_
  refine yields_pure fun c hc hbody hr labels => ?_
  have hcall : Types c labels [int n.constant.asInt, int n.constant.asSecondInt,
    callImport .touch] []
      Import.touch.type.results :=
    types_append (types_under _ (types_int _) (types_int _)) (types_callImport hc (by decide))
  have hflag : Types c labels (getLocals (r.1.take 1)) [] [.i32] :=
    types_getLocals (List.forall₂_take 1 hr.1)
  have hpoint : Types c (none :: labels) (Compiler.id slot :: getLocals (r.1.drop 1)) []
      [.i32, .f32, .f32] :=
    types_under _ (types_int _) (types_getLocals (List.forall₂_drop 1 hr.1))
  have hstore : Types c (none :: labels) [number 0, callImport (.setSlot .vec3)] [.i32, .f32, .f32]
      [] :=
    types_cons (types_push _ (types_const _)) (types_setSlot hc (by decide))
  have hwhen : Types c labels [.when (Compiler.id slot :: getLocals (r.1.drop 1) ++
      [number 0, callImport (.setSlot .vec3)] ++ body)] [.i32] [] :=
    types_when (types_append (types_append hpoint hstore) (hbody _))
  have hcode := types_append (types_append (types_append hcall (hr.2 labels)) hflag) hwhen
  simpa only [List.append_assoc, List.cons_append, List.nil_append] using hcode

theorem emits_swipeSensor (hn : n.Fits x.program id) (hc : Chained x chain n)
    (hkind : n.kind = .statement .swipeSensor) : Emits x (swipeSensor chain n) [] [] := by
  have hslot : n.kind.slots[0]? = some ("swipe", .vec3) := by rw [hkind]; rfl
  refine yields_bind (yields_spill _) fun r => ?_
  refine yields_bind (emits_storeLocals hn hslot (f := .vec3) (by decide) _) fun store => ?_
  refine yields_bind (emits_branch hn hc (by rw [hkind]; exact Nat.zero_lt_one)) fun body => ?_
  refine yields_pure fun c hc hbody hstore hr labels => ?_
  have hcall : Types c labels [callImport .swipe] [] Import.swipe.type.results :=
    types_callImport hc (by decide)
  have hflag : Types c labels (getLocals (r.1.take 1)) [] [.i32] :=
    types_getLocals (List.forall₂_take 1 hr.1)
  have hwhen : Types c labels [.when (store ++ body)] [.i32] [] :=
    types_when (types_append (hstore (List.forall₂_drop 1 hr.1) _) (hbody _))
  exact types_append (types_append (types_append hcall (hr.2 labels)) hflag) hwhen

theorem emits_collision (hx : x.program.WellFormed) (hn : n.Fits x.program id)
    (hs : Coded x produce n) (hc : Chained x chain n) (hkind : n.kind = .statement .collision) :
    Emits x (collision produce chain n) [] [] := by
  have hpin : n.kind.shape.inputs[0]? = some (.data .obj "1st Object") := by rw [hkind]; rfl
  have hother : n.kind.slots[0]? = some ("other", .obj) := by rw [hkind]; rfl
  have himpulse : n.kind.slots[1]? = some ("impulse", .float) := by rw [hkind]; rfl
  have hnormal : n.kind.slots[2]? = some ("normal", .vec3) := by rw [hkind]; rfl
  refine yields_bind (emits_operand hx hn hs hpin) fun object => ?_
  refine yields_bind (yields_spill _) fun r => ?_
  refine yields_bind (emits_storeLocals hn hother (f := .word) (by decide) _) fun other => ?_
  refine yields_bind (emits_storeLocals hn himpulse (f := .float) (by decide) _) fun impulse => ?_
  refine yields_bind (emits_storeLocals hn hnormal (f := .vec3) (by decide) _) fun normal => ?_
  refine yields_bind (emits_branch hn hc (by rw [hkind]; exact Nat.zero_lt_one)) fun body => ?_
  refine yields_pure fun c hc hbody hnormal himpulse hother hr hobject labels => ?_
  have hcall : Types c labels [callImport .collision] [.i32] Import.collision.type.results :=
    types_callImport hc (by decide)
  have hflag : Types c labels (getLocals (r.1.take 1)) [] [.i32] :=
    types_getLocals (List.forall₂_take 1 hr.1)
  have hstore : Types c (none :: labels) (other ++ impulse ++ normal) [] [] := by
    refine types_append (types_append (hother ?_ _) (himpulse ?_ _)) (hnormal ?_ _)
    · exact List.forall₂_take 1 (List.forall₂_drop 1 hr.1)
    · exact List.forall₂_take 1 (List.forall₂_drop 2 hr.1)
    · exact List.forall₂_drop 3 hr.1
  have hwhen : Types c labels [.when (other ++ impulse ++ normal ++ body)] [.i32] [] :=
    types_when (types_append hstore (hbody _))
  have hcode := types_append (types_append (types_append (types_append (hobject labels) hcall)
    (hr.2 labels)) hflag) hwhen
  simpa only [List.append_assoc, List.cons_append, List.nil_append] using hcode

theorem types_test {k count : Nat} (hk : c.locals[k]? = some .i32)
    (hcount : c.locals[count]? = some .i32)
    (hexit : labels[1]? = some none) :
    Types c labels (getLocals [k, count] ++ [.numeric .i32GeU, .brIf 1]) [] [] := by
  refine types_append (types_getLocals (.cons hk (.cons hcount .nil))) ?_
  exact types_cons (types_numeric .i32GeU) (types_brIf hexit)

theorem types_advance {k : Nat} (hk : c.locals[k]? = some .i32) :
    Types c labels [.localGet k, int 1, .numeric .i32Add, .localSet k] [] [] := by
  refine types_append (types_under _ (types_localGet hk) (types_int 1)) ?_
  exact types_cons (types_numeric .i32Add) (types_localSet hk)

theorem emits_loop (hx : x.program.WellFormed) (hn : n.Fits x.program id) (hs : Coded x produce n)
    (hc : Chained x chain n) (hkind : n.kind = .statement .loop) :
    Emits x (loop produce chain n) [] [] := by
  obtain ⟨slot, hget, -⟩ := hn.slots 0 "counter" .float (by rw [hkind]; rfl)
  have hoperands := emits_operands hx hn hs
  rw [hkind] at hoperands
  refine yields_bind hoperands fun arguments => ?_
  refine yields_bind (yields_spill [.f32, .f32]) fun r => ?_
  refine yields_bind (yields_fresh .i32) fun count => ?_
  refine yields_bind (yields_fresh .i32) fun k => ?_
  refine yields_lift (Node.slot_eq_ok hget) ?_
  refine yields_bind (emits_branch hn hc (by rw [hkind]; exact Nat.zero_lt_one)) fun body => ?_
  refine yields_pure fun c hc hbody hk hcount hr harguments labels => ?_
  have hbounds : ∀ labels, Types c labels (getLocals r.1) [] [.f32, .f32] := fun _ =>
    types_getLocals hr.1
  have hstart : Types c labels [callImport .loopCount, .localSet count] [.f32, .f32] [] :=
    types_cons (types_callImport hc (by decide)) (types_localSet hcount)
  have hzero : Types c labels [int 0, .localSet k] [] [] :=
    types_cons (types_int 0) (types_localSet hk)
  have hcounter : Types c (none :: none :: labels) (Compiler.id slot :: (getLocals r.1 ++
      getLocals [k]) ++ [callImport .loopCounter, callImport (.setSlot .float)]) [] [] := by
    have hindex : Types c (none :: none :: labels) (getLocals [k]) [] [.i32] :=
      types_getLocals (.cons hk .nil)
    refine types_append (types_under _ (types_int _) (types_then (hbounds _) hindex)) ?_
    have hcall : Types c (none :: none :: labels) [callImport .loopCounter] [.f32, .f32, .i32]
        [.f32] := types_callImport hc (by decide)
    exact types_cons (types_frame [.i32] hcall) (types_setSlot hc (by decide))
  have hloop := types_block_loop (types_append (types_append (types_append
    (types_test hk hcount rfl) hcounter) (hbody (none :: none :: labels))) (types_advance hk))
  have hcode := types_append (types_append (types_append (types_append (types_append
    (harguments labels) (hr.2 labels)) (hbounds labels)) hstart) hzero) hloop
  simpa only [List.append_assoc, List.cons_append, List.nil_append] using hcode

theorem types_setVariable (hc : x.Context c) (b : Base) :
    Types c labels [callImport (.setVariable (.ofBase b))] (.i32 :: .i32 :: b.lanes) [] := by
  have hcall : Types c labels [callImport (.setVariable (.ofBase b))]
      (.i32 :: .i32 :: (Format.ofBase b).lanes) [] :=
    types_callImport hc (mem_table (fun h => nomatch h) fun h => nomatch h)
  rwa [Format.lanes_ofBase] at hcall

theorem emits_adjust (hx : x.program.WellFormed) (hn : n.Fits x.program id) (hs : Coded x produce n)
    {pin : Pin} (hpin : n.kind.shape.inputs[0]? = some pin) (htype : pin.type = .pointer .float)
    (delta : Binary32) : Emits x (adjust produce n delta) [] [] := by
  refine yields_bind (emits_operand hx hn hs hpin) fun pointer => ?_
  refine yields_bind (yields_spill [.i32, .i32]) fun r => ?_
  refine yields_pure fun c hc hr hpointer labels => ?_
  rw [htype] at hpointer
  have hlocals : Types c labels (getLocals r.1) [] [.i32, .i32] := types_getLocals hr.1
  have hread : Types c labels [callImport (.getVariable .float)] [.i32, .i32] [.f32] :=
    types_callImport hc (by decide)
  have hadd : Types c labels [number delta, .numeric .f32Add] [.f32] [.f32] :=
    types_cons (types_push [.f32] (types_const _)) (types_numeric .f32Add)
  have hsum := types_append hlocals (types_append hread hadd)
  have hwrite : Types c labels [callImport (.setVariable .float)] [.i32, .i32, .f32] [] :=
    types_setVariable hc .float
  have hcode := types_append
    (types_then (types_append (types_append (hpointer labels) (hr.2 labels))
    hlocals) hsum) hwrite
  simpa only [List.append_assoc, List.cons_append, List.nil_append] using hcode

theorem emits_statement (hx : x.program.WellFormed) (hn : n.Fits x.program id)
    (hs : Coded x produce n)
    (hc : Chained x chain n) {st : Statement} (hkind : n.kind = .statement st) :
    Emits x (statement produce chain id n st) [] [] := by
  have hplain := hn.plain
  have hinput : ∀ {i : Nat} {pin : Pin}, st.shape.inputs[i]? = some pin →
      Emits x (operand produce n i) [] pin.type.lanes := by
    intro i pin hi
    rw [← Node.shape_of_statement hkind] at hi
    exact emits_operand hx hn hs hi
  have hbranch : ∀ {i : Nat}, i < st.shape.branches.length → Emits x (branch chain n i) [] [] := by
    intro i hi
    rw [← Node.shape_of_statement hkind] at hi
    exact emits_branch hn hc hi
  rw [hkind] at hplain
  cases st with
  | effect e => exact emits_effect hx hn hs hkind
  | menuItem => exact emits_menuItem hx hn hs hkind
  | ifThen =>
    refine yields_bind (hinput (i := 0) rfl) fun condition => ?_
    refine yields_bind (hbranch Nat.zero_lt_two) fun onTrue => ?_
    refine yields_bind (hbranch Nat.one_lt_two) fun onFalse => ?_
    refine yields_pure fun c _ hfalse htrue hcondition labels => ?_
    exact types_append (hcondition labels) (types_ifElse (r := none) (htrue _) (hfalse _))
  | playSensor =>
    refine yields_bind (hbranch Nat.zero_lt_one) fun body => ?_
    refine yields_pure fun c hc hbody labels => ?_
    refine types_cons (types_callImport hc (by decide)) ?_
    exact types_cons (types_numeric .i32Eqz) (types_when (hbody _))
  | lateUpdate =>
    exact emits_pure fun c labels hc => types_cons (types_int _) (types_callImport hc (by decide))
  | boxArtSensor =>
    refine yields_bind (hbranch Nat.zero_lt_one) fun body => ?_
    refine yields_pure fun c hc hbody labels => ?_
    exact types_cons (types_callImport hc (by decide)) (types_when (hbody _))
  | touchSensor => exact emits_touchSensor hn hc hkind
  | swipeSensor => exact emits_swipeSensor hn hc hkind
  | button =>
    refine yields_bind (hbranch Nat.zero_lt_one) fun body => ?_
    refine yields_pure fun c hc hbody labels => ?_
    refine types_cons (types_int _) ?_
    exact types_cons (types_callImport hc (by decide)) (types_when (hbody _))
  | collision => exact emits_collision hx hn hs hc hkind
  | loop => exact emits_loop hx hn hs hc hkind
  | inspect t =>
    obtain ⟨b, rfl⟩ := WireType.isValue_iff.mp hplain
    refine yields_bind (hinput (i := 0) rfl) fun shown => ?_
    refine yields_pure fun c hc hshown labels => ?_
    have hcall : Types c labels [callImport (.inspect (.ofBase b))]
      (.i32 :: (Format.ofBase b).lanes)
        [] := types_callImport hc (mem_table (fun h => nomatch h) fun h => nomatch h)
    rw [Format.lanes_ofBase] at hcall
    exact types_append (types_under _ (types_int _) (hshown labels)) hcall
  | setVariable t =>
    obtain ⟨b, rfl⟩ := WireType.isValue_iff.mp hplain
    refine yields_bind (hinput (i := 0) rfl) fun v => ?_
    refine yields_pure fun c hc hv labels => ?_
    exact types_append (types_then (types_variablePointer n.constant) (hv labels))
      (types_setVariable hc b)
  | setPointer t =>
    obtain ⟨b, rfl⟩ := WireType.isValue_iff.mp hplain
    have hoperands := emits_operands hx hn hs
    rw [hkind] at hoperands
    refine yields_bind hoperands fun arguments => ?_
    refine yields_pure fun c hc harguments labels => ?_
    have hlanes : Pin.lanes (Kind.statement (.setPointer (.value b))).shape.inputs =
        .i32 :: .i32 :: b.lanes := by
      cases b <;> rfl
    rw [hlanes] at harguments
    exact types_append (harguments labels) (types_setVariable hc b)
  | increment => exact emits_adjust hx hn hs (by rw [hkind]; rfl) rfl 1
  | decrement => exact emits_adjust hx hn hs (by rw [hkind]; rfl) rfl (-1)

theorem coded_produce (hx : x.program.WellFormed) (hn : n.Fits x.program id) :
    Coded x (Compiler.produce x.program (x.program.nodes.size + 1)) n := by
  intro w hw
  obtain ⟨rank, hrank⟩ := hx.reads
  obtain ⟨type, hfits⟩ := hn.fits_of_wire hw
  obtain ⟨m, hm, -⟩ := hfits.source
  refine emits_produce hx hrank hfits.source (Nat.lt_succ_of_lt (hrank.bounded _ ?_))
  exact (Array.getElem?_eq_some_iff.mp hm).1

theorem emits_node (hx : x.program.WellFormed) (hn : n.Fits x.program id) (hs : n.statement = true)
    (hc : Chained x chain n) : Emits x (node x chain id n) [] [] := by
  obtain ⟨st, hkind⟩ := hn.statementKind hs
  have hst := emits_statement hx hn (coded_produce hx hn) hc hkind
  unfold node
  rw [hkind]
  exact hst

theorem types_rows {α : Type} {as : List α} {codes : List Code}
    (h : List.Forall₂ (fun _ code => Types c labels code [] []) as codes) :
    Types c labels codes.flatten [] [] := by
  have hflat := types_flatten (f := fun _ : α => []) h
  rwa [List.flatMap_eq_nil_iff.mpr fun _ _ => rfl] at hflat

theorem emits_rows {α : Type} {f : α → Emit Code} {as : List α}
    (h : ∀ a ∈ as, Emits x (f a) [] []) :
    Emits x (do return (← as.mapM f).flatten) [] [] := by
  refine yields_bind (yields_mapM h) fun codes => yields_pure fun c _ hcodes labels => ?_
  exact types_rows (hcodes.imp fun _ _ h => h labels)

/-- A depth beyond the rank of every statement suffices for a chain. -/
theorem emits_chain (hx : x.program.WellFormed) {rank : NodeId → Nat}
    (hrank : x.program.Falls x.program.Leads rank) : ∀ {depth : Nat} {ids : List NodeId},
    (∀ id ∈ ids, x.program.IsStatement id) → (∀ id ∈ ids, rank id < depth) →
    Emits x (Compiler.chain x depth ids) [] []
  | 0, [], _, _ => emits_pure fun _ _ _ => types_nil
  | 0, id :: _, _, hdepth => absurd (hdepth id List.mem_cons_self) (Nat.not_lt_zero _)
  | depth + 1, ids, hids, hdepth => by
    refine emits_rows fun id hid => ?_
    obtain ⟨n, hget, hs⟩ := hids id hid
    have hn := hx.nodes id n hget
    have hchained : Chained x (Compiler.chain x depth) n := by
      intro targets htargets
      refine emits_chain hx hrank (hn.targets targets htargets) fun target htarget => ?_
      have hfall := hrank.falls id target ⟨n, targets, hget, htargets, htarget⟩
      have hlt := hdepth id hid
      omega
    by_cases hout : x.outlined.contains id = true
    · have hlt : x.outlined.idxOf id < x.outlined.length :=
        List.idxOf_lt_length_iff.mpr (List.contains_iff_mem.mp hout)
      simp only [hout, if_true]
      exact emits_pure fun c labels hc => types_call (hc.outlined _ hlt)
    · simp only [hout]
      refine yields_lift (Program.node_eq_ok hget) ?_
      exact emits_append (emits_node hx hn hs hchained) (hchained _ (hn.after hs))

end Compiler
end SignalGraph
