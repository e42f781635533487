import SignalGraph.Proofs.Emission.Statements
import SignalGraph.Proofs.Emulation.Basic

namespace SignalGraph
namespace Compiler

open Wasm Machine Interpreter

variable {σ α β : Type} {y : Setting σ} {lo hi : Nat} {a b : Code} {ins : List Lane} {x : Run σ α}
  {P R : α → List Lane → Prop}

theorem emulates_map {f : α → β} {Q : β → List Lane → Prop} (h : y.Emulates lo hi a ins x P)
    (hQ : ∀ v outs, P v outs → Q (f v) outs) :
    y.Emulates lo hi a ins (x >>= fun v => pure (f v)) Q := by
  intro s t below v s' hst hsize hrun
  obtain ⟨u, _, hx, hpure⟩ := Interpreter.bind_eq_ok hrun
  cases hpure
  obtain ⟨t', outs, hruns, hP, hst', hkept⟩ := h s t below u _ hst hsize hx
  exact ⟨t', outs, hruns, hQ u outs hP, hst', hkept⟩

def Setting.Imitates (y : Setting σ) (emit : Emit Code) (ins : List Lane) (run : Run σ α)
    (R : α → List Lane → Prop) : Prop :=
  Gives emit fun l l' code => y.Emulates l.count l'.count code ins run R

theorem imitates_pure {code : Code} (h : ∀ lo, y.Emulates lo lo code ins x R) :
    y.Imitates (pure code) ins x R :=
  gives_pure fun l => h l.count

theorem imitates_append {first second : Emit Code} {f : α → Run σ β} {Q : β → List Lane → Prop}
    {G : Locals → Locals → Code → Prop} (hf : y.Imitates first ins x P) (hg : Gives second G)
    (hs : ∀ v outs, P v outs → y.Imitates second outs (f v) Q) :
    y.Imitates (do return (← first) ++ (← second)) ins (x >>= f) Q := by
  have hsecond := gives_forall (ι := α × List Lane) (C := fun r => P r.1 r.2) hg fun r hr =>
    hs r.1 r.2 hr
  refine gives_bind hf fun a => gives_bind hsecond fun b => gives_pure fun l₂ => ?_
  intro l₁ hext₁ _ hb l₀ hext₀ _ ha
  exact emulates_bind ha (fun v outs hP => hb (v, outs) hP) (Locals.count_le hext₀)
    (Locals.count_le hext₁)

/-- The codes of elements, in the order in which a run goes through them. -/
theorem gives_rows {f : β → Emit Code} {g : β → Run σ α} {R : β → α → List Lane → Prop} :
    ∀ {l : List β}, (∀ i ∈ l, y.Imitates (f i) [] (g i) (R i)) →
      Gives (l.mapM f) fun l₀ l' codes =>
        y.Emulates l₀.count l'.count codes.flatten [] (l.mapM g) (Rows R l)
  | [], _ => gives_pure fun _ => emulates_nil .nil
  | i :: rest, h => by
    rw [List.mapM_cons, List.mapM_cons]
    have hrest := gives_rows fun j hj => h j (List.mem_cons_of_mem i hj)
    refine gives_bind (h i List.mem_cons_self) fun code => gives_bind hrest fun codes => ?_
    refine gives_pure fun l₂ l₁ hext₁ _ hcodes l₀ hext₀ _ hcode => ?_
    rw [List.flatten_cons]
    refine emulates_bind hcode (fun v first hfirst => ?_) (Locals.count_le hext₀)
      (Locals.count_le hext₁)
    have hframe := emulates_frame first hcodes
    rw [List.append_nil] at hframe
    refine emulates_map hframe fun vs outs hvs => ?_
    obtain ⟨top, rfl, hrows⟩ := hvs
    exact .cons hfirst hrows

theorem imitates_rows {f : β → Emit Code} {g : β → Run σ α} {R : β → α → List Lane → Prop}
    {l : List β} (h : ∀ i ∈ l, y.Imitates (f i) [] (g i) (R i)) :
    y.Imitates (do return (← l.mapM f).flatten) [] (l.mapM g) (Rows R l) :=
  gives_bind (gives_rows h) fun _ => gives_pure fun _ _ _ _ hcodes => hcodes

variable {id : NodeId} {n : Node} {emitted : Producer → Emit Code}
  {produce : Producer → Run σ Value}

/-- What a node needs of the code of the values that its wires bring. -/
def Setting.Sourced (y : Setting σ) (emitted : Producer → Emit Code)
    (produce : Producer → Run σ Value) (n : Node) : Prop :=
  ∀ w, Operand.wire w ∈ n.inputs →
    y.Imitates (fetch emitted w) [] (Interpreter.fetch produce w)
      (Value.InLanes y.program.vars w.type)

theorem emulates_load {base : Base} {v : Value} {lanes : List Lane}
    (hv : v.InLanes y.program.vars (.pointer base) lanes) :
    y.Emulates lo hi [callImport (.getVariable (.ofBase base))] lanes (load (.pointer base) v)
      (Value.InLanes y.program.vars (.value base)) := by
  have hmem : Import.getVariable (.ofBase base) ∈ Import.table :=
    mem_table (fun h => nomatch h) fun h => nomatch h
  obtain ⟨var, index, rfl, hpointer⟩ := hv.pointer y.addressable.vars
  refine emulates_import hmem rfl fun s u s' hs hrun => ?_
  have hresult : ∀ {read : Value}, (Format.ofBase base).ofValue read = Lanes.ofValue u →
      u.HasBase base → Host.readVariable s.world var index = read →
      Value.InLanes y.program.vars (.value base) u
        (Host.run y.engine y.program (.getVariable (.ofBase base)) [.i32 var, .i32 index]
          s.world).1 := by
    intro read hlanes hbase hread
    refine ⟨hbase, ?_⟩
    show (Format.ofBase base).ofValue (Host.readVariable s.world var index) = _
    rw [hread]
    exact hlanes
  rcases hv with ⟨rfl, -⟩ | ⟨q, decl, rfl, hdecl, rfl, -⟩
  · cases hrun
    refine ⟨rfl, hs, hresult (Format.ofValue_void base) (Value.hasBase_default base) ?_⟩
    rw [Host.readVariable, hpointer]
    rfl
  · have hbase := VariableStore.hasBase_get hs.vars hdecl
    have hload : load (.pointer decl.type) (.ptr q) s = .ok (s.world.vars.get q) s := by
      unfold load
      simp only [Value.asPtr, get_bind]
      cases hget : s.world.vars.get q with
      | void => exact absurd hget hbase.ne_void
      | _ => rfl
    rw [hload] at hrun
    cases hrun
    refine ⟨rfl, hs, hresult (Format.ofValue_ofBase hbase) hbase ?_⟩
    rw [Host.readVariable, hpointer]
    rfl

theorem imitates_wire {type : WireType} {w : Wire} (hw : w.Fits y.program type)
    (hfetch : y.Imitates (fetch emitted w) [] (Interpreter.fetch produce w)
      (Value.InLanes y.program.vars w.type)) :
    y.Imitates (wire emitted w) [] (readWire produce w) (Value.InLanes y.program.vars type) := by
  rw [wire_eq, readWire_eq]
  refine gives_bind hfetch fun code => ?_
  rcases hw.read with ⟨hderef, rfl⟩ | ⟨base, hderef, htype, rfl⟩
  · rw [hderef]
    exact gives_pure fun l₁ l₀ _ _ hcode => emulates_map hcode fun _ _ h => h
  · rw [hderef, htype]
    refine gives_pure fun l₁ l₀ hext _ hcode => ?_
    exact emulates_bind hcode (fun v outs hv => emulates_load hv) (Locals.count_le hext)
      (Nat.le_refl _)

/-- What is not connected has the default of its type, or is a missing pointer. -/
theorem emulates_value {base : Base} {v : Value} (h : v.HasBase base) :
    y.Emulates lo hi (value v) [] (pure v) (Value.InLanes y.program.vars (.value base)) :=
  emulates_consts ⟨h, rfl⟩

theorem emulates_noPointer {base : Base} :
    y.Emulates lo hi (Lanes.noPointer.map .const) [] (pure .void)
      (Value.InLanes y.program.vars (.pointer base)) :=
  emulates_consts (.inl ⟨rfl, 0, rfl⟩)

theorem imitates_operand (hn : n.Fits y.program id) (hs : y.Sourced emitted produce n) {i : Nat}
    {pin : Pin} (hpin : n.kind.shape.inputs[i]? = some pin)
    (hrequired : pin.optional = true → pin.type.isPointer = true) :
    y.Imitates (operand emitted n i) [] (input produce n i)
      (Value.InLanes y.program.vars pin.type) := by
  obtain ⟨o, ho, hfits⟩ := hn.inputs i pin hpin
  have hinput : n.input i = .ok o := Node.input_eq_ok ho
  have hrun : input produce n i = readOperand produce o := check_bind hinput
  rw [hrun]
  refine gives_lift hinput ?_
  cases hfits with
  | default htype _ hbase =>
    rw [htype]
    exact imitates_pure fun _ => emulates_value hbase
  | absent habsent =>
    have hpointer : pin.type.isPointer = true := habsent.elim (fun h => h) hrequired
    refine gives_lift (inputType_eq hpin) ?_
    cases htype : pin.type with
    | pointer base => exact imitates_pure fun _ => emulates_noPointer
    | _ =>
      rw [htype] at hpointer
      exact nomatch hpointer
  | wire hw => exact imitates_wire hw (hs _ (List.mem_of_getElem? ho))

theorem emulates_under {c : Lane} (h : y.Emulates lo hi a [] x P)
    (hR : ∀ v outs, P v outs → R v (c :: outs)) : y.Emulates lo hi (.const c :: a) [] x R := by
  intro s t below v s' hst hsize hrun
  obtain ⟨t', outs, hruns, hP, hst', hkept⟩ := h s t (c :: below) v s' hst hsize hrun
  refine ⟨t', c :: outs, ?_, hR v outs hP, hst', hkept⟩
  rw [List.reverse_cons, List.append_assoc]
  exact runs_cons (runs_const c) hruns

theorem imitates_flaggedOperand (hn : n.Fits y.program id) (hs : y.Sourced emitted produce n)
    {i : Nat} {pin : Pin} {base : Base} (hpin : n.kind.shape.inputs[i]? = some pin)
    (htype : pin.type = .value base) (hoptional : pin.optional = true) :
    y.Imitates (flaggedOperand emitted n i) [] (optionalInput produce n i) pin.InFlagged := by
  obtain ⟨o, ho, hfits⟩ := hn.inputs i pin hpin
  have hinput : n.input i = .ok o := Node.input_eq_ok ho
  have hpresent : ∀ v outs, Value.InLanes y.program.vars pin.type v outs →
      pin.InFlagged (some v) (.i32 1 :: outs) := by
    intro v outs hv
    rw [htype] at hv
    refine ⟨base, htype, ?_⟩
    rw [if_pos hoptional]
    exact .inr ⟨v, rfl, hv.1, by rw [hv.2]⟩
  cases hfits with
  | default _ hrequired _ =>
    rw [hoptional] at hrequired
    exact nomatch hrequired
  | absent _ =>
    have hrun : optionalInput produce n i = pure none := check_bind hinput
    rw [hrun]
    refine gives_lift hinput (gives_lift (inputType_eq hpin) ?_)
    rw [htype]
    refine imitates_pure fun lo => ?_
    have hzero : pin.InFlagged none (.i32 0 :: Lanes.ofValue base.default) := by
      refine ⟨base, htype, ?_⟩
      rw [if_pos hoptional]
      exact .inl ⟨rfl, _, Lanes.length_ofValue (Value.hasBase_default base), rfl⟩
    exact emulates_consts hzero
  | @wire w hw =>
    have hrun : optionalInput produce n i = readWire produce w >>= fun v => pure (some v) :=
      check_bind hinput
    rw [hrun]
    refine gives_lift hinput ?_
    have hoperand : operand emitted n i = wire emitted w := by
      unfold operand
      rw [hinput]
      rfl
    rw [hoperand]
    refine gives_bind (imitates_wire hw (hs w (List.mem_of_getElem? ho))) fun code => ?_
    refine gives_pure fun l₁ l₀ _ _ hcode => ?_
    exact emulates_under (emulates_map (Q := fun v outs => pin.InFlagged v (.i32 1 :: outs)) hcode
      hpresent) fun _ _ h => h

theorem imitates_operands (hn : n.Fits y.program id) (hs : y.Sourced emitted produce n)
    (hrequired : ∀ pin ∈ n.kind.shape.inputs, pin.optional = true → pin.type.isPointer = true) :
    y.Imitates (operands emitted n n.kind.shape.inputs.length) []
      (inputs produce n n.kind.shape.inputs.length)
      (Pin.Filled y.program.vars n.kind.shape.inputs) := by
  have hrows : y.Imitates (operands emitted n n.kind.shape.inputs.length) []
      (inputs produce n n.kind.shape.inputs.length)
      (Rows (fun i v outs => ∀ pin, n.kind.shape.inputs[i]? = some pin →
        v.InLanes y.program.vars pin.type outs) (List.range n.kind.shape.inputs.length)) := by
    refine imitates_rows fun i hi => ?_
    have hget := List.getElem?_eq_getElem (List.mem_range.mp hi)
    have hoperand := imitates_operand hn hs hget (hrequired _ (List.mem_of_getElem? hget))
    refine gives_mono hoperand fun l l' code hcode =>
      emulates_mono hcode fun v outs hv pin hpin => ?_
    rw [hget] at hpin
    cases hpin
    exact hv
  refine gives_mono hrows fun l l' code hcode => emulates_mono hcode fun vs outs hvs => ?_
  rw [List.range_eq_range'] at hvs
  refine rows_of_range hvs fun i pin v outs hpin hv => hv pin ?_
  rw [Nat.zero_add]
  exact hpin

theorem imitates_effectOperands (hn : n.Fits y.program id) (hs : y.Sourced emitted produce n)
    {e : Effect} (hkind : n.kind = .effect e) :
    y.Imitates (effectOperands emitted n e.shape.inputs) [] (effectInputs produce n e.shape.inputs)
      (Rows Pin.InFlagged e.shape.inputs) := by
  have hshape : n.kind.shape = e.shape := by rw [hkind]; rfl
  have hrows : y.Imitates (effectOperands emitted n e.shape.inputs) []
      (effectInputs produce n e.shape.inputs)
      (Rows (fun r v outs => r.1.InFlagged v outs) e.shape.inputs.zipIdx) := by
    refine imitates_rows fun r hr => ?_
    obtain ⟨pin, i⟩ := r
    have hi : e.shape.inputs[i]? = some pin := List.mem_zipIdx_iff_getElem?.mp hr
    obtain ⟨base, hbase⟩ := WireType.isValue_iff.mp
      (Effect.hasValueInputs e pin (List.mem_of_getElem? hi))
    rw [← hshape] at hi
    dsimp only
    by_cases hoptional : pin.optional = true
    · rw [if_pos hoptional, if_pos hoptional]
      exact imitates_flaggedOperand hn hs hi hbase hoptional
    · rw [if_neg hoptional, if_neg hoptional]
      have hoperand := imitates_operand hn hs hi fun h => absurd h hoptional
      refine gives_mono hoperand fun l l' code hcode => ?_
      refine emulates_map hcode fun v outs hv => ⟨base, hbase, ?_⟩
      rw [hbase] at hv
      rw [if_neg hoptional]
      exact ⟨v, rfl, hv.1, hv.2⟩
  refine gives_mono hrows fun l l' code hcode => emulates_mono hcode fun vs outs hvs => ?_
  exact rows_of_zipIdx hvs fun i pin v outs _ hv => hv

end Compiler
end SignalGraph
