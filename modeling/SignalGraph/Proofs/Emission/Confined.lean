import SignalGraph.Proofs.Emission.Expressions
import SignalGraph.Proofs.Emission.Layout
import SignalGraph.Proofs.Execution.Depth
import SignalGraph.Proofs.Wasm.Confinement

/-!
# Confined code

What the code of an expression can reach: it calls imported functions and the functions of memo
points, leaves globals and the locals of other code alone, and branches only within itself.
-/

namespace SignalGraph
namespace Compiler

open Wasm

variable {α β : Type} {calls : Nat → Prop} {lo : Nat}

/-- What holds of whatever is emitted where locals below `lo` are taken. -/
def Writes (lo : Nat) (emit : Emit α) (Q : α → Prop) : Prop :=
  ∀ l a l', lo ≤ l.count → emit l = .ok (a, l') → lo ≤ l'.count ∧ Q a

theorem writes_pure {a : α} {Q : α → Prop} (h : Q a) : Writes lo (pure a) Q := by
  intro l a' l' hlo heq
  cases heq
  exact ⟨hlo, h⟩

theorem writes_bind {emit : Emit α} {f : α → Emit β} {P : α → Prop} {Q : β → Prop}
    (he : Writes lo emit P) (hf : ∀ a, P a → Writes lo (f a) Q) : Writes lo (emit >>= f) Q := by
  intro l b l' hlo h
  obtain ⟨⟨a, l₁⟩, ha, hb⟩ := Outcome.bind_eq_ok.mp (h : (emit l >>= fun r => f r.1 r.2) = _)
  obtain ⟨hlo₁, hP⟩ := he l a l₁ hlo ha
  exact hf a hP l₁ b l' hlo₁ hb

theorem writes_lift {r : Except Fault α} {f : α → Emit β} {Q : β → Prop}
    (hf : ∀ a, r = .ok a → Writes lo (f a) Q) : Writes lo (liftM r >>= f) Q := by
  cases r with
  | ok a => exact hf a rfl
  | error fault =>
    intro l b l' _ h
    cases h

theorem writes_throw {fault : Fault} {Q : α → Prop} : Writes lo (throw fault : Emit α) Q := by
  intro l a l' _ h
  cases h

theorem writes_mapM {f : α → Emit β} {Q : β → Prop} : ∀ {as : List α},
    (∀ a ∈ as, Writes lo (f a) Q) → Writes lo (as.mapM f) fun bs => ∀ b ∈ bs, Q b
  | [], _ => writes_pure fun _ hb => absurd hb List.not_mem_nil
  | a :: as, h => by
    rw [List.mapM_cons]
    refine writes_bind (h a List.mem_cons_self) fun b hb => ?_
    refine writes_bind (writes_mapM fun i hi => h i (List.mem_cons_of_mem a hi)) fun bs hbs => ?_
    exact writes_pure fun c hc => (List.mem_cons.mp hc).elim (fun heq => heq ▸ hb) (hbs c)

/-- A fresh local is taken for what is emitted after it. -/
theorem writes_fresh {type : LaneType} {f : Nat → Emit β} {Q : β → Prop}
    (hf : ∀ i, lo ≤ i → Writes (i + 1) (f i) Q) : Writes lo (fresh type >>= f) Q := by
  intro l b l' hlo h
  have hnext : l.count + 1 ≤ Locals.count { l with types := l.types ++ [type] } := by
    rw [Locals.count, Locals.count, List.length_append]
    exact Nat.le_refl _
  obtain ⟨hcount, hQ⟩ := hf l.count hlo _ b l' hnext h
  exact ⟨Nat.le_trans hlo (Nat.le_trans (Nat.le_succ _) hcount), hQ⟩

def limits (calls : Nat → Prop) (lo : Nat) : Limits := ⟨calls, fun _ => False, (lo ≤ ·), Counts⟩

/-- Code that stays within itself, with locals from `lo` on and calls of functions in `calls`. -/
def Calls (calls : Nat → Prop) (lo : Nat) (code : Code) : Prop :=
  ∀ labels, confined (limits calls lo) labels code

theorem calls_append {a b : Code} (ha : Calls calls lo a) (hb : Calls calls lo b) :
    Calls calls lo (a ++ b) :=
  fun labels => confined_append.mpr ⟨ha labels, hb labels⟩

theorem calls_flatten {codes : List Code} (h : ∀ code ∈ codes, Calls calls lo code) :
    Calls calls lo codes.flatten :=
  fun labels => confined_flatten fun code hcode => h code hcode labels

theorem calls_nil : Calls calls lo [] := fun _ => confined_nil

theorem calls_cons {i : Instr} {code : Code} (hi : ∀ labels, i.Confined (limits calls lo) labels)
    (h : Calls calls lo code) : Calls calls lo (i :: code) :=
  fun labels => ⟨hi labels, h labels⟩

theorem calls_map {f : α → Instr} {as : List α}
    (h : ∀ a ∈ as, ∀ labels, (f a).Confined (limits calls lo) labels) :
    Calls calls lo (as.map f) :=
  fun labels => confined_map fun a ha => h a ha labels

theorem calls_value (v : Value) : Calls calls lo (value v) := calls_map fun _ _ _ => trivial

theorem calls_getLocals (locals : List Nat) : Calls calls lo (getLocals locals) :=
  calls_map fun _ _ _ => trivial

theorem writes_spill (calls : Nat → Prop) (types : List LaneType) :
    Writes lo (spill types) fun r => Calls calls lo r.2 := by
  have hfresh : ∀ type ∈ types, Writes lo (fresh type) (lo ≤ ·) := by
    intro type _ l i l' hlo h
    cases h
    refine ⟨Nat.le_trans hlo ?_, hlo⟩
    rw [Locals.count, Locals.count, List.length_append, ← Nat.add_assoc]
    exact Nat.le_add_right _ _
  refine writes_bind (writes_mapM hfresh) fun locals hlocals => writes_pure ?_
  exact calls_map fun i hi _ => hlocals i (List.mem_reverse.mp hi)

def CallsImports (calls : Nat → Prop) : Prop := ∀ i ∈ Import.table, calls i.index

def CallsReaders (calls : Nat → Prop) : Prop :=
  ∀ i ∈ Import.table, (∀ f, i ≠ .setSlot f) → calls i.index

theorem CallsImports.readers (h : CallsImports calls) : CallsReaders calls := fun i hi _ => h i hi

theorem CallsReaders.getSlot (h : CallsReaders calls) (b : Base) :
    calls (Import.getSlot (.ofSlot b)).index :=
  h _ (mem_table (fun heq => ofSlot_ne_rot (Import.getSlot.inj heq)) fun heq => nomatch heq)
    fun _ heq => nomatch heq

theorem calls_callImport {i : Import} (hi : calls i.index) : Calls calls lo [callImport i] :=
  calls_cons (fun _ => hi) calls_nil

theorem writes_keep (calls : Nat → Prop) (types : List LaneType) (start count : Nat) :
    Writes lo (keep types start count) (Calls calls lo) :=
  writes_bind (writes_spill calls types) fun _ hr =>
    writes_pure (calls_append hr (calls_getLocals _))

theorem writes_keepOutput (calls : Nat → Prop) (pins : List Pin) (output : Nat) :
    Writes lo (keepOutput pins output) (Calls calls lo) := by
  unfold keepOutput
  split
  · exact writes_pure calls_nil
  · exact writes_keep calls _ _ _

variable {p : Program} {n : Node} {id : NodeId} {produce : Producer → Emit Code}
  {chain : List NodeId → Emit Code}

structure Reads (calls : Nat → Prop) (produce : Producer → Emit Code) (n : Node) : Prop where
  imports : CallsReaders calls
  memo : ∀ w, Operand.wire w ∈ n.inputs → ∀ k, w.memo = some k → calls (Target.memoFunction k)
  source : ∀ w, Operand.wire w ∈ n.inputs → ∀ lo, Writes lo (produce w.source) (Calls calls lo)

theorem writes_wire (h : Reads calls produce n) {w : Wire} (hw : Operand.wire w ∈ n.inputs) :
    Writes lo (wire produce w) (Calls calls lo) := by
  rw [wire_eq]
  have hfetch : Writes lo (fetch produce w) (Calls calls lo) := by
    unfold fetch
    cases hmemo : w.memo with
    | none => exact h.source w hw lo
    | some k => exact writes_pure (calls_cons (fun _ => h.memo w hw k hmemo) calls_nil)
  refine writes_bind hfetch fun code hcode => ?_
  split
  · refine writes_pure
      (calls_append hcode (calls_callImport (h.imports _ ?_ fun _ heq => by cases heq)))
    exact mem_table (fun heq => by cases heq) fun heq => by cases heq
  · exact writes_pure hcode

theorem writes_operand (h : Reads calls produce n) (i : Nat) :
    Writes lo (operand produce n i) (Calls calls lo) := by
  refine writes_lift fun o ho => ?_
  cases o with
  | default v => exact writes_pure (calls_value v)
  | absent =>
    refine writes_lift fun type _ => writes_pure ?_
    unfold unconnected
    split
    · exact calls_map fun _ _ _ => trivial
    · exact calls_value _
  | wire w => exact writes_wire h (Interpreter.mem_of_input ho)

theorem writes_flaggedOperand (h : Reads calls produce n) (i : Nat) :
    Writes lo (flaggedOperand produce n i) (Calls calls lo) := by
  refine writes_lift fun o ho => ?_
  have hpresent : Writes lo (do return int 1 :: (← operand produce n i)) (Calls calls lo) :=
    writes_bind (writes_operand h i) fun _ hcode =>
      writes_pure (calls_cons (fun _ => trivial) hcode)
  cases o with
  | absent =>
    exact writes_lift fun type _ => writes_pure (calls_cons (fun _ => trivial) (calls_value _))
  | default v => exact hpresent
  | wire w => exact hpresent

theorem writes_operands (h : Reads calls produce n) (count : Nat) :
    Writes lo (operands produce n count) (Calls calls lo) :=
  writes_bind (writes_mapM fun i _ => writes_operand h i) fun _ hcodes =>
    writes_pure (calls_flatten hcodes)

theorem writes_effectOperands (h : Reads calls produce n) (pins : List Pin) :
    Writes lo (effectOperands produce n pins) (Calls calls lo) := by
  refine writes_bind (writes_mapM fun r _ => ?_) fun _ hcodes => writes_pure (calls_flatten hcodes)
  dsimp only
  split
  · exact writes_flaggedOperand h r.2
  · exact writes_operand h r.2

theorem calls_flatMap {f : α → Code} {as : List α} (h : ∀ a, Calls calls lo (f a)) :
    Calls calls lo (as.flatMap f) := by
  rw [List.flatMap_def]
  refine calls_flatten fun code hcode => ?_
  obtain ⟨a, -, rfl⟩ := List.mem_map.mp hcode
  exact h a

theorem calls_components (op : Numeric) (a b : Nat → Nat) :
    Calls calls lo ((List.range 3).flatMap fun i => getLocals [a i, b i] ++ [.numeric op]) :=
  calls_flatMap fun _ => calls_append (calls_getLocals _) (calls_cons (fun _ => trivial) calls_nil)

theorem writes_operation (calls : Nat → Prop) (op : Operation) (output : Nat) :
    Writes lo (operation op output) (Calls calls lo) := by
  have hone : ∀ op : Numeric, Writes lo (pure [.numeric op] : Emit Code) (Calls calls lo) :=
    fun _ => writes_pure (calls_cons (fun _ => trivial) calls_nil)
  cases op with
  | addVectors | subtractVectors =>
    exact writes_bind (writes_spill calls _) fun _ hr =>
      writes_pure (calls_append hr (calls_components _ _ _))
  | scale =>
    exact writes_bind (writes_spill calls _) fun _ hr =>
      writes_pure (calls_append hr (calls_components _ _ _))
  | makeVector => exact writes_pure calls_nil
  | breakVector => exact writes_keepOutput calls _ _
  | _ => exact hone _

theorem writes_calling (h : Reads calls produce n) {i : Import} (hi : calls i.index) (shape : Shape)
    (output : Nat) : Writes lo (calling produce n shape i output) (Calls calls lo) := by
  refine writes_bind (writes_operands h _) fun arguments harguments => ?_
  refine writes_bind (writes_keepOutput calls _ _) fun kept hkept => ?_
  exact writes_pure (calls_append harguments (calls_cons (fun _ => hi) hkept))

theorem calls_variablePointer (c : Constant) : Calls calls lo (variablePointer c) := by
  unfold variablePointer
  split
  · exact calls_cons (fun _ => trivial) (calls_cons (fun _ => trivial) calls_nil)
  · exact calls_map fun _ _ _ => trivial

theorem calls_ifElse {r : Option LaneType} {a b : Code} (ha : Calls calls lo a)
    (hb : Calls calls lo b) :
    Calls calls lo [.ifElse r a b] :=
  calls_cons (fun labels => ⟨ha (labels + 1), hb (labels + 1)⟩) calls_nil

theorem calls_when {a : Code} (ha : Calls calls lo a) : Calls calls lo [.when a] :=
  calls_cons (fun labels => ha (labels + 1)) calls_nil

theorem calls_int (k : Int32) : Calls calls lo [int k] := calls_cons (fun _ => trivial) calls_nil

theorem writes_evaluate (h : Reads calls produce n) (output : Nat) (x : Expression) :
    Writes lo (evaluate produce n output x) (Calls calls lo) := by
  have hoperands : ∀ count, Writes lo (operands produce n count) (Calls calls lo) :=
    writes_operands h
  have hoperand : ∀ i, Writes lo (operand produce n i) (Calls calls lo) := writes_operand h
  cases x with
  | literal l => exact writes_pure (calls_value _)
  | operation op =>
    refine writes_bind (hoperands _) fun _ harguments => ?_
    refine writes_bind (writes_operation calls op output) fun _ hcode => ?_
    exact writes_pure (calls_append harguments hcode)
  | routine r =>
    have hi := mem_table (i := .routine r) (fun heq => by cases heq) fun heq => by cases heq
    exact writes_calling h (h.imports _ hi fun _ heq => by cases heq) _ _
  | query q =>
    have hi := mem_table (i := .query q) (fun heq => by cases heq) fun heq => by cases heq
    exact writes_calling h (h.imports _ hi fun _ heq => by cases heq) _ _
  | currentFrame =>
    refine writes_pure (calls_cons (fun _ => h.imports _ (by decide) fun _ heq => by cases heq) ?_)
    exact calls_cons (fun _ => trivial) calls_nil
  | and =>
    refine writes_bind (hoperand 0) fun _ hfirst => writes_bind (hoperand 1) fun _ hsecond => ?_
    exact writes_pure (calls_append hfirst (calls_ifElse hsecond (calls_int 0)))
  | or =>
    refine writes_bind (hoperand 0) fun _ hfirst => writes_bind (hoperand 1) fun _ hsecond => ?_
    exact writes_pure (calls_append hfirst (calls_ifElse (calls_int 1) hsecond))
  | getVariable t => exact writes_pure (calls_variablePointer _)
  | list t =>
    refine writes_bind (hoperands 2) fun _ harguments => writes_pure (calls_append harguments ?_)
    exact calls_cons (fun _ => trivial) (calls_cons (fun _ => trivial)
      (calls_cons (fun _ => trivial) calls_nil))

theorem calls_setSlot (hc : CallsImports calls) {f : Format} (hf : f ≠ .rot) :
    Calls calls lo [callImport (.setSlot f)] :=
  calls_callImport
    (hc _ (mem_table (fun heq => by cases heq) fun heq => hf (Import.setSlot.inj heq)))

theorem writes_readSlot (hc : ∀ b, calls (Import.getSlot (.ofSlot b)).index)
    (p : Program) (n : Node)
    (output : Nat) : Writes lo (readSlot p n output) (Calls calls lo) := by
  refine writes_lift fun r _ => writes_lift fun type _ => ?_
  have hget : Calls calls lo [Compiler.id r.1, callImport (.getSlot (.ofSlot type))] :=
    calls_cons (fun _ => trivial) (calls_callImport (hc type))
  split
  · refine writes_bind (writes_keep calls _ _ _) fun _ hkept => ?_
    exact writes_pure (calls_append hget hkept)
  · exact writes_pure hget

end Compiler
end SignalGraph
