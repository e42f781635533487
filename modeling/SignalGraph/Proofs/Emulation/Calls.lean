import SignalGraph.Proofs.Emulation.Chains
import SignalGraph.Proofs.Emulation.Memo
import SignalGraph.Proofs.Execution.Reached

/-!
# Emulated calls

The functions of a compiled program do what their codes do, at any depth that leaves room for the
calls within them.  A memo point calls only memo points of lower rank, and an outlined statement
only statements of lower rank, so a depth of one for each suffices.
-/

namespace SignalGraph
namespace Compiler

open Wasm Machine Interpreter

variable {σ α τ : Type}

theorem arguments_eq {count : Nat} {lanes : List Lane} (h : lanes.length = count)
    (below : List Lane) (t : Machine τ) :
    arguments count (lanes.reverse ++ below) t = .ok (lanes, below) t := by
  have hlen : lanes.reverse.length = count := by
    rw [List.length_reverse, h]
  unfold arguments
  rw [if_neg (by rw [List.length_append, hlen]; omega), ← hlen, List.take_left, List.drop_left,
    List.reverse_reverse]
  rfl

def startLocals (f : Function) (lanes : List Lane) : Array Lane :=
  (lanes ++ f.locals.map LaneType.zero).toArray

theorem callBody_eq {body : Exec τ Outcome} {locals : Array Lane} {outs : List Lane}
    {t t' : Machine τ}
    (h : body { t with locals } = .ok (.next outs) t') :
    callBody body locals t = .ok outs { t' with locals := t.locals } := by
  show EStateM.bind body _ { t with locals } = _
  rw [EStateM.bind, h]
  rfl

/-- A call runs the body of the function on locals of its own. -/
theorem invoke_function {m : Wasm.Module} {host : Host τ} {depth i : Nat} {f : Function}
    {lanes outs : List Lane} {t t' : Machine τ} (himport : m.imports[i]? = none)
    (hf : m.functions[i - m.imports.size]? = some f) (hlen : lanes.length = f.type.params.length)
    (hruns : Runs (invoke m host depth) f.body [] { t with locals := startLocals f lanes } outs t')
    (below : List Lane) :
    invoke m host (depth + 1) i (lanes.reverse ++ below) t =
      .ok (outs ++ below) { t' with locals := t.locals } := by
  unfold invoke
  rw [himport]
  dsimp only
  rw [hf]
  show EStateM.bind (arguments f.type.params.length (lanes.reverse ++ below)) _ t = _
  rw [EStateM.bind, arguments_eq hlen]
  show EStateM.bind
    (callBody (instrs (invoke m host depth) f.body []) (startLocals f lanes)) _ t = _
  rw [EStateM.bind, callBody_eq hruns]
  rfl

theorem invoke_import {m : Wasm.Module} {host : Host τ} {depth i : Nat}
    {declared : ImportedFunction}
    {lanes below : List Lane} {t : Machine τ} (himport : m.imports[i]? = some declared)
    (hlen : lanes.length = declared.type.params.length) :
    invoke m host (depth + 1) i (lanes.reverse ++ below) t =
      .ok ((host i lanes t.host).1.reverse ++ below)
        { t with host := (host i lanes t.host).2 } := by
  unfold invoke
  rw [himport]
  show EStateM.bind (arguments declared.type.params.length (lanes.reverse ++ below)) _ t = _
  rw [EStateM.bind, arguments_eq hlen]
  rfl

variable {p : Program} {m : Wasm.Module} {frames : Nat}

theorem functions_eq (e : Engine σ) {i : Import} (hi : i ∈ Import.table) (lanes : List Lane) :
    Host.functions e p i.index lanes = Host.run e p i lanes := by
  unfold Host.functions
  rw [List.getElem?_toArray, Import.getElem?_index hi]

structure Running (σ : Type) where
  program : Program
  code : Wasm.Module
  wellFormed : program.WellFormed
  addressable : program.Addressable
  compiled : Compiled program code
  engine : Engine σ
  frames : Nat
  frames_lt : frames < 4294967295

def Running.setting (z : Running σ) (depth : Nat) : Setting σ where
  program := z.program
  wellFormed := z.wellFormed
  addressable := z.addressable
  engine := z.engine
  frames := z.frames
  frames_lt := z.frames_lt
  call := invoke z.code (Host.functions z.engine z.program) (depth + 1)
  imports := by
    intro i hi lanes below t hlen
    rw [invoke_import (z.compiled.getElem?_import hi) hlen, functions_eq z.engine hi]

variable {z : Running σ} {depth : Nat} {lo hi : Nat} {run : Run σ α} {R : α → List Lane → Prop}

/-- The body of a function is what emission gives, and a call has locals for it. -/
theorem body_of_gives {type : FunctionType} {emit : Emit Code} {f : Function}
    {Q : Locals → Locals → Code → Prop} (hcode : function type emit = .ok f) (h : Gives emit Q) :
    ∃ l, Q { params := type.params.length } l f.body ∧ f.type = type ∧
      ∀ lanes : List Lane, lanes.length = type.params.length →
        l.count ≤ (startLocals f lanes).size := by
  obtain ⟨l, hemit, htype, hlocals⟩ := function_eq_ok.mp hcode
  obtain ⟨code, l', hemit', hext, hQ⟩ := h { params := type.params.length }
  rw [hemit] at hemit'
  cases hemit'
  refine ⟨l, hQ, htype, fun lanes hlen => ?_⟩
  rw [Locals.count, hext.params, startLocals, hlocals, ← hlen]
  simp

/-- A call of a function does what its code does one level deeper. -/
theorem emulates_call {i : Nat} {f : Function} {type : FunctionType} {emit : Emit Code}
    (hf : z.code.functions.toList[i]? = some f) (hcode : function type emit = .ok f)
    (hparams : type.params = []) (h : (z.setting depth).Imitates emit [] run R) :
    (z.setting (depth + 1)).Emulates lo hi [.call (Target.imports + i)] [] run R := by
  obtain ⟨l, hemulates, htype, hsize⟩ := body_of_gives hcode h
  have hlen : ([] : List Lane).length = type.params.length := by
    rw [hparams]
    rfl
  intro s t below v s' hst _ hrun
  obtain ⟨t', outs, hruns, hR, hst', -⟩ := hemulates s { t with locals := startLocals f [] } [] v s'
    (hst.of_locals rfl rfl) (hsize [] hlen) hrun
  rw [List.append_nil, List.append_nil] at hruns
  have hget : z.code.functions[Target.imports + i - z.code.imports.size]? = some f := by
    rw [z.compiled.imports_size, Nat.add_sub_cancel_left, ← Array.getElem?_toList]
    exact hf
  rw [← htype] at hlen
  have hcall := invoke_function (z.compiled.getElem?_imports_add i) hget hlen hruns below
  exact ⟨_, outs, runs_call hcall, hR, hst'.of_locals rfl rfl, Kept.of_locals lo rfl⟩

theorem countP_lt_of_mem {β : Type} {P Q : β → Bool} {l : List β} {b : β}
    (h : ∀ a ∈ l, P a = true → Q a = true) (hb : b ∈ l) (hQ : Q b = true) (hP : P b = false) :
    l.countP P < l.countP Q := by
  induction l with
  | nil => exact nomatch hb
  | cons a rest ih =>
    have hmono := List.countP_mono_left fun x hx => h x (List.mem_cons_of_mem a hx)
    rw [List.countP_cons, List.countP_cons]
    rcases List.mem_cons.mp hb with rfl | hb
    · rw [hQ, hP]
      simp only [if_true, Bool.false_eq_true, if_false]
      omega
    · have hlt := ih (fun x hx => h x (List.mem_cons_of_mem a hx)) hb
      have ha := h a List.mem_cons_self
      have hone : (if P a = true then 1 else 0) ≤ if Q a = true then 1 else 0 := by
        by_cases hPa : P a = true
        · exact Nat.le_of_eq (by rw [if_pos hPa, if_pos (ha hPa)])
        · rw [if_neg hPa]
          exact Nat.zero_le _
      exact Nat.add_lt_add_of_lt_of_le hlt hone

def memoDepth (p : Program) (rank : NodeId → Nat) (bound : Nat) : Nat :=
  p.memoPoints.countP fun point => decide (rank point.source.node < bound)

def outlinedDepth (p : Program) (rank : NodeId → Nat) (bound : Nat) : Nat :=
  (target p).outlined.countP fun id => decide (rank id < bound)

theorem memoDepth_lt {rank : NodeId → Nat} {bound k : Nat} {point : MemoPoint}
    (hk : p.memoPoints[k]? = some point) (hlt : rank point.source.node < bound) :
    memoDepth p rank (rank point.source.node) < memoDepth p rank bound := by
  refine countP_lt_of_mem (fun other _ hother => ?_) (List.mem_of_getElem? hk)
    (decide_eq_true hlt) (decide_eq_false (Nat.lt_irrefl _))
  exact decide_eq_true (Nat.lt_trans (of_decide_eq_true hother) hlt)

theorem outlinedDepth_lt {rank : NodeId → Nat} {bound i : Nat} {id : NodeId}
    (hi : (target p).outlined[i]? = some id) (hlt : rank id < bound) :
    outlinedDepth p rank (rank id) < outlinedDepth p rank bound := by
  refine countP_lt_of_mem (fun other _ hother => ?_) (List.mem_of_getElem? hi)
    (decide_eq_true hlt) (decide_eq_false (Nat.lt_irrefl _))
  exact decide_eq_true (Nat.lt_trans (of_decide_eq_true hother) hlt)

/-- By induction on the depth: a memo point computes its source with the memo points of lower
rank. -/
theorem memoizes_setting {rank : NodeId → Nat} (hrank : z.program.Falls z.program.Reads rank) :
    ∀ {depth : Nat} (bound : Nat), memoDepth z.program rank bound ≤ depth →
      (z.setting depth).Memoizes rank bound := by
  intro depth
  induction depth with
  | zero =>
    intro bound hdepth k point hk hlt
    have hpos : 0 < memoDepth z.program rank bound :=
      List.countP_pos_iff.mpr ⟨point, List.mem_of_getElem? hk, decide_eq_true hlt⟩
    omega
  | succ depth ih =>
    intro bound hdepth k point hk hlt lo hi
    have hfewer := memoDepth_lt (p := z.program) hk hlt
    obtain ⟨n, hget, -, hout⟩ := z.wellFormed.memoPoints point (List.mem_of_getElem? hk)
    have hbound := hrank.bounded _ (Array.getElem?_eq_some_iff.mp hget).1
    obtain ⟨f, hf, hcode⟩ := z.compiled.functions.memo k point hk
    have hmemo := ih (rank point.source.node) (by omega)
    have hproduce := imitates_produce (y := z.setting depth) hrank hmemo ⟨n, hget, hout⟩
      (Nat.lt_succ_of_lt hbound) (Nat.le_refl _)
    rw [Target.memoFunction, Nat.add_assoc]
    exact emulates_call hf hcode rfl (imitates_memoCode (y := z.setting depth) hk hproduce)

/-- A depth of one for each memo point suffices for them all. -/
theorem supplies_setting (h : z.program.memoPoints.length ≤ depth) :
    (z.setting depth).Supplies := by
  obtain ⟨rank, hrank⟩ := z.wellFormed.reads
  exact supplies_of_memoizes hrank (memoizes_setting hrank _ (Nat.le_trans List.countP_le_length h))

theorem imitates_chainCode {y : Setting σ} {rank : NodeId → Nat} {bound : Nat} {ids : List NodeId}
    (hs : y.Supplies) (hrank : y.program.Falls y.program.Leads rank) (hout : y.Outlines rank bound)
    (hids : ∀ id ∈ ids, y.program.IsStatement id) (hbound : ∀ id ∈ ids, rank id < bound) :
    y.Imitates (chainCode (target y.program) ids) [] (y.run ids) Quiet :=
  imitates_chain hs hrank hout hids (rank_lt_of_isStatement hrank hids) hbound

/-- The function of an outlined statement runs it with all that follows it, where the outlined
statements of lower rank can be called. -/
theorem imitates_outlinedCode {y : Setting σ} {rank : NodeId → Nat} {id : NodeId} (hs : y.Supplies)
    (hrank : y.program.Falls y.program.Leads rank) (hout : y.Outlines rank (rank id))
    (hid : y.program.IsStatement id) :
    y.Imitates (outlinedCode (target y.program) id) [] (y.step id) Quiet := by
  obtain ⟨n, hget, hst⟩ := hid
  have hn := y.wellFormed.nodes id n hget
  refine gives_lift (Program.node_eq_ok hget) (imitates_step hs hget hst fun targets htargets => ?_)
  refine imitates_chainCode hs hrank hout (hn.targets targets htargets) fun t ht => ?_
  exact hrank.falls id t ⟨n, targets, hget, htargets, ht⟩

/-- By induction on the depth: an outlined statement starts the outlined statements of lower
rank. -/
theorem outlines_setting {rank : NodeId → Nat} (hrank : z.program.Falls z.program.Leads rank) :
    ∀ {depth : Nat} (bound : Nat),
      z.program.memoPoints.length + outlinedDepth z.program rank bound ≤ depth →
      (z.setting depth).Outlines rank bound := by
  intro depth
  induction depth with
  | zero =>
    intro bound hdepth i id hi hlt
    have hpos : 0 < outlinedDepth z.program rank bound :=
      List.countP_pos_iff.mpr ⟨id, List.mem_of_getElem? hi, decide_eq_true hlt⟩
    omega
  | succ depth ih =>
    intro bound hdepth i id hi hlt lo hi'
    have hmem := List.mem_of_getElem? hi
    have hfewer := outlinedDepth_lt (p := z.program) hi hlt
    have hout := ih (rank id) (by omega)
    have hstatement := isStatement_of_converging z.wellFormed hmem
    obtain ⟨f, hf, hcode⟩ := z.compiled.functions.outlined i id hi
    have hsupplies : (z.setting depth).Supplies := supplies_setting (by omega)
    rw [Target.outlinedFunction, Nat.add_assoc, Nat.add_assoc, ← Nat.add_assoc 2]
    exact emulates_call hf hcode rfl
      (imitates_outlinedCode (y := z.setting depth) hsupplies hrank hout hstatement)

/-! ## All functions

A depth of one for each function suffices. -/

theorem supplies_functions : (z.setting z.code.functions.size).Supplies := by
  have hlen := z.compiled.functions.length
  rw [Array.length_toList] at hlen
  refine supplies_setting ?_
  rw [hlen]
  show z.program.memoPoints.length ≤ 2 + z.program.memoPoints.length + _
  omega

theorem outlines_functions {rank : NodeId → Nat} (hrank : z.program.Falls z.program.Leads rank)
    (bound : Nat) :
    (z.setting z.code.functions.size).Outlines rank bound := by
  have hlen := z.compiled.functions.length
  rw [Array.length_toList] at hlen
  have hdepth : outlinedDepth z.program rank bound ≤ (target z.program).outlined.length :=
    List.countP_le_length
  refine outlines_setting hrank _ ?_
  show _ ≤ z.code.functions.size
  rw [hlen]
  show z.program.memoPoints.length + _ ≤ 2 + z.program.memoPoints.length + _
  omega

theorem imitates_chains {ids : List NodeId}
    (hids : ∀ id ∈ ids, z.program.IsStatement id) :
    (z.setting z.code.functions.size).Imitates (chainCode (target z.program) ids) []
      ((z.setting z.code.functions.size).run ids) Quiet := by
  obtain ⟨rank, hrank⟩ := z.wellFormed.leads
  exact imitates_chainCode (y := z.setting z.code.functions.size) supplies_functions hrank
    (outlines_functions hrank _) hids (rank_lt_of_isStatement hrank hids)

end Compiler
end SignalGraph
