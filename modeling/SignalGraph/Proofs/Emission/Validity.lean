import SignalGraph.Proofs.Analysis.Analysed
import SignalGraph.Proofs.Emission.Layout
import SignalGraph.Proofs.Emission.Statements

/-!
# Validity of modules

Compilation of an analysed program succeeds, and every function of the module is well typed.
-/

namespace SignalGraph
namespace Compiler

open Wasm Typing

variable {x : Target} {c : TypingContext} {labels : List (Option LaneType)}

theorem emits_chainCode (hx : x.program.WellFormed) {ids : List NodeId}
    (hids : ∀ id ∈ ids, x.program.IsStatement id) : Emits x (chainCode x ids) [] [] := by
  obtain ⟨rank, hrank⟩ := hx.leads
  refine emits_chain hx hrank hids fun id hid => ?_
  obtain ⟨n, hget, -⟩ := hids id hid
  exact Nat.lt_succ_of_lt (hrank.bounded id (Array.getElem?_eq_some_iff.mp hget).1)

theorem chained_chainCode (hx : x.program.WellFormed) {id : NodeId} {n : Node}
    (hn : n.Fits x.program id) : Chained x (chainCode x) n :=
  fun _ hids => emits_chainCode hx (hn.targets _ hids)

theorem emits_frameCode (hx : x.program.WellFormed) : Emits x (frameCode x) [] [] := by
  have hentries : Yields x (x.program.entryPoints.mapM fun entry => chainCode x [entry])
      fun c codes => List.Forall₂ (fun _ code => ∀ labels, Types c labels code [] [])
        x.program.entryPoints codes := by
    refine yields_mapM fun entry hentry => ?_
    refine emits_chainCode hx fun id hid => ?_
    obtain rfl := List.mem_singleton.mp hid
    exact hx.entryPoints _ hentry
  refine yields_bind hentries fun codes => yields_pure fun c hc hcodes labels => ?_
  have hcount : Types c labels [.globalGet Target.frameGlobal, int 1, .numeric .i32Add,
      .globalSet Target.frameGlobal] [] [] := by
    refine types_append (types_under _ (types_globalGet hc.frame) (types_int 1)) ?_
    exact types_cons (types_numeric .i32Add) (types_globalSet hc.frame)
  exact types_append hcount (types_rows (hcodes.imp fun _ _ h => h labels))

/-- The body of the late function, where the first local is its parameter. -/
theorem yields_lateCode (hx : x.program.WellFormed) :
    Yields x (lateCode x) fun c code =>
      c.locals[0]? = some .i32 → ∀ labels, Types c labels code [] [] := by
  refine yields_bind (yields_mapM (R := fun c _ code =>
    c.locals[0]? = some .i32 → ∀ labels, Types c labels code [] []) fun id hid =>
    ?_) fun codes => ?_
  · obtain ⟨n, hget, hkind⟩ := Program.mem_lateNodes.mp hid
    have hn := hx.nodes id n hget
    refine yields_lift (Program.node_eq_ok hget) ?_
    refine yields_bind (emits_branch hn (chained_chainCode hx hn) (i := 0) ?_) fun body => ?_
    · rw [hkind]
      exact Nat.zero_lt_one
    · refine yields_pure fun c _ hbody hlocal labels => ?_
      refine types_append (types_under _ (types_localGet hlocal) (types_int _)) ?_
      exact types_cons (types_numeric .i32Eq) (types_when (hbody _))
  · refine yields_pure fun c _ hcodes hlocal labels => ?_
    exact types_rows (hcodes.imp fun _ _ h => h hlocal labels)

theorem types_getGlobals {is : List Nat} {types : List LaneType}
    (h : List.Forall₂ (fun i t => c.globals[i]? = some t) is types) :
    Types c labels (is.map .globalGet) [] types := by
  induction h with
  | nil => exact types_nil
  | cons hi _ ih => exact types_append (types_globalGet hi) (types_push [_] ih)

theorem types_setGlobals {is : List Nat} {types : List LaneType}
    (h : List.Forall₂ (fun i t => c.globals[i]? = some t) is types) :
    Types c labels (is.reverse.map .globalSet) types [] := by
  induction h with
  | nil => exact types_nil
  | cons hi _ ih =>
    rw [List.reverse_cons, List.map_append]
    exact types_append (types_frame [_] ih) (types_globalSet hi)

theorem emits_memoCode (hx : x.program.WellFormed) {k : MemoId} {point : MemoPoint}
    (hk : x.program.memoPoints[k]? = some point) :
    Emits x (memoCode x k point) [] point.type.lanes := by
  obtain ⟨rank, hrank⟩ := hx.reads
  obtain ⟨n, hget, -, hout⟩ := hx.memoPoints point (List.mem_of_getElem? hk)
  have hbound := hrank.bounded _ (Array.getElem?_eq_some_iff.mp hget).1
  have hproduce := emits_produce hx hrank ⟨n, hget, hout⟩ (Nat.lt_succ_of_lt hbound)
  refine yields_bind hproduce fun code => yields_pure fun c hc hcode labels => ?_
  have hstamp := hc.stamp k point hk
  have hcache := hc.cache k point hk
  have htest : Types c labels [.globalGet (x.stampGlobal k), .globalGet Target.frameGlobal,
      .numeric .i32Ne] [] [.i32] :=
    types_append (types_under _ (types_globalGet hstamp) (types_globalGet hc.frame))
      (types_numeric .i32Ne)
  have hfill : Types c (none :: labels) (code ++
      (cacheGlobals x k point).reverse.map .globalSet ++
        [.globalGet Target.frameGlobal, .globalSet (x.stampGlobal k)]) [] [] :=
    types_append (types_append (hcode _) (types_setGlobals hcache))
      (types_cons (types_globalGet hc.frame) (types_globalSet hstamp))
  exact types_append (types_append htest (types_when hfill)) (types_getGlobals hcache)

theorem emits_outlinedCode (hx : x.program.WellFormed) {id : NodeId}
    (hid : x.program.IsStatement id) : Emits x (outlinedCode x id) [] [] := by
  obtain ⟨n, hget, hs⟩ := hid
  have hn := hx.nodes id n hget
  refine yields_lift (Program.node_eq_ok hget) ?_
  exact emits_append (emits_node hx hn hs (chained_chainCode hx hn))
    (emits_chainCode hx (hn.targets _ (hn.after hs)))

theorem isStatement_of_converging {p : Program} (hp : p.WellFormed) {id : NodeId}
    (h : id ∈ converging p) : p.IsStatement id := by
  obtain ⟨-, hmany⟩ := List.mem_filter.mp h
  have hpos : 0 < predecessors p id := by
    have := of_decide_eq_true hmany
    omega
  obtain ⟨n, hmem, hid⟩ := List.mem_flatMap.mp (List.count_pos_iff.mp hpos)
  obtain ⟨ids, hids, hid⟩ := List.mem_flatten.mp hid
  obtain ⟨i, hi⟩ := Array.getElem?_of_mem (Array.mem_toList_iff.mp hmem)
  exact (hp.nodes i n hi).targets ids hids id hid

def context (m : Wasm.Module) (locals : List LaneType) : TypingContext :=
  { locals, globals := m.globals.map Lane.type, functions := m.functionType? }

theorem within_of_params {l : Locals} {m : Wasm.Module} {params : List LaneType}
    (h : params.length = l.params) : l.Within (context m (params ++ l.types)) := by
  intro i t hi
  rw [context, ← h, List.getElem?_append_right (Nat.le_add_right _ _), Nat.add_sub_cancel_left]
  exact hi

theorem function_ok (type : FunctionType) {emit : Emit Code} {Q : TypingContext → Code → Prop}
    (h : Yields x emit Q) : ∃ f, function type emit = .ok f := by
  obtain ⟨code, l, hcode, -⟩ := h { params := type.params.length }
  exact ⟨⟨type, l.types, code⟩, function_eq_ok.mpr ⟨l, hcode, rfl, rfl⟩⟩

variable {p : Program} {m : Wasm.Module}

/-- The globals of a memo point have the types of its lanes. -/
theorem globals_types {k : MemoId} {point : MemoPoint}
    (hk : x.program.memoPoints[k]? = some point) {j : Nat} {t : LaneType}
    (hj : (LaneType.i32 :: point.type.lanes)[j]? = some t) :
    ((globals x.program).map Lane.type)[x.stampGlobal k + j]? = some t := by
  have hlt := (List.getElem?_eq_some_iff.mp hj).1
  rw [List.length_cons] at hlt
  rw [List.getElem?_map, globals_getElem? hk (by omega), ← List.getElem?_map, memoGlobals,
    List.map_cons, List.map_map, show Lane.type ∘ LaneType.zero = fun t => t from funext zero_type,
    List.map_id']
  exact hj

theorem context_of_compiled (hm : Compiled p m) (locals : List LaneType) :
    (target p).Context (context m locals) where
  imports _ hi := hm.functionType?_import hi
  memo k point hk := by
    obtain ⟨f, hf, hcode⟩ := hm.functions.memo k point hk
    obtain ⟨-, -, hftype, -⟩ := function_eq_ok.mp hcode
    have htype := hm.functionType?_add hf
    rw [hftype] at htype
    rw [Target.memoFunction, Nat.add_assoc]
    exact htype
  outlined i hi := by
    obtain ⟨f, hf, hcode⟩ := hm.functions.outlined i _ (List.getElem?_eq_getElem hi)
    obtain ⟨-, -, hftype, -⟩ := function_eq_ok.mp hcode
    have htype := hm.functionType?_add hf
    rw [hftype] at htype
    rw [Target.outlinedFunction, Nat.add_assoc, Nat.add_assoc, ← Nat.add_assoc 2]
    exact htype
  frame := by
    rw [context, hm.globals]
    rfl
  stamp k point hk := by
    rw [context, hm.globals]
    exact globals_types (x := target p) hk (j := 0) rfl
  cache k point hk := by
    rw [context, hm.globals, cacheGlobals]
    refine List.forall₂_iff_get.mpr ⟨List.length_range' .., fun j hj ht => ?_⟩
    rw [List.get_eq_getElem, List.getElem_range', Nat.one_mul, Nat.add_assoc, Nat.add_comm 1]
    refine globals_types (x := target p) hk ?_
    rw [List.getElem?_cons_succ]
    exact List.getElem?_eq_getElem ht

/-- A function is well typed if its code is right wherever it may refer to. -/
theorem function_valid (hm : Compiled p m) {type : FunctionType} {emit : Emit Code}
    {Q : TypingContext → Code → Prop} (h : Yields (target p) emit Q) {f : Function}
    (hf : function type emit = .ok f)
    (hQ : ∀ c code, Q c code → c.locals = type.params ++ f.locals →
      Types c [] code [] type.results) : Typing.function m f = true := by
  obtain ⟨l, hcode, htype, hlocals⟩ := function_eq_ok.mp hf
  obtain ⟨code, l', hcode', hext, hright⟩ := h { params := type.params.length }
  rw [hcode] at hcode'
  cases hcode'
  have hwithin : l.Within (context m (type.params ++ f.locals)) := by
    rw [hlocals]
    exact within_of_params hext.params.symm
  have htypes := hQ _ _ (hright _ (context_of_compiled hm _) hwithin) rfl
  rw [← htype] at htypes
  exact leaves_of_types htypes

theorem exists_compile (hp : p.WellFormed) : ∃ m, compile p = .ok m := by
  have hx : (target p).program.WellFormed := hp
  obtain ⟨frame, hframe⟩ := function_ok plain (emits_frameCode hx)
  obtain ⟨late, hlate⟩ := function_ok ⟨[.i32], []⟩ (yields_lateCode hx)
  obtain ⟨memos, hmemos⟩ : ∃ fs, p.memoPoints.zipIdx.mapM (fun r =>
      function ⟨[], r.1.type.lanes⟩ (memoCode (target p) r.2 r.1)) = .ok fs := by
    refine Outcome.mapM_ok fun r hmem => ?_
    exact function_ok _ (emits_memoCode hx (List.mem_zipIdx_iff_getElem?.mp hmem))
  obtain ⟨outlined, houtlined⟩ : ∃ fs, (target p).outlined.mapM (fun id =>
      function plain (outlinedCode (target p) id)) = .ok fs := by
    refine Outcome.mapM_ok fun id hid => ?_
    exact function_ok _ (emits_outlinedCode hx (isStatement_of_converging hp hid))
  have hfunctions : functions (target p) = .ok (frame :: late :: memos ++ outlined) :=
    Outcome.bind_eq_ok.mpr ⟨frame, hframe, Outcome.bind_eq_ok.mpr ⟨late, hlate,
      Outcome.bind_eq_ok.mpr ⟨memos, hmemos, Outcome.bind_eq_ok.mpr ⟨outlined, houtlined, rfl⟩⟩⟩⟩
  exact ⟨_, Outcome.bind_eq_ok.mpr ⟨_, hfunctions, rfl⟩⟩

theorem isValid_of_compiled (hp : p.WellFormed) (hm : Compiled p m) : m.isValid = true := by
  refine Array.all_eq_true.mpr fun i hi => ?_
  have hmem : m.functions[i] ∈ m.functions.toList := Array.getElem_mem_toList hi
  rcases hm.functions.cases hmem with hcode | hcode | ⟨k, point, hk, hcode⟩ | ⟨id, hid, hcode⟩
  · exact function_valid hm (emits_frameCode hp) hcode fun _ _ h _ => h []
  · refine function_valid hm (yields_lateCode hp) hcode fun c code h hlocals => h ?_ []
    rw [hlocals]
    rfl
  · exact function_valid hm (emits_memoCode hp hk) hcode fun _ _ h _ => h []
  · have hst : (target p).program.IsStatement id := isStatement_of_converging hp hid
    exact function_valid hm (emits_outlinedCode hp hst) hcode fun _ _ h _ => h []

/-- Emission succeeds, and in a function of the module with the locals it asked for, its code leaves
lanes on whatever stack there is. -/
def Leaves (m : Wasm.Module) (emit : Emit Code) (outs : List LaneType) : Prop :=
  ∀ l, ∃ code l', emit l = .ok (code, l') ∧ ∀ params labels, params.length = l.params →
    Types (context m (params ++ l'.types)) labels code [] outs

theorem leaves_of_emits (hm : Compiled p m) {emit : Emit Code} {outs : List LaneType}
    (h : Emits (target p) emit [] outs) : Leaves m emit outs := by
  intro l
  obtain ⟨code, l', hcode, hext, htypes⟩ := h l
  refine ⟨code, l', hcode, fun params labels hparams => ?_⟩
  rw [← hext.params] at hparams
  exact htypes _ (context_of_compiled hm _) (within_of_params hparams) labels

theorem export_frame (hm : Compiled p m) : m.export? frameName = some Target.frameFunction := by
  rw [Module.export?, hm.exports]
  rfl

theorem export_late (hm : Compiled p m) : m.export? lateName = some Target.lateFunction := by
  rw [Module.export?, hm.exports, exports, List.lookup_cons, show (lateName == frameName) = false by
    decide]
  exact List.lookup_cons_self

theorem export_memo (hm : Compiled p m) {k : MemoId} (hk : k < p.memoPoints.length) :
    (memoName k, Target.memoFunction k) ∈ m.exports := by
  rw [hm.exports]
  refine List.mem_cons_of_mem _ (List.mem_cons_of_mem _ ?_)
  exact List.mem_map.mpr ⟨k, List.mem_range.mpr hk, rfl⟩

/-- Compilation of an analysed program gives a module whose functions are well typed and have the
types that its exports promise.  The code of an input leaves the lanes of its pin, after a flag
where an effect takes the input only if it is connected. -/
theorem compile_valid {c : Catalog} {d : Document} (hc : c.Stocked)
    (h : Program.analyse c d = .ok p) :
    ∃ m, compile p = .ok m ∧ m.isValid = true ∧
      (m.export? frameName).bind m.functionType? = some { params := [], results := [] } ∧
      (m.export? lateName).bind m.functionType? = some { params := [.i32], results := [] } ∧
      (∀ (k : MemoId) (point : MemoPoint), p.memoPoints[k]? = some point →
        (memoName k, Target.memoFunction k) ∈ m.exports ∧
        m.functionType? (Target.memoFunction k) =
          some { params := [], results := point.type.lanes }) ∧
      (∀ i, i < (converging p).length →
        m.functionType? ((target p).outlinedFunction i) = some { params := [], results := [] }) ∧
      (∀ i ∈ Import.table, m.imports[i.index]? = some i.declaration) ∧
      ∀ (id : NodeId) (n : Node) (i : Nat) (pin : Pin), p.nodes[id]? = some n →
        n.kind.shape.inputs[i]? = some pin →
        Leaves m (operand (produce p (p.nodes.size + 1)) n i) pin.type.lanes ∧
        ∀ e, n.kind = .effect e → pin.optional = true →
          Leaves m (flaggedOperand (produce p (p.nodes.size + 1)) n i)
            (.i32 :: pin.type.lanes) := by
  have hp := Program.wellFormed_of_analyse hc h
  have hx : (target p).program.WellFormed := hp
  obtain ⟨m, hcompile⟩ := exists_compile hp
  have hm := compiled_of_ok hcompile
  have hcontext := context_of_compiled hm []
  have htype : ∀ {i : Nat} {f : Function} {type : FunctionType} {emit : Emit Code},
      m.functions.toList[i]? = some f → function type emit = .ok f →
      m.functionType? (Target.imports + i) = some type := by
    intro i f type emit hf hcode
    obtain ⟨-, -, hftype, -⟩ := function_eq_ok.mp hcode
    rw [hm.functionType?_add hf, hftype]
  refine ⟨m, hcompile, isValid_of_compiled hp hm, ?_, ?_, fun k point hk => ⟨?_, ?_⟩, ?_, ?_, ?_⟩
  · obtain ⟨f, hf, hcode⟩ := hm.functions.frame
    rw [export_frame hm]
    exact htype hf hcode
  · obtain ⟨f, hf, hcode⟩ := hm.functions.late
    rw [export_late hm]
    exact htype hf hcode
  · exact export_memo hm (List.getElem?_eq_some_iff.mp hk).1
  · exact hcontext.memo k point hk
  · exact hcontext.outlined
  · exact fun i hi => hm.getElem?_import hi
  · intro id n i pin hget hpin
    have hn : n.Fits (target p).program id := hp.nodes id n hget
    have hcoded := coded_produce hx hn
    refine ⟨leaves_of_emits hm (emits_operand hx hn hcoded hpin), fun e hkind _ => ?_⟩
    have hvalue : pin.type.isValue = true := by
      refine Effect.hasValueInputs e pin (List.mem_of_getElem? (i := i) ?_)
      rw [show e.shape = n.kind.shape by rw [hkind]; rfl]
      exact hpin
    obtain ⟨b, hb⟩ := WireType.isValue_iff.mp hvalue
    exact leaves_of_emits hm (emits_flaggedOperand hx hn hcoded hpin hb)

/-- Besides the functions that run frames and late tasks there is one for the pointer of `toggling`
and one for the flipped value.  The value that the fifth node writes is a lane. -/
theorem compile_valid_toggling : ∃ c p m, c.Stocked ∧
    Program.analyse c Program.toggling = .ok p ∧ compile p = .ok m ∧ m.functions.size = 4 ∧
    p.memoPoints.map (·.type) = [.pointer .bool, .value .bool] ∧ m.isValid = true ∧
    (m.export? frameName).bind m.functionType? = some { params := [], results := [] } ∧
    (m.export? lateName).bind m.functionType? = some { params := [.i32], results := [] } ∧
    (memoName 0, Target.memoFunction 0) ∈ m.exports ∧
    m.functionType? (Target.memoFunction 0) = some { params := [], results := [.i32, .i32] } ∧
    (∀ i ∈ Import.table, m.imports[i.index]? = some i.declaration) ∧
    ∃ n, p.nodes[4]? = some n ∧ n.kind = .statement (.setPointer (.value .bool)) ∧
      Leaves m (operand (produce p (p.nodes.size + 1)) n 1) [.i32] := by
  have hsome : (Catalog.stock.bind fun c =>
      Program.analyse c Program.toggling).toOption.any (fun p =>
      (compile p).toOption.map (·.functions.size) = some 4 ∧
        p.memoPoints.map (·.type) = [.pointer .bool, .value .bool] ∧
        (p.nodes[4]?).map (·.kind) = some (.statement (.setPointer (.value .bool)))) = true := by
    decide +kernel
  obtain ⟨c, p, -, hc, hp, hfacts⟩ := Catalog.exists_stock hsome
  obtain ⟨hsize, htypes, hkind⟩ := of_decide_eq_true hfacts
  obtain ⟨m, hm, hvalid, hframe, hlate, hmemo, -, himports, hinputs⟩ := compile_valid hc hp
  rw [hm] at hsize
  obtain ⟨point, hpoint, htype⟩ : ∃ point, p.memoPoints[0]? = some point ∧
      point.type = .pointer .bool := by
    have hfirst := congrArg (·[0]?) htypes
    exact Option.map_eq_some_iff.mp (List.getElem?_map.symm.trans hfirst)
  obtain ⟨n, hn, hkind⟩ := Option.map_eq_some_iff.mp hkind
  obtain ⟨hexport, hfunction⟩ := hmemo 0 point hpoint
  rw [htype] at hfunction
  have hpin : n.kind.shape.inputs[1]? = some { type := .value .bool, name := "Value" } := by
    rw [hkind]
    rfl
  exact ⟨c, p, m, hc, hp, hm, Option.some.inj hsize, htypes, hvalid, hframe, hlate, hexport,
    hfunction, himports, n, hn, hkind, (hinputs 4 n 1 _ hn hpin).1⟩

end Compiler
end SignalGraph
