import SignalGraph.Compiler.Compile
import SignalGraph.Proofs.Emission.Pins
import SignalGraph.Proofs.Outcome

/-!
# Layout of modules

The number of every function and global of a compiled program, and what a function of that number
was made from.
-/

namespace SignalGraph

/-- Where the part of one element begins among the parts of all. -/
theorem flatMap_getElem? {α β : Type} {f : α → List β} {as : List α} {i j : Nat} {a : α}
    (h : as[i]? = some a) (hj : j < (f a).length) :
    (as.flatMap f)[((as.take i).flatMap f).length + j]? = (f a)[j]? := by
  have hslice := flatMap_slice (f := f) h
  have hget : (f a)[j]? =
      (((as.flatMap f).drop ((as.take i).flatMap f).length).take (f a).length)[j]? := by
    rw [hslice]
  rw [hget, List.getElem?_take_of_lt hj, List.getElem?_drop]

namespace Import

theorem getElem?_index {i : Import} (h : i ∈ table) : table[i.index]? = some i :=
  List.getElem?_idxOf h

end Import

namespace Compiler

open Wasm

def memoGlobals (m : MemoPoint) : List Lane := .i32 (-1) :: m.type.lanes.map LaneType.zero

variable {x : Target} {p : Program} {m : Wasm.Module}

theorem length_memoGlobals (m : MemoPoint) : (memoGlobals m).length = 1 + m.type.lanes.length := by
  rw [memoGlobals, List.length_cons, List.length_map, Nat.add_comm]

theorem stampGlobal_eq (k : MemoId) :
    x.stampGlobal k = 1 + ((x.program.memoPoints.take k).flatMap memoGlobals).length := by
  have hfold : ∀ (ms : List MemoPoint) (start : Nat),
      ms.foldl (fun next m => next + 1 + m.type.lanes.length) start =
        start + (ms.flatMap memoGlobals).length := by
    intro ms
    induction ms with
    | nil => exact fun start => rfl
    | cons m rest ih =>
      intro start
      rw [List.foldl_cons, ih, List.flatMap_cons, List.length_append, length_memoGlobals]
      omega
  exact hfold _ 1

/-- The stamp of a memo point, and its lanes right after it. -/
theorem globals_getElem? {k : MemoId} {point : MemoPoint}
    (hk : x.program.memoPoints[k]? = some point) {j : Nat} (hj : j < 1 + point.type.lanes.length) :
    (globals x.program)[x.stampGlobal k + j]? = (memoGlobals point)[j]? := by
  rw [← length_memoGlobals] at hj
  rw [stampGlobal_eq, show ∀ a, 1 + a + j = (a + j) + 1 from fun a => by omega, globals,
    List.getElem?_cons_succ]
  exact flatMap_getElem? hk hj

theorem stampGlobal_pos (k : MemoId) : 0 < x.stampGlobal k := by
  rw [stampGlobal_eq]
  omega

theorem stampGlobal_lt_size {k : MemoId} {point : MemoPoint} (hk : p.memoPoints[k]? = some point)
    {j : Nat} (hj : j < 1 + point.type.lanes.length) :
    (target p).stampGlobal k + j < (globals p).length := by
  have hglobal := globals_getElem? (x := target p) hk hj
  have hlt : j < (memoGlobals point).length := by
    rw [length_memoGlobals]
    exact hj
  rw [List.getElem?_eq_getElem hlt] at hglobal
  exact (List.getElem?_eq_some_iff.mp hglobal).1

/-- Memo points do not share globals. -/
theorem stampGlobal_lt {k k' : MemoId} {point : MemoPoint}
    (hk : x.program.memoPoints[k]? = some point) (h : k < k') :
    x.stampGlobal k + point.type.lanes.length < x.stampGlobal k' := by
  have hlt := (List.getElem?_eq_some_iff.mp hk).1
  have hprefix : ((x.program.memoPoints.take (k + 1)).flatMap memoGlobals).length ≤
      ((x.program.memoPoints.take k').flatMap memoGlobals).length := by
    have hle : x.program.memoPoints.take (k + 1) <+: x.program.memoPoints.take k' :=
      List.take_prefix_take_left h
    obtain ⟨rest, hrest⟩ := hle
    rw [← hrest, List.flatMap_append, List.length_append]
    omega
  rw [List.take_add_one, hk, List.flatMap_append, List.length_append] at hprefix
  have hlen := length_memoGlobals point
  have hone : ((some point).toList.flatMap memoGlobals).length = (memoGlobals point).length := by
    rw [Option.toList_some, List.flatMap_singleton]
  rw [stampGlobal_eq, stampGlobal_eq]
  omega

/-- A function is made from its code and the locals that the code asks for. -/
theorem function_eq_ok {type : FunctionType} {emit : Emit Code} {f : Function} :
    function type emit = .ok f ↔ ∃ l, emit { params := type.params.length } = .ok (f.body, l) ∧
      f.type = type ∧ f.locals = l.types := by
  constructor
  · intro h
    obtain ⟨⟨code, l⟩, hcode, h⟩ := Outcome.bind_eq_ok.mp h
    cases h
    exact ⟨l, hcode, rfl, rfl⟩
  · rintro ⟨l, hcode, rfl, hlocals⟩
    refine Outcome.bind_eq_ok.mpr ⟨(f.body, l), hcode, ?_⟩
    show pure (⟨f.type, l.types, f.body⟩ : Function) = Except.ok f
    rw [← hlocals]
    rfl

/-- What the functions of a module are made from, in the order of their numbers. -/
structure Functions (x : Target) (fs : List Function) : Prop where
  frame : ∃ f, fs[0]? = some f ∧ function plain (frameCode x) = .ok f
  late : ∃ f, fs[1]? = some f ∧ function { params := [.i32], results := [] } (lateCode x) = .ok f
  memo : ∀ (k : MemoId) (point : MemoPoint), x.program.memoPoints[k]? = some point → ∃ f,
    fs[2 + k]? = some f ∧
      function { params := [], results := point.type.lanes } (memoCode x k point) = .ok f
  outlined : ∀ (i : Nat) (id : NodeId), x.outlined[i]? = some id → ∃ f,
    fs[2 + x.program.memoPoints.length + i]? = some f ∧
      function plain (outlinedCode x id) = .ok f
  length : fs.length = 2 + x.program.memoPoints.length + x.outlined.length

theorem functions_of_ok {fs : List Function} (h : functions x = .ok fs) : Functions x fs := by
  unfold functions at h
  obtain ⟨frame, hframe, h⟩ := Outcome.bind_eq_ok.mp h
  obtain ⟨late, hlate, h⟩ := Outcome.bind_eq_ok.mp h
  obtain ⟨memos, hmemos, h⟩ := Outcome.bind_eq_ok.mp h
  obtain ⟨outlined, houtlined, h⟩ := Outcome.bind_eq_ok.mp h
  cases h
  obtain ⟨hlen, hmemo⟩ := Outcome.mapM_eq_ok hmemos
  obtain ⟨hlen', hout⟩ := Outcome.mapM_eq_ok houtlined
  rw [List.length_zipIdx] at hlen
  refine ⟨⟨frame, rfl, hframe⟩, ⟨late, rfl, hlate⟩, fun k point hk => ?_, fun i id hi => ?_, ?_⟩
  · have hzip : x.program.memoPoints.zipIdx[k]? = some (point, k) := by
      rw [List.getElem?_zipIdx, hk, Nat.zero_add]
      rfl
    obtain ⟨f, hf, hcode⟩ := hmemo k _ hzip
    refine ⟨f, ?_, hcode⟩
    have hlt := (List.getElem?_eq_some_iff.mp hf).1
    rw [Nat.add_comm, List.cons_append, List.cons_append, List.getElem?_cons_succ,
      List.getElem?_cons_succ, List.getElem?_append_left hlt]
    exact hf
  · obtain ⟨f, hf, hcode⟩ := hout i id hi
    refine ⟨f, ?_, hcode⟩
    rw [show 2 + x.program.memoPoints.length + i = (memos.length + i) + 1 + 1 by omega,
      List.cons_append, List.cons_append, List.getElem?_cons_succ, List.getElem?_cons_succ,
      List.getElem?_append_right (Nat.le_add_right _ _), Nat.add_sub_cancel_left]
    exact hf
  · simp only [List.length_cons, List.length_append]
    omega

/-- The number of a function tells from which code it is made. -/
theorem Functions.numbered {fs : List Function} (h : Functions x fs) {i : Nat} {f : Function}
    (hf : fs[i]? = some f) :
    (i = 0 ∧ function plain (frameCode x) = .ok f) ∨
      (i = 1 ∧ function { params := [.i32], results := [] } (lateCode x) = .ok f) ∨
      (∃ k point, i = 2 + k ∧ x.program.memoPoints[k]? = some point ∧
        function { params := [], results := point.type.lanes } (memoCode x k point) = .ok f) ∨
      ∃ j id, i = 2 + x.program.memoPoints.length + j ∧ x.outlined[j]? = some id ∧
        function plain (outlinedCode x id) = .ok f := by
  have hsame : ∀ {g : Function}, fs[i]? = some g → g = f := fun hg =>
    Option.some.inj (hg.symm.trans hf)
  rcases Nat.lt_or_ge i 2 with hsmall | hlarge
  · rcases (show i = 0 ∨ i = 1 by omega) with rfl | rfl
    · obtain ⟨g, hg, hframe⟩ := h.frame
      rw [hsame hg] at hframe
      exact .inl ⟨rfl, hframe⟩
    · obtain ⟨g, hg, hlate⟩ := h.late
      rw [hsame hg] at hlate
      exact .inr (.inl ⟨rfl, hlate⟩)
  · rcases Nat.lt_or_ge i (2 + x.program.memoPoints.length) with hmemo | hmemo
    · obtain ⟨k, rfl⟩ := Nat.exists_eq_add_of_le hlarge
      have hk := List.getElem?_eq_getElem (show k < x.program.memoPoints.length by omega)
      obtain ⟨g, hg, hcode⟩ := h.memo _ _ hk
      rw [hsame hg] at hcode
      exact .inr (.inr (.inl ⟨k, _, rfl, hk, hcode⟩))
    · obtain ⟨j, rfl⟩ := Nat.exists_eq_add_of_le hmemo
      have hj : j < x.outlined.length := by
        have hlt := (List.getElem?_eq_some_iff.mp hf).1
        have hlen := h.length
        omega
      have hout := List.getElem?_eq_getElem hj
      obtain ⟨g, hg, hcode⟩ := h.outlined _ _ hout
      rw [hsame hg] at hcode
      exact .inr (.inr (.inr ⟨j, _, rfl, hout, hcode⟩))

/-- Every function of a module is made from one of the codes. -/
theorem Functions.cases {fs : List Function} (h : Functions x fs) {f : Function} (hf : f ∈ fs) :
    function plain (frameCode x) = .ok f ∨
      function { params := [.i32], results := [] } (lateCode x) = .ok f ∨
      (∃ k point, x.program.memoPoints[k]? = some point ∧
        function { params := [], results := point.type.lanes } (memoCode x k point) = .ok f) ∨
      ∃ id ∈ x.outlined, function plain (outlinedCode x id) = .ok f := by
  obtain ⟨i, hi⟩ := List.getElem?_of_mem hf
  rcases h.numbered hi with
    ⟨-, hframe⟩ | ⟨-, hlate⟩ | ⟨k, point, -, hk, hcode⟩ | ⟨j, id, -, hj, hcode⟩
  · exact .inl hframe
  · exact .inr (.inl hlate)
  · exact .inr (.inr (.inl ⟨k, point, hk, hcode⟩))
  · exact .inr (.inr (.inr ⟨id, List.mem_of_getElem? hj, hcode⟩))

/-- A module with the imports, globals and exports of a program, and functions that are made so. -/
structure Compiled (p : Program) (m : Wasm.Module) : Prop where
  imports : m.imports = (Import.table.map Import.declaration).toArray
  functions : Functions (target p) m.functions.toList
  globals : m.globals = globals p
  exports : m.exports = exports p

theorem compiled_of_ok (h : compile p = .ok m) : Compiled p m := by
  obtain ⟨fs, hfs, h⟩ := Outcome.bind_eq_ok.mp h
  cases h
  exact ⟨rfl, functions_of_ok hfs, rfl, rfl⟩

variable (hm : Compiled p m)

include hm

theorem Compiled.imports_size : m.imports.size = Target.imports := by
  rw [hm.imports, List.size_toArray, List.length_map]
  rfl

theorem Compiled.getElem?_import {i : Import} (hi : i ∈ Import.table) :
    m.imports[i.index]? = some i.declaration := by
  rw [hm.imports, List.getElem?_toArray, List.getElem?_map, Import.getElem?_index hi]
  rfl

/-- Numbers past the imports are those of the module's own functions. -/
theorem Compiled.getElem?_imports_add (i : Nat) : m.imports[Target.imports + i]? = none := by
  rw [Array.getElem?_eq_none]
  rw [hm.imports_size]
  omega

theorem Compiled.functionType?_add {i : Nat} {f : Function} (hf : m.functions.toList[i]? = some f) :
    m.functionType? (Target.imports + i) = some f.type := by
  rw [Module.functionType?, hm.getElem?_imports_add, hm.imports_size, Nat.add_sub_cancel_left,
    ← Array.getElem?_toList, hf]
  rfl

theorem Compiled.functionType?_import {i : Import} (hi : i ∈ Import.table) :
    m.functionType? i.index = some i.type := by
  rw [Module.functionType?, hm.getElem?_import hi]
  rfl

end Compiler
end SignalGraph
