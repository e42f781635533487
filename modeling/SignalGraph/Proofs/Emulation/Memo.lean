import SignalGraph.Proofs.Emulation.Expressions

/-!
# Emulated memo points

The function of a memo point computes its value at most once in a frame, as the interpreter does.
The stamp among its globals tells whether it did.
-/

namespace SignalGraph
namespace Compiler

open Wasm Machine Interpreter

variable {σ : Type} {p : Program} {frames : Nat} {k k' : MemoId} {point point' : MemoPoint}
  {globals globals' : Array Lane} {v : Value} {lanes : List Lane}

/-- What a memo point holds depends only on its own globals. -/
theorem Cached.congr {o : Option Value} (h : Cached p frames k point globals o)
    (hsame : ∀ i, (target p).stampGlobal k ≤ i →
      i ≤ (target p).stampGlobal k + point.type.lanes.length → globals'[i]? = globals[i]?) :
    Cached p frames k point globals' o := by
  have hstamp := hsame _ (Nat.le_refl _) (Nat.le_add_right _ _)
  cases h with
  | empty hg hold =>
    rw [← hstamp] at hg
    exact .empty hg hold
  | filled hg hv hholds =>
    rw [← hstamp] at hg
    refine .filled hg hv (holds_congr hholds fun i hi => ?_)
    have := List.mem_range'_1.mp hi
    exact hsame i (by omega) (by omega)

def fill (p : Program) (frames : Nat) (k : MemoId) (point : MemoPoint) (globals : Array Lane)
    (lanes : List Lane) : Array Lane :=
  (putAll globals (cacheGlobals (target p) k point) lanes).setIfInBounds ((target p).stampGlobal k)
    (.i32 (Int32.ofNat frames))

theorem size_fill : (fill p frames k point globals lanes).size = globals.size := by
  rw [fill, Array.size_setIfInBounds, size_putAll]

/-- Only the globals of the memo point itself change. -/
theorem fill_of_outside {i : Nat} (h : i < (target p).stampGlobal k ∨
    (target p).stampGlobal k + point.type.lanes.length < i) :
    (fill p frames k point globals lanes)[i]? = globals[i]? := by
  have hmem : i ∉ cacheGlobals (target p) k point := by
    intro hmem
    have := List.mem_range'_1.mp hmem
    omega
  rw [fill, Array.getElem?_setIfInBounds_ne (by omega)]
  exact putAll_of_not_mem hmem

theorem holds_fill (hk : p.memoPoints[k]? = some point)
    (hsize : globals.size = (Compiler.globals p).length)
    (hlen : lanes.length = point.type.lanes.length) :
    Holds (fill p frames k point globals lanes) (cacheGlobals (target p) k point) lanes := by
  have hcount : (cacheGlobals (target p) k point).length = lanes.length := by
    rw [cacheGlobals, List.length_range', hlen]
  have hbound : ∀ i ∈ cacheGlobals (target p) k point, i < globals.size := by
    intro i hi
    have hrange := List.mem_range'_1.mp hi
    have hlt := stampGlobal_lt_size hk (j := i - (target p).stampGlobal k) (by omega)
    omega
  have hstamp : (target p).stampGlobal k ∉ cacheGlobals (target p) k point := by
    intro hmem
    have := List.mem_range'_1.mp hmem
    omega
  exact holds_set (holds_putAll hcount List.nodup_range' hbound) hstamp _

theorem stamp_fill (hk : p.memoPoints[k]? = some point)
    (hsize : globals.size = (Compiler.globals p).length) :
    (fill p frames k point globals lanes)[(target p).stampGlobal k]? =
      some (.i32 (Int32.ofNat frames)) := by
  refine Array.getElem?_setIfInBounds_self_of_lt ?_
  rw [size_putAll, hsize]
  exact stampGlobal_lt_size hk (j := 0) (by omega)

theorem cached_fill (hk : p.memoPoints[k]? = some point)
    (hsize : globals.size = (Compiler.globals p).length) (hv : v.InLanes p.vars point.type lanes) :
    Cached p frames k point (fill p frames k point globals lanes) (some v) :=
  .filled (stamp_fill hk hsize) hv (holds_fill hk hsize hv.length)

/-- A machine and an interpreter that agree agree again after a memo point was computed. -/
theorem Agrees.fill {s : Interpreter.State σ} {t : Machine (World σ)} (h : Agrees p frames s t)
    (hk : p.memoPoints[k]? = some point) (hv : v.InLanes p.vars point.type lanes) :
    Agrees p frames { s with memo := s.memo.setIfInBounds k (some v) }
      { t with globals := Compiler.fill p frames k point t.globals lanes } := by
  have hlt : k < s.memo.size := by
    rw [h.typed.memoSize]
    exact (List.getElem?_eq_some_iff.mp hk).1
  refine ⟨typed_setMemo h.typed hk hv.fits, h.host, ?_, ?_, fun k' point' hk' => ?_⟩
  · rw [size_fill]
    exact h.size
  · have hframe : Target.frameGlobal < (target p).stampGlobal k := stampGlobal_pos k
    exact (fill_of_outside (.inl hframe)).trans h.frame
  · by_cases heq : k = k'
    · subst heq
      rw [hk] at hk'
      cases hk'
      rw [Array.getElem?_setIfInBounds_self_of_lt hlt]
      exact cached_fill hk h.size hv
    · rw [Array.getElem?_setIfInBounds_ne heq]
      refine (h.memo k' point' hk').congr fun i hle hge => fill_of_outside ?_
      rcases Nat.lt_or_gt_of_ne heq with hlt | hgt
      · have := stampGlobal_lt (x := target p) hk hlt
        omega
      · have := stampGlobal_lt (x := target p) hk' hgt
        omega

variable {y : Setting σ} {s s' : Interpreter.State σ} {compute : Run σ Value}

theorem memoized_some (h : (s.memo[k]?).join = some v) : memoized k compute s = .ok v s := by
  unfold memoized
  rw [get_bind, h]
  rfl

/-- Computing a memo point that holds nothing fills it. -/
theorem memoized_none (h : (s.memo[k]?).join = none) (hrun : memoized k compute s = .ok v s') :
    ∃ s₁, compute s = .ok v s₁ ∧ s' = { s₁ with memo := s₁.memo.setIfInBounds k (some v) } := by
  have hfill : (compute >>= fun v =>
    modify (fun s => { s with memo := s.memo.setIfInBounds k (some v) })
      >>= fun _ => pure v) s = .ok v s' := by
    rw [← hrun]
    unfold memoized
    rw [get_bind, h]
  obtain ⟨u, s₁, hcompute, hrest⟩ := Interpreter.bind_eq_ok hfill
  cases hrest
  exact ⟨s₁, hcompute, rfl⟩

theorem ofNat_ne_neg_one {n : Nat} (h : n < 4294967295) : Int32.ofNat n ≠ -1 := by
  have hlast : (-1 : Int32) = Int32.ofNat 4294967295 := by decide
  rw [hlast]
  intro heq
  have := ofNat_inj (by omega) (by omega) heq
  omega

/-- A stamp of an earlier frame is not that of the current one. -/
theorem stale {g : Int32} (hframes : frames < 4294967295)
    (h : g = -1 ∨ ∃ i, i < frames ∧ g = Int32.ofNat i) : g ≠ Int32.ofNat frames := by
  rcases h with rfl | ⟨i, hi, rfl⟩
  · exact (ofNat_ne_neg_one hframes).symm
  · intro heq
    have := ofNat_inj (by omega) (by omega) heq
    omega

theorem runs_stampTest {τ : Type} {call : Nat → List Lane → Exec τ (List Lane)} (below : List Lane)
    {t : Machine τ} {stamp : Nat} {g g' : Int32} (hstamp : t.globals[stamp]? = some (.i32 g))
    (hframe : t.globals[Target.frameGlobal]? = some (.i32 g')) :
    Runs call [.globalGet stamp, .globalGet Target.frameGlobal, .numeric .i32Ne] below t
      (ofBool (g != g') :: below) t :=
  runs_cons (runs_globalGet hstamp) (runs_cons (runs_globalGet hframe) (runs_numeric rfl))

/-- The lanes of a memo point go into its globals, and the current frame becomes its stamp. -/
theorem runs_fill {τ : Type} {call : Nat → List Lane → Exec τ (List Lane)} (below : List Lane)
    {t : Machine τ} (hlen : lanes.length = point.type.lanes.length)
    (hframe : t.globals[Target.frameGlobal]? = some (.i32 (Int32.ofNat frames))) :
    Runs call ((cacheGlobals (target p) k point).reverse.map .globalSet) (lanes.reverse ++ below) t
        below { t with globals := putAll t.globals (cacheGlobals (target p) k point) lanes } ∧
      Runs call [.globalGet Target.frameGlobal, .globalSet ((target p).stampGlobal k)] below
        { t with globals := putAll t.globals (cacheGlobals (target p) k point) lanes } below
        { t with globals := fill p frames k point t.globals lanes } := by
  have hcount : (cacheGlobals (target p) k point).length = lanes.length := by
    rw [cacheGlobals, List.length_range', hlen]
  have hmem : Target.frameGlobal ∉ cacheGlobals (target p) k point := by
    intro hmem
    exact Nat.not_succ_le_zero _ (List.mem_range'_1.mp hmem).1
  refine ⟨runs_globalSets hcount, runs_cons (runs_globalGet ?_) (runs_globalSet _ _)⟩
  exact (putAll_of_not_mem hmem).trans hframe

theorem imitates_memoCode (hk : y.program.memoPoints[k]? = some point)
    (hcompute : y.Imitates (Compiler.produce y.program (y.program.nodes.size + 1) point.source) []
      compute (Value.InLanes y.program.vars point.type)) :
    y.Imitates (memoCode (target y.program) k point) [] (memoized k compute)
      (Value.InLanes y.program.vars point.type) := by
  refine gives_bind hcompute fun code => gives_pure fun l₁ l₀ hext _ hcode => ?_
  intro s t below v s' hst hsize hrun
  have hcached := hst.memo k point hk
  cases hjoin : (s.memo[k]?).join with
  | some u =>
    rw [memoized_some hjoin] at hrun
    cases hrun
    rw [hjoin] at hcached
    obtain _ | ⟨hstamp, hv, hholds⟩ := hcached
    have htest : Runs y.call _ _ _ _ _ := runs_stampTest below hstamp hst.frame
    rw [bne_self_eq_false] at htest
    refine ⟨t, _, runs_append (runs_append htest runs_when_zero) (runs_globalGets hholds), hv, hst,
      Kept.refl _ t⟩
  | none =>
    obtain ⟨s₁, hvalue, rfl⟩ := memoized_none hjoin hrun
    rw [hjoin] at hcached
    obtain ⟨hstamp, hold⟩ | _ := hcached
    have htest : Runs y.call _ _ _ _ _ := runs_stampTest below hstamp hst.frame
    rw [bne_iff_ne.mpr (stale y.frames_lt hold)] at htest
    obtain ⟨t₁, lanes, hruns, hv, hst₁, hkept⟩ := hcode s t [] v s₁ hst hsize hvalue
    have hafter := hst₁.fill hk hv
    have hfilled : Cached y.program y.frames k point _ _ := cached_fill hk hst₁.size hv
    obtain _ | ⟨-, hv', hholds⟩ := hfilled
    have hfill : Runs y.call _ _ _ _ _ ∧ Runs y.call _ _ _ _ _ :=
      runs_fill (p := y.program) (k := k) [] hv.length hst₁.frame
    have hwhen := runs_when (s := below) (c := 1) (by decide)
      (runs_append (runs_append hruns hfill.1) hfill.2)
    exact ⟨_, _, runs_append (runs_append htest hwhen) (runs_globalGets hholds), hv', hafter,
      hkept.size, hkept.below⟩

end Compiler
end SignalGraph
