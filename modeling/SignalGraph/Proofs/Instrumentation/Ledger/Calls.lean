import SignalGraph.Proofs.Instrumentation.Ledger.Code

/-!
# Watched calls

The functions of a compiled program do the same with a ledger as without one, and the ledger agrees
with the memo points.  A memo point calls only memo points of lower rank, so that none is busy when
it is called.
-/

namespace SignalGraph
namespace Compiler

open Wasm Machine

variable {σ : Type} {p : Program} {busy : MemoId → Prop} {k : MemoId} {m : MemoPoint}
  {call' : Nat → List Lane → Exec (World (σ × Ledger)) (List Lane)}
  {call : Nat → List Lane → Exec (World σ) (List Lane)} {code : Code}

def Current (p : Program) (busy : MemoId → Prop) (k : MemoId) (g : Array Lane)
    (l : Ledger) : Prop :=
  Filed p busy g l ∧ g[(target p).stampGlobal k]? = g[Target.frameGlobal]?

def Continued (p : Program) (busy : MemoId → Prop) (k : MemoId) (outcome : Outcome)
    (g : Array Lane) (l : Ledger) : Prop :=
  Current p busy k g l ∧ ∃ s, outcome = .next s

/-- The lanes that a memo point holds are on top of the stack. -/
def Left (p : Program) (busy : MemoId → Prop) (k : MemoId) (m : MemoPoint)
    (stack : List Lane) (g : Array Lane) (l : Ledger) : Prop :=
  Filed p busy g l ∧ ∃ lanes below, stack = lanes.reverse ++ below ∧
    lanes.length = m.type.lanes.length ∧ cells p g k = some (.lanes lanes)

theorem shadows_proceed {I : Array Lane → Ledger → Prop}
    {J : Outcome → Array Lane → Ledger → Prop} {x' : Exec (World (σ × Ledger)) Outcome}
    {x : Exec (World σ) Outcome} {rest' : List Lane → Exec (World (σ × Ledger)) Outcome}
    {rest : List Lane → Exec (World σ) Outcome} {I' : Array Lane → Ledger → Prop}
    (hx : Shadows I (Remains I' 0) x' x) (hrest : ∀ s, Shadows I' J (rest' s) (rest s)) :
    Shadows I J (x' >>= proceed rest') (x >>= proceed rest) :=
  escorts_proceed hx hrest

/-- The computed lanes are stored, and the memo point is no longer busy. -/
theorem shadows_stampCode (hk : p.memoPoints[k]? = some m) (hidle : ¬busy k) (s : List Lane) :
    Shadows (Filed p (fun j => j = k ∨ busy j)) (Continued p busy k)
      (instrs call' (stampCode (target p) k m) s) (instrs call (stampCode (target p) k m) s) := by
  have hstore : Shadowed ⟨fun _ => False, (· ∈ cacheGlobals (target p) k m), fun _ => False,
      fun _ => False⟩ (Filed p (fun j => j = k ∨ busy j)) call' call :=
    ⟨fun _ h => h.elim, fun i hi lane g l h => filed_store h hk (.inl rfl) hi lane⟩
  unfold stampCode
  rw [instrs_append_bind call', instrs_append_bind call]
  refine shadows_proceed (shadows_instrs hstore (confined_map fun i hi => ?_) s) fun s t l h => ?_
  · exact List.mem_reverse.mp hi
  · obtain ⟨c, hc⟩ := h.stamped.frame
    have hruns : ∀ {τ : Type} {run : Nat → List Lane → Exec τ (List Lane)} {t : Machine τ},
        t.globals[Target.frameGlobal]? = some (.i32 c) →
        Runs run [.globalGet Target.frameGlobal, .globalSet ((target p).stampGlobal k)] s t s
          { t with globals := t.globals.setIfInBounds ((target p).stampGlobal k) (.i32 c) } :=
      fun hframe => runs_cons (runs_globalGet hframe) (runs_globalSet _ _)
    have hrun : instrs call _ s t = _ := hruns hc
    rw [hrun]
    exact ⟨l, hruns (t := t.beside l) hc, filed_stamp h hk hidle hc, _, rfl⟩

theorem shadows_compute (hp : p.Shares) (hk : p.memoPoints[k]? = some m) (hidle : ¬busy k)
    (hmark : ∀ s, call' ((target p).markNumber memoMarks k) s =
      (do note (.computed m.source); return s))
    (hcode : Shadows (Filed p (fun j => j = k ∨ busy j))
      (Remains (Filed p (fun j => j = k ∨ busy j)) 0) (instrs call' code [])
      (instrs call code [])) :
    Shadows (fun g l => Filed p busy g l ∧
        g[(target p).stampGlobal k]? ≠ g[Target.frameGlobal]?)
      (Continued p busy k)
      (instrs call' ((target p).mark memoMarks k :: (code ++ stampCode (target p) k m)) [])
      (instrs call (code ++ stampCode (target p) k m) []) := by
  have hnoted :
      instrs call' ((target p).mark memoMarks k :: (code ++ stampCode (target p) k m)) [] =
        (do note (.computed m.source); instrs call' (code ++ stampCode (target p) k m) []) := by
    have hcall : instr call' ((target p).mark memoMarks k) [] =
        (do return .next (← call' ((target p).markNumber memoMarks k) [])) := rfl
    rw [instrs_cons, hcall, hmark]
    rfl
  rw [hnoted]
  have hrest : Shadows (Filed p (fun j => j = k ∨ busy j)) (Continued p busy k)
      (instrs call' (code ++ stampCode (target p) k m) [])
      (instrs call (code ++ stampCode (target p) k m) []) := by
    rw [instrs_append_bind call', instrs_append_bind call]
    exact shadows_proceed hcode fun s => shadows_stampCode hk hidle s
  refine mirrors_note (note_beside _) (fun t l h => ?_) hrest
  exact ⟨h.1.stamped, h.1.agrees.begin hp hk hidle (cells_none hk h.2)⟩

/-- The test of the stamp tells whether the memo point holds lanes. -/
theorem shadows_stampTest (hk : p.memoPoints[k]? = some m) :
    Shadows (Filed p busy)
      (fun outcome g l => Filed p busy g l ∧
        ((outcome = .next [.i32 0] ∧ g[(target p).stampGlobal k]? = g[Target.frameGlobal]?) ∨
          (outcome = .next [.i32 1] ∧ g[(target p).stampGlobal k]? ≠ g[Target.frameGlobal]?)))
      (instrs call' (stampTest (target p) k) [])
      (instrs call (stampTest (target p) k) []) := by
  intro t l h
  obtain ⟨c, hframe⟩ := h.stamped.frame
  obtain ⟨c', hstamp⟩ := h.stamped.stamp k m hk
  have hruns : ∀ {τ : Type} {run : Nat → List Lane → Exec τ (List Lane)} {t : Machine τ},
      t.globals[Target.frameGlobal]? = some (.i32 c) →
      t.globals[(target p).stampGlobal k]? = some (.i32 c') →
      Runs run (stampTest (target p) k) [] t [ofBool (c' != c)] t :=
    fun hframe hstamp =>
      runs_cons (runs_globalGet hstamp) (runs_cons (runs_globalGet hframe) (runs_numeric rfl))
  have hrun : instrs call _ [] t = _ := hruns hframe hstamp
  rw [hrun]
  refine ⟨l, hruns (t := t.beside l) hframe hstamp, h, ?_⟩
  rw [hframe, hstamp]
  by_cases heq : c' = c
  · subst heq
    rw [bne_self_eq_false]
    exact .inl ⟨rfl, rfl⟩
  · rw [bne_iff_ne.mpr heq]
    exact .inr ⟨rfl, fun h => heq (Lane.i32.inj (Option.some.inj h))⟩

/-- The function of a memo point leaves the lanes that the memo point holds. -/
theorem shadows_memoBody (hp : p.Shares) (hk : p.memoPoints[k]? = some m) (hidle : ¬busy k)
    (hmark : ∀ s, call' ((target p).markNumber memoMarks k) s =
      (do note (.computed m.source); return s))
    (hcode : Shadows (Filed p (fun j => j = k ∨ busy j))
      (Remains (Filed p (fun j => j = k ∨ busy j)) 0) (instrs call' code [])
      (instrs call code [])) :
    Shadows (Filed p busy)
      (fun outcome g l => ∃ stack, outcome = .next stack ∧ Left p busy k m stack g l)
      (instrs call' (stampTest (target p) k ++
        [.when ((target p).mark memoMarks k :: (code ++ stampCode (target p) k m))] ++
        (cacheGlobals (target p) k m).map .globalGet) [])
      (instrs call (stampTest (target p) k ++ [.when (code ++ stampCode (target p) k m)] ++
        (cacheGlobals (target p) k m).map .globalGet) []) := by
  have htested : Shadows (Filed p busy) (Continued p busy k)
      (instrs call' (stampTest (target p) k ++
        [.when ((target p).mark memoMarks k :: (code ++ stampCode (target p) k m))]) [])
      (instrs call (stampTest (target p) k ++ [.when (code ++ stampCode (target p) k m)]) []) := by
    rw [instrs_append_bind call', instrs_append_bind call]
    refine mirrors_bind (shadows_stampTest hk) fun outcome t l h => ?_
    obtain ⟨hfiled, ⟨rfl, hsame⟩ | ⟨rfl, hdiffer⟩⟩ := h
    · exact ⟨l, rfl, ⟨hfiled, hsame⟩, _, rfl⟩
    · rw [proceed, proceed, instrs_one, instrs_one]
      have hbody := shadows_compute hp hk hidle hmark hcode
      have hleave : ∀ outcome, Shadows (Continued p busy k outcome)
          (Continued p busy k)
          (pure (leave [] outcome) : Exec (World (σ × Ledger)) Outcome) (pure (leave [] outcome)) :=
        fun outcome => mirrors_pure fun _ _ ⟨hcurrent, s, hs⟩ => by
          subst hs
          exact ⟨hcurrent, _, rfl⟩
      exact mirrors_bind hbody hleave t l ⟨hfiled, hdiffer⟩
  rw [instrs_append_bind call', instrs_append_bind call]
  refine mirrors_bind htested fun outcome t l h => ?_
  obtain ⟨⟨hfiled, hsame⟩, s, rfl⟩ := h
  have hholds : Holds t.globals (cacheGlobals (target p) k m)
      ((cacheGlobals (target p) k m).map fun i => t.globals.getD i default) := by
    refine List.forall₂_map_right_iff.mpr (List.forall₂_same.mpr fun i hi => ?_)
    obtain ⟨hlt, hle⟩ := mem_cacheGlobals.mp hi
    have hbound := stampGlobal_lt_size hk (j := i - (target p).stampGlobal k) (by omega)
    rw [← hfiled.stamped.size] at hbound
    have hin : i < t.globals.size := by omega
    rw [Array.getD_eq_getD_getElem?, Array.getElem?_eq_getElem hin]
    rfl
  have hrun : instrs call _ s t = _ := runs_globalGets hholds
  rw [proceed, proceed, hrun]
  refine ⟨l, runs_globalGets (t := t.beside l) hholds, _, rfl, hfiled, _, _, rfl, ?_,
    cells_some hk hsame⟩
  rw [List.length_map, cacheGlobals, List.length_range']

section

variable {I : Array Lane → Ledger → Prop} {J : Outcome → Array Lane → Ledger → Prop}

/-- Two functions of one number whose bodies do the same. -/
theorem shadows_enter {c : Wasm.Module} (hc : Compiled p c) {host' : Wasm.Host (World (σ × Ledger))}
    {host : Wasm.Host (World σ)} {i : Nat} {fn' fn : Function}
    (hfn' : (watchedModule p c).functions[i]? = some fn') (hfn : c.functions.toList[i]? = some fn)
    (htype : fn'.type = fn.type) (hlocals : fn'.locals = fn.locals)
    (hbody : Shadows I J (instrs call' fn'.body []) (instrs call fn.body [])) (s : List Lane) :
    Shadows I (fun out g l => ∃ outs below, out = outs ++ below ∧ J (.next outs) g l)
      (enter (watchedModule p c) host' call' (Target.imports + i) s)
      (enter c host call (Target.imports + i) s) := by
  have himports : (watchedModule p c).imports = c.imports := rfl
  rw [Array.getElem?_toList] at hfn
  rw [← hc.imports_size]
  refine mirrors_mono (escorts_enter (I := fun t l => I t.globals l)
    (J := fun outcome t l => J outcome t.globals l) himports hfn' hfn htype hlocals
    (fun _ _ _ h => h)
    (fun _ _ _ _ h => h) s fun _ _ _ _ => mirrors_weaken (fun _ _ h => h.1) hbody)
    fun out t l h => ?_
  obtain ⟨_, outs, below, -, -, heq, hJ⟩ := h
  exact ⟨outs, below, heq, hJ⟩

theorem shadows_import {c : Wasm.Module} {host' : Wasm.Host (World (σ × Ledger))}
    {host : Wasm.Host (World σ)} {f : Nat} {i : ImportedFunction} (himport : c.imports[f]? = some i)
    (hbeside : ∀ lanes, World.Beside (host' f lanes) (host f lanes))
    (s : List Lane) :
    Shadows I (fun _ => I) (enter (watchedModule p c) host' call' f s) (enter c host call f s) := by
  have himports : (watchedModule p c).imports = c.imports := rfl
  exact escorts_import (I := fun t l => I t.globals l) himports himport s hbeside
    fun _ _ _ _ _ _ h => h

end

variable {c : Wasm.Module} {i : Nat} {fn : Function}

/-- The code of a memo point has a mark right after the test of the stamp. -/
theorem parallels_watchedMemo {reads : NodeId → Nat} (leads : NodeId → Nat) (hp : p.WellFormed)
    (hrank : p.Falls p.Reads reads) (k : MemoId) (m : MemoPoint) (l : Locals) :
    Parallels l ((watching (target p)).memoCode (target p) k m) (memoCode (target p) k m)
      fun _ body' body => ∃ code, Calls (Callable p reads leads (reads m.source.node) 0) 0 code ∧
        body' = stampTest (target p) k ++
          [.when ((target p).mark memoMarks k :: (code ++ stampCode (target p) k m))] ++
          (cacheGlobals (target p) k m).map .globalGet ∧
        body = stampTest (target p) k ++ [.when (code ++ stampCode (target p) k m)] ++
          (cacheGlobals (target p) k m).map .globalGet := by
  have hproduce : Writes 0 (produce p (p.nodes.size + 1) m.source)
      (Calls (Callable p reads leads (reads m.source.node) 0) 0) :=
    writes_produce hp hrank callsImports_callable.readers (fun _ _ hj hlt => .memo hj hlt)
      (Nat.le_refl _)
  rw [memoCode_eq, Instrumentation.memoCode, ofMemoPoints_watching.produce_eq]
  refine parallels_bind (P := fun _ a b => a = b ∧ Calls _ 0 b) (parallels_self fun code l' heq =>
    ⟨rfl, (hproduce l code l' (Nat.zero_le _) heq).2⟩) fun _ _ code h => ?_
  obtain ⟨rfl, hcode⟩ := h
  exact parallels_pure ⟨_, hcode, rfl, rfl⟩

/-- The functions without memo points are left as they are. -/
theorem watchedModule_other {type : FunctionType} {emit : Emit Code}
    (hfn : c.functions.toList[i]? = some fn) (hf : function type emit = .ok fn)
    (hcode : (watching (target p)).code (target p) i = some emit) :
    (watchedModule p c).functions[i]? = some fn := by
  rw [watchedModule, Instrumentation.getElem?_module hfn, Instrumentation.recode_self hf hcode]

theorem calledMemo?_memo (hk : p.memoPoints[k]? = some m) :
    calledMemo? p (Target.memoFunction k) = some m := by
  have hadd : Target.memoFunction k = Target.memoFunction 0 + k := rfl
  rw [calledMemo?, hadd, if_pos (Nat.le_add_right _ _), Nat.add_sub_cancel_left, hk]

theorem calledMemo?_other {f : Nat}
    (h : f < Target.memoFunction 0 ∨ Target.memoFunction p.memoPoints.length ≤ f) :
    calledMemo? p f = none := by
  unfold calledMemo?
  split
  · refine List.getElem?_eq_none ?_
    simp only [Target.memoFunction] at *
    omega
  · rfl

/-- A mark tells that the computation of its memo point begins. -/
theorem listen_mark (hk : p.memoPoints[k]? = some m) (s : List Lane) :
    listen p call' ((target p).markNumber memoMarks k) s =
      (do note (.computed m.source); return s) := by
  have hwrite : noteBeginning (σ := σ) p k = note (.computed m.source) := by
    unfold noteBeginning
    rw [hk]
  rw [← hwrite]
  exact heed_mark (T := beginnings p) k s

theorem listen_memo (hk : p.memoPoints[k]? = some m) (s : List Lane) :
    listen p call' (Target.memoFunction k) s = (do
      let stack ← call' (Target.memoFunction k) s
      note (.received m.source (.lanes (stack.take m.type.lanes.length).reverse))
      return stack) := by
  rw [listen, heed_lt ((target p).memoFunction_lt_firstMark hk), receive, calledMemo?_memo hk]

theorem listen_other {f : Nat} (hmark : f < (target p).firstMark)
    (hmemo : f < Target.memoFunction 0 ∨ Target.memoFunction p.memoPoints.length ≤ f)
    (s : List Lane) : listen p call' f s = call' f s := by
  rw [listen, heed_lt hmark, receive, calledMemo?_other hmemo]

variable {e : Engine σ} {reads leads : NodeId → Nat} {readBound leadBound : Nat}

/-- What the function of a memo point leaves is what its caller receives. -/
theorem shadows_listen_memo (hshares : p.Shares) (hk : p.memoPoints[k]? = some m) {s : List Lane}
    (h : Shadows (Filed p busy)
      (Left p busy k m) (call' (Target.memoFunction k) s) (call (Target.memoFunction k) s)) :
    Shadows (Filed p busy) (fun _ => Filed p busy)
      (listen p call' (Target.memoFunction k) s) (call (Target.memoFunction k) s) := by
  rw [listen_memo hk]
  refine mirrors_noted (fun _ => note_beside _) h fun out t l h => ?_
  obtain ⟨hfiled, lanes, below, rfl, hlen, hcell⟩ := h
  have htake : ((lanes.reverse ++ below).take m.type.lanes.length).reverse = lanes := by
    rw [← hlen, ← List.length_reverse, List.take_left, List.reverse_reverse]
  rw [htake]
  refine ⟨hfiled.stamped, hfiled.agrees.receive fun j m' hj hsource => ?_⟩
  rw [hshares.distinct j k m' m hj hk hsource]
  exact hcell

theorem listen_host {i : Import} (hi : i ∈ Import.table) (s : List Lane) :
    listen p call' i.index s = call' i.index s := by
  have hlt : i.index < Target.imports := List.idxOf_lt_length_iff.mpr hi
  refine listen_other ((target p).index_lt_firstMark i) (.inl ?_) s
  simp only [Target.memoFunction]
  omega

theorem listen_outlined {id : NodeId} (hi : (target p).outlined[i]? = some id) (s : List Lane) :
    listen p call' ((target p).outlinedFunction i) s = call' ((target p).outlinedFunction i) s := by
  refine listen_other ((target p).outlinedFunction_lt_firstMark hi) (.inr ?_) s
  simp only [Target.memoFunction, Target.outlinedFunction, target]
  omega

/-- The function of a memo point, if it can call what it is computed from. -/
theorem shadows_memo (leads : NodeId → Nat) (hp : p.WellFormed) (hshares : p.Shares)
    (hc : Compiled p c) (hrank : p.Falls p.Reads reads) (hk : p.memoPoints[k]? = some m)
    (hidle : ¬busy k)
    (hcalls : ∀ f, Callable p reads leads (reads m.source.node) 0 f → ∀ s,
      Shadows (Filed p fun j => j = k ∨ busy j) (fun _ => Filed p fun j => j = k ∨ busy j)
        (listen p call' f s) (call f s)) (s : List Lane) :
    Shadows (Filed p busy) (Left p busy k m)
      (enter (watchedModule p c) (Host.functions (e.beside Ledger) p) (listen p call')
        (Target.memoFunction k) s)
      (enter c (Host.functions e p) call (Target.memoFunction k) s) := by
  obtain ⟨fn, hfn, hcode⟩ := hc.functions.memo k m hk
  obtain ⟨body, -, heq, -, code, hconfined, rfl, hbody⟩ := Instrumentation.recode_eq hcode
    (Instrumentation.code_memo hk) (parallels_watchedMemo leads hp hrank k m _)
  have hfn' : (watchedModule p c).functions[2 + k]? = _ := Instrumentation.getElem?_module hfn
  rw [heq] at hfn'
  have hshadowed : Shadowed (limits (Callable p reads leads (reads m.source.node) 0) 0)
      (Filed p fun j => j = k ∨ busy j) (listen p call') call := ⟨hcalls, fun _ h => h.elim⟩
  have hbodies := shadows_memoBody hshares hk hidle (listen_mark hk)
    (shadows_instrs hshadowed (hconfined 0) [])
  rw [← hbody] at hbodies
  rw [Target.memoFunction, Nat.add_assoc]
  refine mirrors_mono (shadows_enter hc hfn' hfn rfl rfl hbodies s)
    fun out t l h => ?_
  obtain ⟨outs, below, rfl, _, heq, hfiled, lanes, below', rfl, hlen, hcell⟩ := h
  cases heq
  exact ⟨hfiled, lanes, below' ++ below, List.append_assoc _ _ _, hlen, hcell⟩

/-- An outlined statement, if it can call what it may start. -/
theorem shadows_outlined (hp : p.WellFormed) (hc : Compiled p c) (hrank : p.Falls p.Reads reads)
    (hrank' : p.Falls p.Leads leads) {id : NodeId} (hi : (target p).outlined[i]? = some id)
    (hcalls : ∀ f, Callable p reads leads p.nodes.size (leads id) f → ∀ s,
      Shadows (Filed p busy) (fun _ => Filed p busy) (listen p call' f s) (call f s))
    (s : List Lane) :
    Shadows (Filed p busy) (fun _ => Filed p busy)
      (enter (watchedModule p c) (Host.functions (e.beside Ledger) p) (listen p call')
        ((target p).outlinedFunction i) s)
      (enter c (Host.functions e p) call ((target p).outlinedFunction i) s) := by
  obtain ⟨fn, hfn, hcode⟩ := hc.functions.outlined i id hi
  have hconfined := body_of_writes hcode (writes_outlinedCode hp hrank hrank' id)
  have hshadowed : Shadowed (limits (Callable p reads leads p.nodes.size (leads id)) 0)
      (Filed p busy) (listen p call') call := ⟨hcalls, fun _ h => h.elim⟩
  have hbodies := shadows_instrs hshadowed (hconfined 0) []
  have hown := Instrumentation.code_outlined (A := watching (target p)) hi
  rw [ofMemoPoints_watching.own_eq] at hown
  have hother := watchedModule_other hfn hcode hown
  rw [Target.outlinedFunction, Nat.add_assoc, Nat.add_assoc, ← Nat.add_assoc 2]
  refine mirrors_mono (shadows_enter hc hother hfn rfl rfl hbodies s) fun out t l h => ?_
  obtain ⟨_, _, -, h⟩ := h
  exact h.1

/-! ## Calls within calls -/

/-- By induction on the depth: a call of a memo point that is not busy, or of an outlined statement
while none is busy. -/
theorem shadows_call (hp : p.WellFormed) (hshares : p.Shares) (hc : Compiled p c)
    (hrank : p.Falls p.Reads reads) (hrank' : p.Falls p.Leads leads) :
    ∀ (depth : Nat) {busy : MemoId → Prop} {readBound leadBound : Nat},
    (∀ (j : MemoId) (m : MemoPoint), busy j → p.memoPoints[j]? = some m →
      readBound ≤ reads m.source.node) →
    (0 < leadBound → ∀ j, ¬busy j) →
    ∀ f, Callable p reads leads readBound leadBound f → ∀ s,
    Shadows (Filed p busy) (fun _ => Filed p busy)
      (listen p (watchedInvoke e p c depth) f s) (invoke c (Host.functions e p) depth f s)
  | 0, busy, _, _, _, _, f, hf, s => by
    have hthrow : ∀ {J : List Lane → Array Lane → Ledger → Prop} f, Shadows (Filed p busy) J
        (watchedInvoke e p c 0 f s) (invoke c (Host.functions e p) 0 f s) :=
      fun _ => mirrors_throw fun _ _ _ => trivial
    cases hf with
    | host hi =>
      rw [listen_host hi]
      exact hthrow _
    | memo hk _ => exact shadows_listen_memo hshares hk (hthrow _)
    | outlined hi _ =>
      rw [listen_outlined hi]
      exact hthrow _
  | depth + 1, busy, readBound, leadBound, hbusy, hlead, f, hf, s => by
    cases hf with
    | @host i hi =>
      rw [listen_host hi]
      exact shadows_import (hc.getElem?_import hi) (Host.beside_functions e p _) s
    | @memo k m hk hlt =>
      have hidle : ¬busy k := fun h => Nat.not_le_of_lt hlt (hbusy k m h hk)
      refine shadows_listen_memo hshares hk
        (shadows_memo leads hp hshares hc hrank hk hidle (fun f hf s => ?_) s)
      refine shadows_call hp hshares hc hrank hrank' depth (fun j m' hj hjm => ?_)
        (fun h => absurd h (Nat.lt_irrefl 0)) f hf s
      rcases hj with rfl | hj
      · rw [hk] at hjm
        cases hjm
        exact Nat.le_refl _
      · exact Nat.le_trans (Nat.le_of_lt hlt) (hbusy j m' hj hjm)
    | @outlined i id hi hlt =>
      have hnone := hlead (Nat.lt_of_le_of_lt (Nat.zero_le _) hlt)
      rw [listen_outlined hi]
      refine shadows_outlined hp hc hrank hrank' hi (fun f hf s => ?_) s
      exact shadows_call hp hshares hc hrank hrank' depth (fun j _ hj => absurd hj (hnone j))
        (fun _ => hnone) f hf s

end Compiler
end SignalGraph
