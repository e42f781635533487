import SignalGraph.Proofs.Emission.Functions
import SignalGraph.Proofs.Instrumentation.Code
import SignalGraph.Proofs.Instrumentation.Instrumented
import SignalGraph.Proofs.Instrumentation.Marks
import SignalGraph.Proofs.Wasm.CodeRuns

/-!
# Watched code

Compiled code with a ledger.  A mark in the function of each memo point tells when its computation
begins, and whoever calls the function receives the lanes that it leaves.
-/

namespace SignalGraph

open Wasm Machine

variable {σ α : Type}

/-- A run with a ledger that does what the other run does.  What it keeps concerns the globals and
the ledger. -/
abbrev Shadows (I : Array Lane → Ledger → Prop) (J : α → Array Lane → Ledger → Prop)
    (run' : Exec (World (σ × Ledger)) α) (run : Exec (World σ) α) : Prop :=
  Mirrors Machine.beside (fun t l => I t.globals l) (fun a t l => J a t.globals l)
    (fun _ _ => True) run' run

/-- Functions and globals that code may call and set, whatever it is limited to. -/
structure Shadowed (c : Limits) (I : Array Lane → Ledger → Prop)
    (call' : Nat → List Lane → Exec (World (σ × Ledger)) (List Lane))
    (call : Nat → List Lane → Exec (World σ) (List Lane)) : Prop where
  calls : ∀ f, c.calls f → ∀ s, Shadows I (fun _ => I) (call' f s) (call f s)
  globals : ∀ i, c.globals i → ∀ lane g l, I g l → I (g.setIfInBounds i lane) l

theorem shadows_instrs {c : Limits} {I : Array Lane → Ledger → Prop}
    {call' : Nat → List Lane → Exec (World (σ × Ledger)) (List Lane)}
    {call : Nat → List Lane → Exec (World σ) (List Lane)} (hc : Shadowed c I call' call)
    {labels : Nat} {code : List Instr} (h : confined c labels code) (s : List Lane) :
    Shadows I (Remains I labels) (instrs call' code s) (instrs call code s) := by
  have hescorted : Escorted c (fun t l => I t.globals l) call' call :=
    ⟨hc.calls, fun i hi lane _ l h => hc.globals i hi lane _ l h, fun _ _ _ h => h⟩
  exact escorts_instrs hescorted h s

namespace Compiler

def memoMarks : Marks MemoId := ⟨fun k => k, fun k => k, fun _ => rfl⟩

/-- A mark in the function of each memo point where its computation begins. -/
def watching (x : Target) : Instrumentation where
  computing k _ := [x.mark memoMarks k]

theorem ofMemoPoints_watching {x : Target} : (watching x).OfMemoPoints :=
  ⟨⟨rfl, rfl, rfl⟩, fun _ _ => rfl, fun _ => rfl, fun _ => rfl⟩

def watchedModule (p : Program) (m : Wasm.Module) : Wasm.Module :=
  (watching (target p)).module (target p) m

def note (event : Event) : Exec (World (σ × Ledger)) Unit :=
  modify fun
    | ⟨host, globals, locals⟩ =>
      ⟨(World.ask (fun s => ((), (s.1, event :: s.2))) host).2, globals, locals⟩

def noteBeginning (p : Program) (k : MemoId) : Exec (World (σ × Ledger)) Unit :=
  match p.memoPoints[k]? with
  | some m => note (.computed m.source)
  | none => return

/-- A mark tells that the computation of its memo point begins. -/
def beginnings (p : Program) : Teller (World (σ × Ledger)) MemoId where
  toMarks := memoMarks
  write k _ := noteBeginning p k

/-- The memo point whose function has this number. -/
def calledMemo? (p : Program) (f : Nat) : Option MemoPoint :=
  if Target.memoFunction 0 ≤ f then p.memoPoints[f - Target.memoFunction 0]? else none

/-- Calls a function and notes what its caller receives, if it is that of a memo point. -/
def receive (p : Program) (call : Nat → List Lane → Exec (World (σ × Ledger)) (List Lane)) (f : Nat)
    (stack : List Lane) : Exec (World (σ × Ledger)) (List Lane) :=
  match calledMemo? p f with
  | some point => do
    let stack ← call f stack
    note (.received point.source (.lanes (stack.take point.type.lanes.length).reverse))
    return stack
  | none => call f stack

def listen (p : Program) (call : Nat → List Lane → Exec (World (σ × Ledger)) (List Lane)) :
    Nat → List Lane → Exec (World (σ × Ledger)) (List Lane) :=
  heed (target p) (beginnings p) (receive p call)

def watchedInvoke (e : Engine σ) (p : Program) (m : Wasm.Module) :
    (depth : Nat) → Nat → List Lane → Exec (World (σ × Ledger)) (List Lane) :=
  invokeWith (watchedModule p m) (Host.functions (e.beside Ledger) p) (listen p)

theorem note_beside (event : Event) (t : Machine (World σ)) (l : Ledger) :
    note event (t.beside l) = .ok () (t.beside (event :: l)) := rfl

/-- What a memo point holds in the current frame, as a reader receives it. -/
def cells (p : Program) (g : Array Lane) (k : MemoId) : Option Reading :=
  match p.memoPoints[k]? with
  | some m =>
    if g[(target p).stampGlobal k]? = g[Target.frameGlobal]? then
      some (.lanes ((cacheGlobals (target p) k m).map fun i => g.getD i default))
    else none
  | none => none

structure Stamped (p : Program) (g : Array Lane) : Prop where
  size : g.size = (globals p).length
  frame : ∃ c, g[Target.frameGlobal]? = some (.i32 c)
  stamp : ∀ (k : MemoId) (m : MemoPoint), p.memoPoints[k]? = some m →
    ∃ c, g[(target p).stampGlobal k]? = some (.i32 c)

structure Filed (p : Program) (busy : MemoId → Prop) (g : Array Lane) (l : Ledger) :
    Prop where
  stamped : Stamped p g
  agrees : l.Agrees p busy (cells p g)

variable {p : Program} {busy : MemoId → Prop} {g : Array Lane} {l : Ledger}
  {k : MemoId} {m : MemoPoint}

theorem cells_some (hk : p.memoPoints[k]? = some m)
    (h : g[(target p).stampGlobal k]? = g[Target.frameGlobal]?) :
    cells p g k = some (.lanes ((cacheGlobals (target p) k m).map fun i => g.getD i default)) := by
  unfold cells
  rw [hk]
  exact if_pos h

theorem cells_none (hk : p.memoPoints[k]? = some m)
    (h : g[(target p).stampGlobal k]? ≠ g[Target.frameGlobal]?) : cells p g k = none := by
  unfold cells
  rw [hk]
  exact if_neg h

theorem mem_cacheGlobals {i : Nat} : i ∈ cacheGlobals (target p) k m ↔
    (target p).stampGlobal k < i ∧ i ≤ (target p).stampGlobal k + m.type.lanes.length := by
  rw [cacheGlobals, List.mem_range'_1]
  omega

/-- Memo points do not share globals, their stamps included. -/
theorem global_ne {j : MemoId} {m' : MemoPoint} {i i' : Nat} (hk : p.memoPoints[k]? = some m)
    (hj : p.memoPoints[j]? = some m') (hne : j ≠ k) (hle : (target p).stampGlobal k ≤ i)
    (hge : i ≤ (target p).stampGlobal k + m.type.lanes.length)
    (hle' : (target p).stampGlobal j ≤ i')
    (hge' : i' ≤ (target p).stampGlobal j + m'.type.lanes.length) : i ≠ i' := by
  rcases Nat.lt_or_gt_of_ne hne with hlt | hgt
  · have := stampGlobal_lt (x := target p) hj hlt
    omega
  · have := stampGlobal_lt (x := target p) hk hgt
    omega

/-- What a memo point holds depends only on the frame and its own globals. -/
theorem cells_congr {g' : Array Lane} {j : MemoId}
    (hframe : g'[Target.frameGlobal]? = g[Target.frameGlobal]?)
    (hsame : ∀ (m' : MemoPoint) (i : Nat), p.memoPoints[j]? = some m' →
      (target p).stampGlobal j ≤ i → i ≤ (target p).stampGlobal j + m'.type.lanes.length →
      g'[i]? = g[i]?) : cells p g' j = cells p g j := by
  unfold cells
  cases hj : p.memoPoints[j]? with
  | none => rfl
  | some m' =>
    have hstamp := hsame m' _ hj (Nat.le_refl _) (Nat.le_add_right _ _)
    have hcache : (cacheGlobals (target p) j m').map (fun i => g'.getD i default) =
        (cacheGlobals (target p) j m').map fun i => g.getD i default := by
      refine List.map_congr_left fun i hi => ?_
      obtain ⟨hlt, hle⟩ := mem_cacheGlobals.mp hi
      rw [Array.getD_eq_getD_getElem?, Array.getD_eq_getD_getElem?,
        hsame m' i hj (Nat.le_of_lt hlt) hle]
    dsimp only
    rw [hstamp, hframe, hcache]

/-- Other memo points do not notice when a global of a memo point is set. -/
theorem cells_set {j : MemoId} {i : Nat} (hk : p.memoPoints[k]? = some m) (hne : j ≠ k)
    (hle : (target p).stampGlobal k ≤ i) (hge : i ≤ (target p).stampGlobal k + m.type.lanes.length)
    (lane : Lane) : cells p (g.setIfInBounds i lane) j = cells p g j := by
  have hpos : Target.frameGlobal < (target p).stampGlobal k := stampGlobal_pos k
  refine cells_congr (Array.getElem?_setIfInBounds_ne (Nat.ne_of_gt (Nat.lt_of_lt_of_le hpos hle)))
    fun m' i' hj hle' hge' => Array.getElem?_setIfInBounds_ne ?_
  exact global_ne hk hj hne hle hge hle' hge'

theorem stamped_store (h : Stamped p g) (hk : p.memoPoints[k]? = some m) {i : Nat}
    (hi : i ∈ cacheGlobals (target p) k m) (lane : Lane) : Stamped p (g.setIfInBounds i lane) := by
  obtain ⟨hlt, hle⟩ := mem_cacheGlobals.mp hi
  have hpos : Target.frameGlobal < (target p).stampGlobal k := stampGlobal_pos k
  refine ⟨Array.size_setIfInBounds.trans h.size, ?_, fun j m' hj => ?_⟩
  · rw [Array.getElem?_setIfInBounds_ne (Nat.ne_of_gt (Nat.lt_trans hpos hlt))]
    exact h.frame
  · rw [Array.getElem?_setIfInBounds_ne]
    · exact h.stamp j m' hj
    · by_cases hne : j = k
      · subst hne
        exact Nat.ne_of_gt hlt
      · exact global_ne hk hj hne (Nat.le_of_lt hlt) hle (Nat.le_refl _) (Nat.le_add_right _ _)

/-- Lanes can be stored for a memo point that is being computed. -/
theorem filed_store (h : Filed p busy g l) (hk : p.memoPoints[k]? = some m) (hbusy : busy k)
    {i : Nat} (hi : i ∈ cacheGlobals (target p) k m) (lane : Lane) :
    Filed p busy (g.setIfInBounds i lane) l := by
  obtain ⟨hlt, hle⟩ := mem_cacheGlobals.mp hi
  have hpos : Target.frameGlobal < (target p).stampGlobal k := stampGlobal_pos k
  have hcells : cells p (g.setIfInBounds i lane) = cells p g := by
    funext j
    by_cases hne : j = k
    · subst hne
      have hempty := h.agrees.empty j hbusy
      have hdiffer : g[(target p).stampGlobal j]? ≠ g[Target.frameGlobal]? := by
        intro heq
        rw [cells_some hk heq] at hempty
        cases hempty
      rw [hempty]
      refine cells_none hk ?_
      rw [Array.getElem?_setIfInBounds_ne (Nat.ne_of_gt hlt),
        Array.getElem?_setIfInBounds_ne (Nat.ne_of_gt (Nat.lt_trans hpos hlt))]
      exact hdiffer
    · exact cells_set hk hne (Nat.le_of_lt hlt) hle lane
  refine ⟨stamped_store h.stamped hk hi lane, ?_⟩
  rw [hcells]
  exact h.agrees

/-- The stamp of a memo point that has been computed tells its readers to take the lanes. -/
theorem filed_stamp (h : Filed p (fun j => j = k ∨ busy j) g l)
    (hk : p.memoPoints[k]? = some m) (hidle : ¬busy k) {lane : Lane}
    (hframe : g[Target.frameGlobal]? = some lane) :
    Filed p busy (g.setIfInBounds ((target p).stampGlobal k) lane) l ∧
      (g.setIfInBounds ((target p).stampGlobal k) lane)[(target p).stampGlobal k]? =
        (g.setIfInBounds ((target p).stampGlobal k) lane)[Target.frameGlobal]? := by
  have hpos : Target.frameGlobal < (target p).stampGlobal k := stampGlobal_pos k
  have hlt : (target p).stampGlobal k < g.size := by
    rw [h.stamped.size]
    exact stampGlobal_lt_size hk (j := 0) (by omega)
  have hstamp : (g.setIfInBounds ((target p).stampGlobal k) lane)[(target p).stampGlobal k]? =
      some lane := Array.getElem?_setIfInBounds_self_of_lt hlt
  have hframe' : (g.setIfInBounds ((target p).stampGlobal k) lane)[Target.frameGlobal]? =
      some lane := by
    rw [Array.getElem?_setIfInBounds_ne (Nat.ne_of_gt hpos)]
    exact hframe
  obtain ⟨c, hc⟩ := h.stamped.frame
  rw [hframe] at hc
  cases hc
  refine ⟨⟨⟨Array.size_setIfInBounds.trans h.stamped.size, ⟨c, hframe'⟩, fun j m' hj => ?_⟩, ?_⟩,
    hstamp.trans hframe'.symm⟩
  · by_cases hne : j = k
    · subst hne
      exact ⟨c, hstamp⟩
    · rw [Array.getElem?_setIfInBounds_ne]
      · exact h.stamped.stamp j m' hj
      · exact global_ne hk hj hne (Nat.le_refl _) (Nat.le_add_right _ _) (Nat.le_refl _)
          (Nat.le_add_right _ _)
  · exact h.agrees.finish hidle (cells_some hk (hstamp.trans hframe'.symm)) fun j hne =>
      cells_set hk hne (Nat.le_refl _) (Nat.le_add_right _ _) _

end Compiler
end SignalGraph
