import SignalGraph.Proofs.Emission.Functions
import SignalGraph.Proofs.Emission.HostTypes
import SignalGraph.Proofs.Emission.Validity
import SignalGraph.Proofs.Emulation.Calls
import SignalGraph.Proofs.Wasm.BoundedRuns

/-!
# Total calls

Every call of a compiled program returns.  Its module is well typed, so that it is never stuck; its
loops count, and its calls go to lower ranks.
-/

namespace SignalGraph
namespace Compiler

open Wasm Machine

variable {σ τ : Type} {p : Program} {c : Wasm.Module} {reads leads : NodeId → Nat}

/-- The limits of a function's body: loops count, and any global may be set. -/
def bodyLimits (calls : Nat → Prop) : Limits := ⟨calls, fun _ => True, fun _ => True, Counts⟩

theorem confined_body {calls : Nat → Prop} {lo labels : Nat} {code : Code}
    (h : Calls calls lo code) :
    confined (bodyLimits calls) labels code := by
  have hwithin : (limits calls lo).Within (bodyLimits calls) :=
    ⟨fun _ h => h, fun _ _ => trivial, fun _ _ => trivial, fun _ h => h⟩
  exact confined_mono hwithin (h labels)

/-- Code sets the globals of a memo point and reads them back. -/
theorem confined_memo {calls : Nat → Prop} {code : Code} (h : Calls calls 0 code) (k : MemoId)
    (m : MemoPoint) : confined (bodyLimits calls) 0 (stampTest (target p) k ++
      [.when (code ++ stampCode (target p) k m)] ++
        (cacheGlobals (target p) k m).map .globalGet) := by
  have hstamp : confined (bodyLimits calls) 1 (stampCode (target p) k m) :=
    confined_append.mpr ⟨confined_map fun _ _ => trivial, trivial, trivial, trivial⟩
  have htest : confined (bodyLimits calls) 0 (stampTest (target p) k) :=
    ⟨trivial, trivial, trivial, trivial⟩
  refine confined_append.mpr ⟨confined_append.mpr ⟨htest, ?_, trivial⟩,
    confined_map fun _ _ => trivial⟩
  exact confined_append.mpr ⟨confined_body h, hstamp⟩

theorem lasts_function (hc : Compiled p c) {host : Wasm.Host τ} {depth i : Nat} {fn : Function}
    (hfn : c.functions.toList[i]? = some fn) {calls : Nat → Prop}
    (hconfined : confined (bodyLimits calls) 0 fn.body)
    (hcalls : ∀ f, calls f → ∀ s, Lasts (invoke c host depth f s)) (s : List Lane) :
    Lasts (invoke c host (depth + 1) (Target.imports + i) s) := by
  have hget : c.functions[Target.imports + i - c.imports.size]? = some fn := by
    rw [hc.imports_size, Nat.add_sub_cancel_left, ← Array.getElem?_toList]
    exact hfn
  have hbody : Lasts (instrs (invoke c host depth) fn.body []) :=
    lasts_instrs (fun _ h => h) (invoke_keeps c host depth) hcalls hconfined []
  exact lasts_enter (hc.getElem?_imports_add i) hget hbody s

/-- By induction on the depth, which has room for all functions of lower rank. -/
theorem lasts_call (hp : p.WellFormed) (hc : Compiled p c) (hrank : p.Falls p.Reads reads)
    (hrank' : p.Falls p.Leads leads) (host : Wasm.Host τ) :
    ∀ (depth : Nat) {readBound leadBound : Nat},
      memoDepth p reads readBound + outlinedDepth p leads leadBound < depth →
      (0 < leadBound → readBound = p.nodes.size) →
      ∀ f, Callable p reads leads readBound leadBound f → ∀ s, Lasts (invoke c host depth f s)
  | depth + 1, readBound, leadBound, hdepth, hlead, f, hf, s => by
    cases hf with
    | @host i hi => exact lasts_import c host (hc.getElem?_import hi) s
    | @memo k m hk hlt =>
      have hfewer := memoDepth_lt hk hlt
      have hnone : outlinedDepth p leads 0 = 0 :=
        List.countP_eq_zero.mpr fun _ _ h => Nat.not_lt_zero _ (of_decide_eq_true h)
      obtain ⟨fn, hfn, hcode⟩ := hc.functions.memo k m hk
      obtain ⟨code, hbody, hconfined⟩ :=
        body_of_writes hcode (writes_memoCallable leads hp hrank k m)
      rw [Target.memoFunction, Nat.add_assoc]
      refine lasts_function hc hfn (hbody ▸ confined_memo hconfined k m) ?_ s
      exact lasts_call hp hc hrank hrank' host depth (by omega) fun h => absurd h (Nat.lt_irrefl 0)
    | @outlined i id hi hlt =>
      have hfewer := outlinedDepth_lt hi hlt
      have hreads := hlead (Nat.lt_of_le_of_lt (Nat.zero_le _) hlt)
      rw [hreads] at hdepth
      obtain ⟨fn, hfn, hcode⟩ := hc.functions.outlined i id hi
      have hconfined := body_of_writes hcode (writes_outlinedCode hp hrank hrank' id)
      rw [Target.outlinedFunction, Nat.add_assoc, Nat.add_assoc, ← Nat.add_assoc 2]
      refine lasts_function hc hfn (confined_body hconfined) ?_ s
      exact lasts_call hp hc hrank hrank' host depth (by omega) fun _ => rfl

/-- At a depth of one for each function there is room for all calls. -/
theorem lasts_calls (hp : p.WellFormed) (hc : Compiled p c) (hrank : p.Falls p.Reads reads)
    (hrank' : p.Falls p.Leads leads) (host : Wasm.Host τ) (f : Nat)
    (hf : Callable p reads leads p.nodes.size p.nodes.size f) (s : List Lane) :
    Lasts (invoke c host (c.functions.size + 1) f s) := by
  have hlen := hc.functions.length
  rw [Array.length_toList] at hlen
  have hmemos : memoDepth p reads p.nodes.size ≤ p.memoPoints.length := List.countP_le_length
  have houtlined : outlinedDepth p leads p.nodes.size ≤ (target p).outlined.length :=
    List.countP_le_length
  refine lasts_call hp hc hrank hrank' host _ ?_ (fun _ => rfl) f hf s
  rw [hlen]
  show _ < 2 + p.memoPoints.length + (target p).outlined.length + 1
  omega

theorem lasts_frame (hp : p.WellFormed) (hc : Compiled p c) (host : Wasm.Host τ) (s : List Lane) :
    Lasts (invoke c host (c.functions.size + 2) Target.frameFunction s) := by
  obtain ⟨reads, hrank⟩ := hp.reads
  obtain ⟨leads, hrank'⟩ := hp.leads
  obtain ⟨fn, hfn, hcode⟩ := hc.functions.frame
  obtain ⟨chains, hbody, hconfined⟩ := body_of_writes hcode (writes_frameCode hp hrank hrank')
  refine lasts_function hc hfn ?_ (lasts_calls hp hc hrank hrank' host) s
  rw [hbody]
  exact confined_append.mpr ⟨⟨trivial, trivial, trivial, trivial, trivial⟩, confined_body hconfined⟩

theorem lasts_late (hp : p.WellFormed) (hc : Compiled p c) (host : Wasm.Host τ) (s : List Lane) :
    Lasts (invoke c host (c.functions.size + 2) Target.lateFunction s) := by
  obtain ⟨reads, hrank⟩ := hp.reads
  obtain ⟨leads, hrank'⟩ := hp.leads
  obtain ⟨fn, hfn, hcode⟩ := hc.functions.late
  have hconfined := body_of_writes hcode (writes_lateCode hp hrank hrank')
  exact lasts_function hc hfn (confined_body hconfined) (lasts_calls hp hc hrank hrank' host) s

/-- Between calls, a machine has globals of the declared types, and no locals. -/
abbrev Settled (c : Wasm.Module) (t : Machine τ) : Prop := Typed (context c []) t

/-- A function that lasts returns lanes of its type. -/
theorem returns_invoke (hp : p.WellFormed) (hc : Compiled p c) (e : Engine σ) {depth f : Nat}
    {lanes : List Lane} {type : FunctionType} (htype : c.functionType? f = some type)
    (hlanes : lanes.map Lane.type = type.params)
    (hlasts : Lasts (invoke c (Host.functions e p) depth f lanes.reverse)) {t : Machine (World σ)}
    (ht : Settled c t) :
    ∃ outs t', invoke c (Host.functions e p) depth f lanes.reverse t = .ok outs t' ∧
      outs.map Lane.type = type.results.reverse ∧ Settled c t' := by
  have hsafe := safe_invoke (isValid_of_compiled hp hc) (safeHost_of_compiled hc e) depth
    (context c [])
    rfl rfl f type htype lanes.reverse [] (by rw [List.map_reverse, hlanes, List.append_nil]) t ht
  cases hrun : invoke c (Host.functions e p) depth f lanes.reverse t with
  | ok outs t' =>
    rw [hrun] at hsafe
    refine ⟨outs, t', rfl, ?_, hsafe.2⟩
    rw [hsafe.1, List.append_nil]
  | error trap t' =>
    rw [hrun] at hsafe
    subst hsafe
    exact absurd hrun (hlasts t t')

theorem returns_function (hp : p.WellFormed) (hc : Compiled p c) (e : Engine σ) {depth i : Nat}
    {f : Function} {type : FunctionType} {emit : Emit Code} (hf : c.functions.toList[i]? = some f)
    (hcode : function type emit = .ok f) (lanes : List Lane)
    (hlanes : lanes.map Lane.type = type.params)
    (hlasts : Lasts (invoke c (Host.functions e p) depth (Target.imports + i) lanes.reverse))
    {t : Machine (World σ)} (ht : Settled c t) : ∃ outs t',
      invoke c (Host.functions e p) depth (Target.imports + i) lanes.reverse t = .ok outs t' ∧
        Settled c t' := by
  obtain ⟨-, -, htype, -⟩ := function_eq_ok.mp hcode
  obtain ⟨outs, t', hrun, -, ht'⟩ := returns_invoke hp hc e (hc.functionType?_add hf)
    (by rw [htype, hlanes]) hlasts ht
  exact ⟨outs, t', hrun, ht'⟩

theorem returns_frame (hp : p.WellFormed) (hc : Compiled p c) (e : Engine σ) {t : Machine (World σ)}
    (ht : Settled c t) : ∃ outs t', invoke c (Host.functions e p) (c.functions.size + 2)
      Target.frameFunction [] t = .ok outs t' ∧ Settled c t' := by
  obtain ⟨f, hf, hcode⟩ := hc.functions.frame
  exact returns_function hp hc e hf hcode [] rfl (lasts_frame hp hc _ []) ht

theorem returns_late (hp : p.WellFormed) (hc : Compiled p c) (e : Engine σ) (task : Int32)
    {t : Machine (World σ)} (ht : Settled c t) :
    ∃ outs t', invoke c (Host.functions e p) (c.functions.size + 2) Target.lateFunction
      [.i32 task] t = .ok outs t' ∧ Settled c t' := by
  obtain ⟨f, hf, hcode⟩ := hc.functions.late
  exact returns_function hp hc e hf hcode [.i32 task] rfl (lasts_late hp hc _ [.i32 task]) ht

end Compiler
end SignalGraph
