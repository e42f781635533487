import SignalGraph.Proofs.Instrumentation.Chronicle.Functions

namespace SignalGraph
namespace Compiler

open Wasm Machine Chronicle

variable {σ : Type} {e : Engine σ} {p : Program} {c : Wasm.Module} {frames : Nat}
  {leads : NodeId → Nat}
  {call' : Nat → List Lane → Exec (World (σ × Chronicle)) (List Lane)}
  {call : Nat → List Lane → Exec (World σ) (List Lane)}

section

variable {I : Machine (World σ) → Chronicle → Prop}
  {J : Outcome → Machine (World σ) → Chronicle → Prop}

/-- A function with marks does what the function without them does if their codes do. -/
theorem escorts_told {i : Nat} {fn : Function} {type : FunctionType} {emit' emit : Emit Code}
    {R : Code → Code → Prop} (hc : Compiled p c) (hfn : c.functions.toList[i]? = some fn)
    (hcode : function type emit = .ok fn)
    (htold : (telling (target p)).code (target p) i = some emit')
    (hpairs : Pairs emit' emit R) (hI : IgnoresLocals I) (hJ : ∀ outcome, IgnoresLocals (J outcome))
    (s : List Lane)
    (hbody : ∀ body, R body fn.body → ∀ lanes below, s = lanes.reverse ++ below →
      lanes.length = type.params.length →
      Escorts (fun t l => I t l ∧ t.locals = (lanes ++ fn.locals.map LaneType.zero).toArray) J
        (instrs call' body []) (instrs call fn.body [])) :
    Escorts I (fun out t l => ∃ lanes outs below : List Lane, s = lanes.reverse ++ below ∧
        lanes.length = type.params.length ∧ out = outs ++ below ∧ J (.next outs) t l)
      (enter (toldModule p c) (Host.functions (e.recording Deed.ofRequest) p) call'
        (Target.imports + i) s)
      (enter c (Host.functions e p) call (Target.imports + i) s) := by
  obtain ⟨body, _, heq, -, hR⟩ := Instrumentation.recode_eq hcode htold (hpairs _)
  obtain ⟨l, -, htype, -⟩ := function_eq_ok.mp hcode
  have hfn' : (toldModule p c).functions[i]? = _ := Instrumentation.getElem?_module hfn
  rw [heq] at hfn'
  rw [Array.getElem?_toList] at hfn
  have himports : (toldModule p c).imports = c.imports := rfl
  rw [← hc.imports_size, ← htype]
  rw [← htype] at hbody
  exact escorts_enter himports hfn' hfn rfl rfl hI hJ s fun lanes below => hbody body hR lanes below

end

theorem hosts_enter (hc : Compiled p c) :
    Hosts e p
      (heed (target p) deeds
        (enter (toldModule p c) (Host.functions (e.recording Deed.ofRequest) p) call'))
      (enter c (Host.functions e p) call) := by
  intro i hi I K s h
  have himports : (toldModule p c).imports = c.imports := rfl
  rw [heed_lt ((target p).index_lt_firstMark _)]
  refine SignalGraph.escorts_host himports (hc.getElem?_import hi) s
    fun lanes below hs hlen t l hI => ?_
  rw [functions_eq (e.recording Deed.ofRequest) hi, functions_eq e hi]
  exact h lanes below hs hlen t l hI

theorem ignoresLocals_supplies {k : MemoId} {m : MemoPoint} {h₀ : Holdings} {l₀ : Chronicle}
    {s stack : List Lane} : IgnoresLocals (σ := σ) (Supplies p frames k m h₀ l₀ s stack) :=
  fun t locals l ⟨lanes, heq, hlen, hsince, hcell⟩ =>
    ⟨lanes, heq, hlen, ignoresLocals_since t locals l hsince, hcell⟩

variable (hp : p.WellFormed) (hfit : p.Addressable) (hc : Compiled p c)
  (howns : ∀ id n, p.nodes[id]? = some n → p.Owns id n)

include hp hfit hc in
theorem escorts_toldMemo (h : Tends e p c frames call' call) {k : MemoId} {m : MemoPoint}
    (hk : p.memoPoints[k]? = some m) (h₀ : Holdings) (l₀ : Chronicle) (s : List Lane) :
    Escorts (Since p frames h₀ l₀ .stay) (Supplies p frames k m h₀ l₀ s)
      (enter (toldModule p c) (Host.functions (e.recording Deed.ofRequest) p) call'
        (Target.memoFunction k) s)
      (enter c (Host.functions e p) call (Target.memoFunction k) s) := by
  obtain ⟨reads, hrank⟩ := hp.reads
  obtain ⟨fn, hfn, hcode⟩ := hc.functions.memo k m hk
  obtain ⟨n, hget, -, hout⟩ := hp.memoPoints m (List.mem_of_getElem? hk)
  have hlt := hrank.bounded _ (Array.getElem?_eq_some_iff.mp hget).1
  have hpairs : Pairs ((telling (target p)).memoCode (target p) k m) (memoCode (target p) k m)
      fun body' body =>
      Escorts (Since p frames h₀ l₀ .stay)
        (fun outcome t l => ∃ stack, outcome = .next stack ∧
          Supplies p frames k m h₀ l₀ [] stack t l)
        (instrs call' body' []) (instrs call body []) := by
    rw [memoCode_eq]
    refine pairs_bind
      (pairs_toldProduce hp hfit.vars hc h hrank ⟨n, hget, hout⟩ (Nat.lt_succ_of_lt hlt))
      fun code' code hrenders => pairs_pure ?_
    exact escorts_memoBody h hk hrenders
  have hignores : ∀ outcome : Outcome, IgnoresLocals (σ := σ) fun t l =>
      ∃ stack, outcome = .next stack ∧ Supplies p frames k m h₀ l₀ [] stack t l := by
    rintro outcome t locals l ⟨stack, heq, hs⟩
    exact ⟨stack, heq, ignoresLocals_supplies t locals l hs⟩
  rw [Target.memoFunction, Nat.add_assoc]
  refine mirrors_mono
    (escorts_told hc hfn hcode (Instrumentation.code_memo hk) hpairs ignoresLocals_since hignores s
    fun body hbody _ _ _ _ => mirrors_weaken (fun _ _ h => h.1) hbody) fun out t l hout => ?_
  obtain ⟨args, outs, below, rfl, hargs, rfl, stack, heq, lanes, rfl, hsupplies⟩ := hout
  cases List.length_eq_zero_iff.mp hargs
  cases heq
  exact ⟨lanes, by rw [List.append_nil, List.reverse_nil, List.nil_append], hsupplies⟩

theorem recounts_call {f : Nat} {T : Tale} (h : ∀ h₀ l₀ s, Escorts (Since p frames h₀ l₀ .stay)
    (fun _ => Since p frames h₀ l₀ T) (call' f s) (call f s)) :
    Recounts p frames call' call T [.call f] [.call f] := by
  intro s h₀ l₀
  rw [instrs_one, instrs_one]
  exact mirrors_bind (h h₀ l₀ s) fun outs => mirrors_pure
    fun t l => since_mono fun _ _ _ hT => ⟨⟨_, rfl⟩, hT⟩

include hp hfit hc howns in
theorem recounts_outlined (h : Tends e p c frames (heed (target p) deeds call') call)
    (hrank : p.Falls p.Leads leads) {i : Nat} {id : NodeId} (hi : (target p).outlined[i]? = some id)
    (houtlines : Outlines p frames leads (leads id) (heed (target p) deeds call') call) :
    Recounts p frames
      (heed (target p) deeds (enter (toldModule p c) (Host.functions (e.recording Deed.ofRequest) p)
        (heed (target p) deeds call')))
      (enter c (Host.functions e p) call) (Ran p [id]) [.call ((target p).outlinedFunction i)]
      [.call ((target p).outlinedFunction i)] := by
  refine recounts_call fun h₀ l₀ s => ?_
  obtain ⟨fn, hfn, hcode⟩ := hc.functions.outlined i id hi
  rw [heed_lt ((target p).outlinedFunction_lt_firstMark hi), Target.outlinedFunction,
    Nat.add_assoc, Nat.add_assoc, ← Nat.add_assoc 2]
  refine mirrors_mono (escorts_told hc hfn hcode (Instrumentation.code_outlined hi)
    (pairs_toldOutlined hp hfit hc howns h hrank houtlines) ignoresLocals_since
    (fun _ => ignoresLocals_since) s fun body hbody _ _ _ _ => mirrors_weaken (fun _ _ h => h.1)
      (hbody [] h₀ l₀)) fun out t l hout => ?_
  obtain ⟨_, _, _, -, -, -, hsince⟩ := hout
  exact since_mono (fun _ _ _ hT => hT.2) hsince

include hp hfit hc howns in
/-- By induction on the depth. -/
theorem tends_invoke (hrank : p.Falls p.Leads leads) : ∀ depth : Nat,
    Tends e p c frames (heed (target p) deeds (toldInvoke e p c depth))
      (invoke c (Host.functions e p) depth) ∧
      ∀ bound, Outlines p frames leads bound (heed (target p) deeds (toldInvoke e p c depth))
        (invoke c (Host.functions e p) depth)
  | 0 => by
    have hthrow : ∀ {I : Machine (World σ) → Chronicle → Prop}
        {K : List Lane → Machine (World σ) → Chronicle → Prop} (f : Nat) (s : List Lane),
        Escorts I K (toldInvoke e p c 0 f s) (invoke c (Host.functions e p) 0 f s) :=
      fun _ _ => mirrors_throw fun _ _ _ => trivial
    refine ⟨⟨fun i hi I K s _ => ?_,
      heights_invoke (isValid_of_compiled hp hc) (hostHeights_of_compiled hc e) 0,
      heed_mark, fun k m hk h₀ l₀ s => ?_⟩,
      fun bound i id hi _ => recounts_call fun h₀ l₀ s => ?_⟩
    · rw [heed_lt ((target p).index_lt_firstMark _)]
      exact hthrow _ s
    · rw [heed_lt ((target p).memoFunction_lt_firstMark hk)]
      exact hthrow _ s
    · rw [heed_lt ((target p).outlinedFunction_lt_firstMark hi)]
      exact hthrow _ s
  | depth + 1 => by
    obtain ⟨h, houtlines⟩ := tends_invoke hrank depth
    have hheights :=
      heights_enter (isValid_of_compiled hp hc) (hostHeights_of_compiled hc e) h.heights
    refine ⟨⟨hosts_enter hc, hheights, heed_mark, fun k m hk h₀ l₀ s => ?_⟩,
      fun bound i id hi _ =>
      recounts_outlined hp hfit hc howns h hrank hi (houtlines _)⟩
    rw [heed_lt ((target p).memoFunction_lt_firstMark hk)]
    exact escorts_toldMemo hp hfit hc h hk h₀ l₀ s

theorem ignoresLocals_begun {h₀ : Holdings} {l₀ : Chronicle} :
    IgnoresLocals (σ := σ) (Begun p frames h₀ l₀) := fun _ _ _ h => h

section

include hp hfit hc howns

theorem escorts_toldFrame (depth : Nat) (h₀ : Holdings) (l₀ : Chronicle) :
    Escorts (Begun p frames h₀ l₀) (fun _ => Since p (frames + 1) h₀ l₀ (Ran p p.entryPoints))
      (toldInvoke e p c (depth + 1) Target.frameFunction [])
      (invoke c (Host.functions e p) (depth + 1) Target.frameFunction []) := by
  obtain ⟨leads, hrank⟩ := hp.leads
  obtain ⟨fn, hfn, hcode⟩ := hc.functions.frame
  have htends : Tends e p c (frames + 1) (heed (target p) deeds (toldInvoke e p c depth))
      (invoke c (Host.functions e p) depth) ∧ _ := tends_invoke hp hfit hc howns hrank depth
  obtain ⟨h, houtlines⟩ := htends
  refine mirrors_mono (escorts_told hc hfn hcode rfl
    (pairs_toldFrame hp hfit hc howns h hrank (houtlines _)) ignoresLocals_begun
    (fun _ => ignoresLocals_since) [] fun body hbody _ _ _ _ => mirrors_weaken (fun _ _ h => h.1)
      (hbody h₀ l₀ [])) fun out t l hout => ?_
  obtain ⟨_, _, _, -, -, -, hsince⟩ := hout
  exact since_mono (fun _ _ _ hT => hT.2) hsince

/-- A call with the number of a late node runs its body. -/
theorem escorts_toldLate (depth : Nat) {task : NodeId} (htask : task ∈ p.lateNodes) (h₀ : Holdings)
    (l₀ : Chronicle) :
    Escorts (Since p frames h₀ l₀ .stay) (fun _ => Since p frames h₀ l₀ (p.LateBody task))
      (toldInvoke e p c (depth + 1) Target.lateFunction [.i32 (Int32.ofNat task)])
      (invoke c (Host.functions e p) (depth + 1) Target.lateFunction
        [.i32 (Int32.ofNat task)]) := by
  obtain ⟨reads, hreads⟩ := hp.reads
  obtain ⟨leads, hrank⟩ := hp.leads
  obtain ⟨fn, hfn, hcode⟩ := hc.functions.late
  have htends : Tends e p c frames (heed (target p) deeds (toldInvoke e p c depth))
      (invoke c (Host.functions e p) depth) ∧ _ := tends_invoke hp hfit hc howns hrank depth
  obtain ⟨h, houtlines⟩ := htends
  obtain ⟨n, hget, -⟩ := Program.mem_lateNodes.mp htask
  have hlt : task < 4294967296 :=
    Nat.lt_of_lt_of_le (Array.getElem?_eq_some_iff.mp hget).1 hfit.nodes
  have hspares : confined (sparing 1) 0 fn.body := by
    have hwithin : (limits (Callable p reads leads p.nodes.size p.nodes.size) 1).Within
      (sparing 1) :=
      ⟨fun _ _ => trivial, fun _ _ => trivial, fun _ h => h, fun _ _ => trivial⟩
    exact confined_mono hwithin (body_of_writes_past hcode (Nat.le_refl 1)
      (writes_lateCode hp hreads hrank) 0)
  refine mirrors_mono (escorts_told hc hfn hcode rfl
    (pairs_toldLate hp hfit hc howns h hrank (houtlines _) (invoke_keeps c _ depth))
    ignoresLocals_since
    (J := fun outcome => Since p frames h₀ l₀ (Ending (p.LateBody task) outcome))
    (fun _ => ignoresLocals_since) [.i32 (Int32.ofNat task)]
    fun body hbody lanes below hs hlen => ?_)
    fun out t l hout => ?_
  · have hdispatch := hbody (nodup_lateNodes p) hspares task hlt [] h₀ l₀
    rw [if_pos htask] at hdispatch
    refine mirrors_weaken (fun t l ⟨⟨htale, hB⟩, hlocals⟩ => ⟨htale, hB, ?_⟩)
      (mirrors_mono hdispatch fun _ _ _ ⟨htale, hB⟩ => ⟨htale, hB.1⟩)
    obtain ⟨lane, rfl⟩ := List.length_eq_one_iff.mp hlen
    cases hs
    rw [hlocals]
    rfl
  · obtain ⟨_, _, _, -, -, -, hsince⟩ := hout
    exact since_mono (fun _ _ _ hT => hT.2) hsince

end

end Compiler
end SignalGraph
