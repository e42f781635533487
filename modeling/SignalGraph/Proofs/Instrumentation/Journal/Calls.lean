import SignalGraph.Proofs.Instrumentation.Chronicle.Basic
import SignalGraph.Proofs.Instrumentation.Journal.Chains

/-!
# Traced calls

The functions of a compiled program with marks do what those without them do, and by the journal no
slot changes but by its owner.
-/

namespace SignalGraph

open Wasm Machine

variable {σ α β : Type}

namespace Host

def Spares (f : StateM (World σ) α) : Prop := ∀ w, (f w).2.holdings = w.holdings

theorem spares_ask (action : StateM σ α) : Spares (World.ask action) := fun _ => rfl

theorem spares_pure (a : α) : Spares (pure a : StateM (World σ) α) := fun _ => rfl

theorem spares_bind {x : StateM (World σ) α} {f : α → StateM (World σ) β} (hx : Spares x)
    (hf : ∀ a, Spares (f a)) : Spares (x >>= f) := fun w =>
  (hf (x w).1 (x w).2).trans (hx w)

theorem spares_menuItem (e : Engine σ) (p : Program) (node var index picture : Int32) :
    Spares (menuItem e p node var index picture) := by
  unfold menuItem
  split
  · exact spares_ask _
  · exact spares_pure ()

theorem spares_inspect (e : Engine σ) (p : Program) (f : Format) (node : Int32)
    (lanes : List Lane) :
    Spares (inspect e p f node lanes) := by
  unfold inspect
  split
  · exact spares_pure ()
  · split
    · exact spares_ask _
    · exact spares_pure ()

/-- Few imported functions change what the program holds. -/
theorem spares_run (e : Engine σ) (p : Program) {i : Import}
    (hi : i.changes = false ∨ i = .menuItem)
    (lanes : List Lane) : Spares (run e p i lanes) := by
  unfold run
  split
  case h_1 effect =>
    refine spares_bind (spares_ask _) fun kept => ?_
    cases kept <;> exact spares_pure _
  case h_2 q => exact spares_bind (spares_ask _) fun _ => spares_pure _
  case h_4 => exact spares_bind (spares_menuItem e p _ _ _ _) fun _ => spares_pure _
  case h_9 => exact spares_bind (spares_inspect e p _ _ _) fun _ => spares_pure _
  case h_13 | h_15 | h_18 => rcases hi with hi | hi <;> cases hi
  all_goals exact fun _ => rfl

theorem slots_writeVariable (p : Program) (f : Format) (var index : Int32) (lanes : List Lane)
    (w : World σ) : (writeVariable p f var index lanes w).slots = w.slots := by
  unfold writeVariable
  split <;> rfl

/-- The host sets a slot only where it is asked to. -/
theorem slots_run (e : Engine σ) (p : Program) {i : Import} (hi : ∀ f, i ≠ .setSlot f)
    (lanes : List Lane) (w : World σ) : (run e p i lanes w).2.slots = w.slots := by
  have hspares : i.changes = false ∨ i = .menuItem → (run e p i lanes w).2.slots = w.slots :=
    fun h => congrArg (fun held : Holdings => held.slots) (spares_run e p h lanes w)
  cases i with
  | setSlot f => exact absurd rfl (hi f)
  | setVariable f =>
    rcases lanes with _ | ⟨var, _ | ⟨index, lanes⟩⟩
    · rfl
    · rfl
    · exact slots_writeVariable p f _ _ _ w
  | deferLate => rcases lanes with _ | ⟨_, _ | ⟨_, _⟩⟩ <;> rfl
  | menuItem => exact hspares (.inr rfl)
  | _ => exact hspares (.inl rfl)

end Host

namespace Compiler

open Journal

variable {p : Program} {c : Wasm.Module} {e : Engine σ} {first : SlotStore} {leads : NodeId → Nat}
  {call' : Nat → List Lane → Exec (World (σ × Journal)) (List Lane)}
  {call : Nat → List Lane → Exec (World σ) (List Lane)}

/-- A function with marks does what the function without them does if their codes do. -/
theorem escorts_function {i : Nat} {fn : Function} {type : FunctionType} {emit' emit : Emit Code}
    (hc : Compiled p c) (hfn : c.functions.toList[i]? = some fn)
    (hcode : function type emit = .ok fn)
    (htraced : (tracing (target p)).code (target p) i = some emit')
    (hpairs : Pairs emit' emit (Balances p first (heed (target p) phases call') call))
    (running : List NodeId) (s : List Lane) :
    Escorts (OnSlots (Keeps p first running none)) (fun _ => OnSlots (Keeps p first running none))
      (enter (tracedModule p c) (Host.functions (e.beside Journal) p) (heed (target p) phases call')
        (Target.imports + i) s)
      (enter c (Host.functions e p) call (Target.imports + i) s) := by
  obtain ⟨body, l, heq, -, hbody⟩ := Instrumentation.recode_eq hcode htraced (hpairs _)
  have hfn' : (tracedModule p c).functions[i]? = _ := Instrumentation.getElem?_module hfn
  rw [heq] at hfn'
  rw [Array.getElem?_toList] at hfn
  have himports : (tracedModule p c).imports = c.imports := rfl
  rw [← hc.imports_size]
  refine mirrors_mono (escorts_enter himports hfn' hfn rfl rfl (fun _ _ _ h => h)
    (fun _ _ _ _ h => h) s fun _ _ _ _ => mirrors_weaken (fun _ _ h => h.1) (hbody running []))
    fun out t l h => ?_
  obtain ⟨_, _, _, -, -, -, h⟩ := h
  exact h.1

section

variable {P : SlotStore → Journal → Prop}

theorem escorts_host (hc : Compiled p c) {i : Import} (hi : i ∈ Import.table)
    (hset : ∀ f, i ≠ .setSlot f) (s : List Lane) :
    Escorts (OnSlots P) (fun _ => OnSlots P)
      (enter (tracedModule p c) (Host.functions (e.beside Journal) p) call' i.index s)
      (enter c (Host.functions e p) call i.index s) := by
  have himports : (tracedModule p c).imports = c.imports := rfl
  refine escorts_import himports (hc.getElem?_import hi) s (Host.beside_functions e p _)
    fun lanes below _ _ t l h => ?_
  show P (Host.functions e p i.index lanes t.host).2.slots l
  rw [functions_eq e hi, Host.slots_run e p hset]
  exact h

/-- The function that sets a slot finds its number right below the lanes. -/
theorem escorts_setSlot (hc : Compiled p c) {f : Format} (hf : f ≠ .rot) {slot : SlotId}
    (hslot : slot < 4294967296) (hP : ∀ v slots l, P slots l → P (slots.set slot v) l)
    {below s : List Lane} (hs : Piled (.i32 (Int32.ofNat slot) :: below) f.lanes.length s) :
    Escorts (OnSlots P) (fun _ => OnSlots P)
      (enter (tracedModule p c) (Host.functions (e.beside Journal) p) call'
        (Import.setSlot f).index s)
      (enter c (Host.functions e p) call (Import.setSlot f).index s) := by
  have hi : Import.setSlot f ∈ Import.table :=
    mem_table (fun heq => by cases heq) fun heq => hf (Import.setSlot.inj heq)
  have himports : (tracedModule p c).imports = c.imports := rfl
  refine escorts_import himports (hc.getElem?_import hi) _ (Host.beside_functions e p _)
    fun lanes below' heq hcount t l h => ?_
  obtain ⟨rest, rfl, -⟩ := hs.lanes heq hcount
  rw [functions_eq e hi]
  show P (Host.writeSlot p f (Int32.ofNat slot) rest t.host).slots l
  unfold Host.writeSlot
  rw [toNat_ofNat hslot]
  exact hP _ _ _ h

end

/-- The function of a memo point runs no statement. -/
theorem escorts_memo (hp : p.WellFormed) (hc : Compiled p c)
    (hspares : Spares (L := Journal) (Harmless p) (heed (target p) phases call') call) {k : MemoId}
    {m : MemoPoint} (hk : p.memoPoints[k]? = some m) (P : SlotStore → Journal → Prop)
    (s : List Lane) :
    Escorts (OnSlots P) (fun _ => OnSlots P)
      (enter (tracedModule p c) (Host.functions (e.beside Journal) p) (heed (target p) phases call')
        (Target.memoFunction k) s)
      (enter c (Host.functions e p) call (Target.memoFunction k) s) := by
  obtain ⟨reads, hrank⟩ := hp.reads
  obtain ⟨fn, hfn, hcode⟩ := hc.functions.memo k m hk
  obtain ⟨code, hbody, hconfined⟩ := body_of_writes hcode
    (writes_memoCode hp hrank callsReaders_harmless k m fun _ _ hj _ => .memo hj)
  have hbodies : Tracks (heed (target p) phases call') call 0 (OnSlots P) (OnSlots P)
      fn.body fn.body := by
    rw [hbody]
    exact tracks_confined (hspares.serves P) (fun _ h => h) (fun _ _ _ _ _ h => h)
      (confined_memo hconfined k m)
  have himports : (tracedModule p c).imports = c.imports := rfl
  have hfn' : (tracedModule p c).functions[2 + k]? = _ := Instrumentation.getElem?_module hfn
  rw [plain_tracing.recode_memo hk rfl rfl hcode] at hfn'
  rw [Array.getElem?_toList] at hfn
  rw [Target.memoFunction, Nat.add_assoc, ← hc.imports_size]
  refine mirrors_mono (escorts_enter himports hfn' hfn rfl rfl (fun _ _ _ h => h)
    (fun _ _ _ _ h => h) s fun _ _ _ _ => mirrors_weaken (fun _ _ h => h.1) (hbodies []))
    fun out t l h => ?_
  obtain ⟨_, _, _, -, -, -, h⟩ := h
  exact h.1

variable (hp : p.WellFormed) (hc : Compiled p c) (hfit : p.slots.length ≤ 4294967296)
  (howns : ∀ id n, p.nodes[id]? = some n → p.Owns id n)

theorem balances_call {f : Nat} (h : ∀ running s, Escorts (OnSlots (Keeps p first running none))
    (fun _ => OnSlots (Keeps p first running none)) (call' f s) (call f s)) :
    Balances p first call' call [.call f] [.call f] := by
  intro running s
  rw [instrs_one, instrs_one]
  exact mirrors_bind (h running s) fun outs => escorts_next outs

include hp hc hfit howns

theorem attends_enter (hrank : p.Falls p.Leads leads)
    (h : ∀ bound, Attends p c first leads bound (heed (target p) phases call') call) (bound : Nat) :
    Attends p c first leads bound
      (heed (target p) phases (enter (tracedModule p c) (Host.functions (e.beside Journal) p)
        (heed (target p) phases call')))
      (enter c (Host.functions e p) call) := by
  have hheights := heights_enter (isValid_of_compiled hp hc) (hostHeights_of_compiled hc e)
    (h bound).heights
  refine ⟨⟨fun f hf P s => ?_, fun f hf P slot hslot hP below s hs => ?_, fun i hi => ?_⟩, hheights,
    heed_mark, fun i id hi _ => balances_call fun running s => ?_⟩
  · cases hf with
    | host hi hset =>
      rw [heed_lt ((target p).index_lt_firstMark _)]
      exact escorts_host hc hi hset s
    | memo hk =>
      rw [heed_lt ((target p).memoFunction_lt_firstMark hk)]
      exact escorts_memo hp hc (h bound).spares hk P s
  · have hi : Import.setSlot f ∈ Import.table :=
      mem_table (fun heq => by cases heq) fun heq => hf (Import.setSlot.inj heq)
    rw [heed_lt ((target p).index_lt_firstMark _)]
    exact escorts_setSlot hc hf hslot hP hs
  · exact hheights _ _ (hc.functionType?_import hi)
  · obtain ⟨fn, hfn, hcode⟩ := hc.functions.outlined i id hi
    rw [heed_lt ((target p).outlinedFunction_lt_firstMark hi), Target.outlinedFunction,
      Nat.add_assoc,
      Nat.add_assoc, ← Nat.add_assoc 2]
    exact escorts_function hc hfn hcode (Instrumentation.code_outlined hi)
      (pairs_tracedOutlined hp hc hfit howns hrank (h (leads id))) running s

/-- By induction on the depth. -/
theorem attends_invoke (hrank : p.Falls p.Leads leads) : ∀ (depth bound : Nat),
    Attends p c first leads bound (heed (target p) phases (tracedInvoke e p c depth))
      (invoke c (Host.functions e p) depth)
  | 0, bound => by
    have hthrow : ∀ {P : SlotStore → Journal → Prop} (f : Nat) (s : List Lane),
        Escorts (OnSlots P) (fun _ => OnSlots P) (tracedInvoke e p c 0 f s)
          (invoke c (Host.functions e p) 0 f s) := fun _ _ => mirrors_throw fun _ _ _ => trivial
    have hheights := heights_invoke (isValid_of_compiled hp hc) (hostHeights_of_compiled hc e) 0
    refine ⟨⟨fun f hf P s => ?_, fun f hf P slot _ _ below s _ => ?_, fun i hi => ?_⟩, hheights,
      heed_mark, fun i id hi _ => balances_call fun running s => ?_⟩
    · cases hf with
      | host hi hset =>
        rw [heed_lt ((target p).index_lt_firstMark _)]
        exact hthrow _ s
      | memo hk =>
        rw [heed_lt ((target p).memoFunction_lt_firstMark hk)]
        exact hthrow _ s
    · rw [heed_lt ((target p).index_lt_firstMark _)]
      exact hthrow _ s
    · exact hheights _ _ (hc.functionType?_import hi)
    · rw [heed_lt ((target p).outlinedFunction_lt_firstMark hi)]
      exact hthrow _ s
  | depth + 1, bound => attends_enter hp hc hfit howns hrank (attends_invoke hrank depth) bound

theorem escorts_frame (depth : Nat) (running : List NodeId) (s : List Lane) :
    Escorts (OnSlots (Keeps p first running none)) (fun _ => OnSlots (Keeps p first running none))
      (tracedInvoke e p c (depth + 1) Target.frameFunction s)
      (invoke c (Host.functions e p) (depth + 1) Target.frameFunction s) := by
  obtain ⟨leads, hrank⟩ := hp.leads
  obtain ⟨fn, hfn, hcode⟩ := hc.functions.frame
  exact escorts_function hc hfn hcode rfl (pairs_tracedFrame hp hc hfit howns hrank
    (attends_invoke hp hc hfit howns hrank depth _)) running s

theorem escorts_late (depth : Nat) (running : List NodeId) (s : List Lane) :
    Escorts (OnSlots (Keeps p first running none)) (fun _ => OnSlots (Keeps p first running none))
      (tracedInvoke e p c (depth + 1) Target.lateFunction s)
      (invoke c (Host.functions e p) (depth + 1) Target.lateFunction s) := by
  obtain ⟨leads, hrank⟩ := hp.leads
  obtain ⟨fn, hfn, hcode⟩ := hc.functions.late
  exact escorts_function hc hfn hcode rfl (pairs_tracedLate hp hc hfit howns hrank
    (attends_invoke hp hc hfit howns hrank depth _)) running s

end Compiler
end SignalGraph
