import SignalGraph.Proofs.Emission.TotalCalls
import SignalGraph.Proofs.Instrumentation.Journal.Code
import SignalGraph.Proofs.Instrumentation.Tracks

/-!
# Traced chains

The code of chains and functions with marks does what the code without them does, and by the journal
no slot changes but by its owner, if that holds of the functions that are called.
-/

namespace SignalGraph
namespace Compiler

open Wasm Machine Journal

section

variable {σ L : Type} {P N B : SlotStore → L → Prop} {calls : Nat → Prop} {n : Node}
  {call' : Nat → List Lane → Exec (World (σ × L)) (List Lane)}
  {call : Nat → List Lane → Exec (World σ) (List Lane)}

abbrev OnSlots (P : SlotStore → L → Prop) : Machine (World σ) → L → Prop :=
  fun t l => P t.host.slots l

/-- What the functions that statements call do with the slots, with something extra and without. -/
structure Spares (calls : Nat → Prop) (call' : Nat → List Lane → Exec (World (σ × L)) (List Lane))
    (call : Nat → List Lane → Exec (World σ) (List Lane)) : Prop where
  /-- They leave the slots alone. -/
  reads : ∀ f, calls f → ∀ (P : SlotStore → L → Prop) s,
    Escorts (OnSlots P) (fun _ => OnSlots P) (call' f s) (call f s)
  /-- But for those that set the slot whose number lies below the lanes. -/
  stores : ∀ (f : Format), f ≠ .rot → ∀ (P : SlotStore → L → Prop) (slot : SlotId),
    slot < 4294967296 → (∀ v slots l, P slots l → P (slots.set slot v) l) →
    ∀ below s, Piled (.i32 (Int32.ofNat slot) :: below) f.lanes.length s →
    Escorts (OnSlots P) (fun _ => OnSlots P) (call' (Import.setSlot f).index s)
      (call (Import.setSlot f).index s)
  heights : Stacked call

theorem Spares.serves (h : Spares calls call' call) (P : SlotStore → L → Prop) :
    Serves calls call' call (OnSlots P) :=
  ⟨fun f hf => h.reads f hf P, fun _ _ _ hP => hP⟩

/-- What a statement keeps of the slots, if it may set its own. -/
theorem Spares.minds (h : Spares calls call' call) (hstored : ∀ slots l, N slots l → B slots l)
    (hwithin : ∀ slot ∈ n.slots, slot < 4294967296)
    (hstore : ∀ slot ∈ n.slots, ∀ v slots l, B slots l → B (slots.set slot v) l)
    (hended : n.kind.shape.branches = [] → ∀ slots l, B slots l → N slots l) :
    Minds call' call (OnSlots N) (OnSlots B) n where
  stored t l := hstored t.host.slots l
  locals _ _ _ hB := hB
  store slot hslot f hf := h.stores f hf B slot (hwithin slot hslot) (hstore slot hslot)
  ended hbranches t l := hended hbranches t.host.slots l

end

variable {σ : Type} {p : Program} {c : Wasm.Module} {first : SlotStore}
  {running : List NodeId} {id : NodeId} {n : Node} {leads : NodeId → Nat} {bound : Nat}
  {call' : Nat → List Lane → Exec (World (σ × Journal)) (List Lane)}
  {call : Nat → List Lane → Exec (World σ) (List Lane)}

/-- Functions that leave the slots alone: those of the host but for the ones that set a slot, and
those of memo points. -/
inductive Harmless (p : Program) : Nat → Prop
  | host {i : Import} : i ∈ Import.table → (∀ f, i ≠ .setSlot f) → Harmless p i.index
  | memo {k : MemoId} {m : MemoPoint} : p.memoPoints[k]? = some m →
    Harmless p (Target.memoFunction k)

theorem callsReaders_harmless : CallsReaders (Harmless p) := fun _ => .host

/-- Code that begins while some statements run and ends while the same ones run. -/
def Balances (p : Program) (first : SlotStore)
    (call' : Nat → List Lane → Exec (World (σ × Journal)) (List Lane))
    (call : Nat → List Lane → Exec (World σ) (List Lane)) (code' code : Code) : Prop :=
  ∀ running, Tracks call' call 0 (OnSlots (Keeps p first running none))
    (OnSlots (Keeps p first running none)) code' code

/-- What functions do that the code of chains calls, with a journal and without.  Outlined
statements are those below a rank. -/
structure Attends (p : Program) (c : Wasm.Module) (first : SlotStore) (leads : NodeId → Nat)
    (bound : Nat) (call' : Nat → List Lane → Exec (World (σ × Journal)) (List Lane))
    (call : Nat → List Lane → Exec (World σ) (List Lane)) : Prop where
  spares : Spares (L := Journal) (Harmless p) call' call
  heights : Heights c.functionType? call
  marks : ∀ phase s, call' ((target p).markNumber Phase.marks phase) s = (do record phase; return s)
  outlined : ∀ (i : Nat) (id : NodeId), (target p).outlined[i]? = some id → leads id < bound →
    Balances p first call' call [.call ((target p).outlinedFunction i)]
      [.call ((target p).outlinedFunction i)]

theorem tracks_mark {P Q : SlotStore → Journal → Prop} {phase : Phase}
    (hmark : ∀ s, call' ((target p).markNumber Phase.marks phase) s = (do record phase; return s))
    (h : ∀ slots l, P slots l → Q slots (⟨phase, slots⟩ :: l)) :
    Tracks call' call 0 (OnSlots P) (OnSlots Q) [(target p).mark Phase.marks phase] [] := by
  intro s
  have hrun : instrs call' [(target p).mark Phase.marks phase] s =
      (do record phase; return .next s) := by
    rw [instrs_one]
    show (do return Outcome.next (← call' ((target p).markNumber Phase.marks phase) s)) = _
    rw [hmark]
    rfl
  rw [hrun]
  exact mirrors_note (record_beside phase) (fun t l ht => h t.host.slots l ht) (escorts_next s)

theorem minds_keeps (h : Spares (Harmless p) call' call) (hget : p.nodes[id]? = some n)
    (howns : p.Owns id n) (hfit : p.slots.length ≤ 4294967296) :
    Minds call' call (OnSlots (Keeps p first (id :: running) none))
      (OnSlots (Keeps p first (id :: running) (some (.branched id)))) n := by
  refine h.minds (fun _ _ h => h.expect _) (fun slot hslot => ?_) (fun slot hslot v slots l h => ?_)
    fun hbranches _ _ h => h.settle hget hbranches
  · obtain ⟨decl, hdecl, -⟩ := howns slot hslot
    exact Nat.lt_of_lt_of_le (List.getElem?_eq_some_iff.mp hdecl).1 hfit
  · obtain ⟨decl, hdecl, howner⟩ := howns slot hslot
    exact h.store hdecl howner v

/-- What is emitted leaves as many lanes as its type says. -/
theorem piles_of_emits (hc : Compiled p c) (hheights : Heights c.functionType? call)
    {emit : Emit Code} {outs : List LaneType} (h : Emits (target p) emit [] outs) (l : Locals)
    (code : Code) (l' : Locals) (heq : emit l = .ok (code, l')) : Piles call code outs.length := by
  obtain ⟨code', l'', heq', htypes⟩ := leaves_of_emits hc h l
  rw [heq] at heq'
  cases heq'
  exact piles_of_types hheights (htypes (List.replicate l.params .i32) [] List.length_replicate)

theorem balances_append {a' a b' b : Code} (ha : Balances p first call' call a' a)
    (hb : Balances p first call' call b' b) :
    Balances p first call' call (a' ++ b') (a ++ b) := fun running =>
  tracks_append (ha running) (hb running)

variable (hp : p.WellFormed) (hc : Compiled p c) (hfit : p.slots.length ≤ 4294967296)
  (howns : ∀ id n, p.nodes[id]? = some n → p.Owns id n)
include hp hc hfit howns

/-- A statement with its marks, if its branches do the same with theirs. -/
theorem pairs_traced (h : Attends p c first leads bound call' call) (site : Site)
    (hget : p.nodes[id]? = some n) {st : Statement} (hkind : n.kind = .statement st)
    {chain' chain : List NodeId → Emit Code}
    (hchain : ∀ ids ∈ n.controls, Pairs (chain' ids) (chain ids) (Balances p first call' call)) :
    Pairs ((tracing (target p)).statement (target p) site chain' id n st)
      (statement (produce p (p.nodes.size + 1)) chain id n st) (Balances p first call' call) := by
  have hreads := reads_produce hp callsReaders_harmless (fun k m hk => Harmless.memo hk) hget
  have hn := hp.nodes id n hget
  rw [plain_tracing.statement_eq]
  refine pairs_forall fun running => fun l => ?_
  have hserves := h.spares.serves (Keeps p first (id :: running) none)
  have hfollows : ∀ ids ∈ n.controls,
      Pairs ((tracing (target p)).branches chain' id ids) (chain ids)
        (Tracks call' call 0 (OnSlots (Keeps p first (id :: running) (some (.branched id))))
          (OnSlots (Keeps p first (id :: running) none))) := fun ids hids l =>
    (hchain ids hids l).map fun _ _ _ hcode =>
      tracks_append (tracks_mark (h.marks _) fun _ _ h => h.branch) (hcode _)
  have hstatement := pairs_statement hserves (permits_of_readers callsReaders_harmless)
    h.spares.heights (minds_keeps h.spares hget (howns id n hget) hfit)
    (feeds_self hserves hreads) (follows_tracking hfollows) (fun e he =>
      piles_of_emits hc h.heights (emits_effectOperands hp hn (coded_produce hp hn) he)) id hkind
  refine (hstatement l).map fun _ code' code hcode => ?_
  have hleft : Tracks call' call 0 (OnSlots (Keeps p first (id :: running) none))
      (OnSlots (Keeps p first running none)) [(target p).mark Phase.marks (.left id)] [] :=
    tracks_mark (h.marks _) fun _ _ hl => hl.leave
  have hentered : Tracks call' call 0 (OnSlots (Keeps p first running none))
      (OnSlots (Keeps p first (id :: running) none)) [(target p).mark Phase.marks (.entered id)]
      [] := tracks_mark (h.marks _) fun _ _ hl => hl.enter id
  have hall := tracks_append (tracks_append hentered hcode) hleft
  rwa [List.append_nil] at hall

/-- A statement starts only statements of lower rank. -/
theorem carries_tracing (hrank : p.Falls p.Leads leads)
    (h : Attends p c first leads bound call' call) :
    (tracing (target p)).Carries (target p) (leads · < bound)
      (fun _ _ _ _ _ => Balances p first call' call)
      (fun _ _ _ _ _ => Balances p first call' call)
      fun _ _ _ _ _ => Balances p first call' call where
  closed hid hget hids t ht := Nat.lt_trans (hrank.falls _ t ⟨_, _, hget, hids, ht⟩) hid
  nil _ _ _ _ := tracks_nil
  cons := balances_append
  around h := h
  call hid hi := h.outlined _ _ hi hid
  statement hget hkind hchain := pairs_traced hp hc hfit howns h _ hget hkind hchain
  followed _ ha hb := balances_append ha hb
  single _ h := h

theorem pairs_tracedOutlined (hrank : p.Falls p.Leads leads)
    (h : Attends p c first leads (leads id) call' call) :
    Pairs ((tracing (target p)).node (target p) ((tracing (target p)).chainCode (target p)) .own id)
      (outlinedCode (target p) id) (Balances p first call' call) :=
  (carries_tracing hp hc hfit howns hrank h).parallels_own fun hget hids t ht =>
    hrank.falls id t ⟨_, _, hget, hids, ht⟩

theorem pairs_tracedFrame (hrank : p.Falls p.Leads leads)
    (h : Attends p c first leads p.nodes.size call' call) :
    Pairs ((tracing (target p)).frameCode (target p)) (frameCode (target p))
      (Balances p first call' call) := by
  have hentries := leads_entry_lt hp hrank
  have hcount : confined (bodyLimits fun _ => False) 0 frameCount :=
    ⟨trivial, trivial, trivial, trivial, trivial⟩
  refine fun l => ((carries_tracing hp hc hfit howns hrank h).parallels_frame hentries l).mono ?_
  rintro _ _ _ ⟨b', b, rfl, rfl, hb⟩ running
  have hserves := h.spares.serves (Keeps p first running none)
  exact tracks_append (tracks_confined (c := bodyLimits fun _ => False) hserves
    (fun _ hf => hf.elim) (fun _ _ _ _ _ hkeeps => hkeeps) hcount) (hb running)

theorem pairs_tracedLate (hrank : p.Falls p.Leads leads)
    (h : Attends p c first leads p.nodes.size call' call) :
    Pairs ((tracing (target p)).lateCode (target p)) (lateCode (target p))
      (Balances p first call' call) := by
  refine (carries_tracing hp hc hfit howns hrank h).parallels_late
    (T := fun _ _ _ => Balances p first call' call) (fun hget hids => leads_lt hp hrank hget hids)
    (fun _ _ => tracks_nil)
    balances_append fun {id _ _ _ _ b' b} _ _ _ hb running => ?_
  have htest : Calls (Harmless p) 0 [.localGet 0, Compiler.id id, .numeric .i32Eq] :=
    calls_cons (fun _ => trivial) (calls_cons (fun _ => trivial)
      (calls_cons (fun _ => trivial) calls_nil))
  exact tracks_append (tracks_calls (h.spares.serves _) htest)
    (tracks_when (tracks_mono (hb running) (fun _ _ h => h) fun _ _ h => h))

end Compiler
end SignalGraph
