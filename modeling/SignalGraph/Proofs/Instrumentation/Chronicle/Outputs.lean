import SignalGraph.Proofs.Instrumentation.Chronicle.Memo
import SignalGraph.Proofs.Instrumentation.Journal.Calls

/-!
# Chronicled outputs

What the code of an output tells, if it is known what the functions tell that it calls.  The
chronicle is that of the lanes on the stack, so that a pointer that a reader receives is the one
that lies there.
-/

namespace SignalGraph
namespace Compiler

open Wasm Machine Chronicle

variable {σ α : Type} {e : Engine σ} {p : Program} {c : Wasm.Module} {frames : Nat} {id : NodeId}
  {n : Node} {k : MemoId} {m : MemoPoint} {h₀ : Holdings} {l₀ : Chronicle} {U : Tale}
  {call' : Nat → List Lane → Exec (World (σ × Chronicle)) (List Lane)}
  {call : Nat → List Lane → Exec (World σ) (List Lane)} {code' code : Code}
  {told produce : Producer → Emit Code}

/-- The imported functions do what the host does with the lanes that they take. -/
def Hosts (e : Engine σ) (p : Program)
    (call' : Nat → List Lane → Exec (World (σ × Chronicle)) (List Lane))
    (call : Nat → List Lane → Exec (World σ) (List Lane)) : Prop :=
  ∀ i ∈ Import.table, ∀ (I : Machine (World σ) → Chronicle → Prop)
    (K : List Lane → Machine (World σ) → Chronicle → Prop) (s : List Lane),
    (∀ lanes below, s = lanes.reverse ++ below → lanes.length = i.type.params.length →
      ∀ t l, I t l →
      ∃ l', Host.run (e.recording Deed.ofRequest) p i lanes (t.host.joined l) =
        ((Host.run e p i lanes t.host).1, (Host.run e p i lanes t.host).2.joined l') ∧
        K ((Host.run e p i lanes t.host).1.reverse ++ below)
          { t with host := (Host.run e p i lanes t.host).2 } l') →
    Escorts I K (call' i.index s) (call i.index s)

/-- The function of a memo point leaves what the memo point holds then. -/
def Supplies (p : Program) (frames : Nat) (k : MemoId) (m : MemoPoint) (h₀ : Holdings)
    (l₀ : Chronicle)
    (s stack : List Lane) (t : Machine (World σ)) (l : Chronicle) : Prop :=
  ∃ lanes, stack = lanes.reverse ++ s ∧ lanes.length = m.type.lanes.length ∧
    Since p frames h₀ l₀ (Delivers p frames m.source (.lanes lanes)) t l ∧
    cells p t.globals k = some (.lanes lanes)

structure Tends (e : Engine σ) (p : Program) (c : Wasm.Module) (frames : Nat)
    (call' : Nat → List Lane → Exec (World (σ × Chronicle)) (List Lane))
    (call : Nat → List Lane → Exec (World σ) (List Lane)) : Prop where
  hosts : Hosts e p call' call
  heights : Heights c.functionType? call
  marks : ∀ m s, call' ((target p).markNumber Mark.marks m) s = (do tell (m.deed s); return s)
  memo : ∀ (k : MemoId) (m : MemoPoint), p.memoPoints[k]? = some m → ∀ h₀ l₀ s,
    Escorts (Since p frames h₀ l₀ .stay) (Supplies p frames k m h₀ l₀ s)
      (call' (Target.memoFunction k) s) (call (Target.memoFunction k) s)

theorem since_ask (hU : Admits U) {t : Machine (World σ)} {l es : Chronicle} {w : World σ}
    (hw : w.holdings = t.host.holdings) (hes : ∀ d ∈ es, d = .asked)
    (h : Since p frames h₀ l₀ U t l) : Since p frames h₀ l₀ U { t with host := w } (l ++ es) := by
  obtain ⟨⟨es₀, rfl, hT⟩, hB⟩ := h
  refine ⟨⟨es₀ ++ es, List.append_assoc _ _ _, ?_⟩, hB.timely, fun hlt => (hB.fresh hlt).ask hes⟩
  exact hU _ _ _ (Tale.next_intro hT ⟨quiet_of_asked hes, hw⟩)

theorem Hosts.plain (h : Hosts e p call' call) (hU : Admits U) {i : Import} (hi : i ∈ Import.table)
    (hchanges : i.changes = false) (s : List Lane) :
    Escorts (Since p frames h₀ l₀ U) (fun _ => Since p frames h₀ l₀ U) (call' i.index s)
      (call i.index s) := by
  refine h i hi _ _ s fun lanes below _ _ t l hs => ?_
  have hmenu : i ≠ .menuItem := by
    rintro rfl
    cases hchanges
  obtain ⟨_, heq, es, rfl, hes⟩ :=
    Host.grows_run growth_inquires (answering_recording e) hmenu lanes t.host l
  exact ⟨_, heq, since_ask hU (Host.spares_run e p (.inl hchanges) lanes t.host) hes hs⟩

def Plain (f : Nat) : Prop := ∃ i ∈ Import.table, i.changes = false ∧ f = i.index

theorem callsPlain_plain : CallsPlain Plain := fun i hi hchanges => ⟨i, hi, hchanges, rfl⟩

theorem Hosts.serves (h : Hosts e p call' call) (hU : Admits U) :
    Serves Plain call' call (Since p frames h₀ l₀ U) where
  calls := by
    rintro _ ⟨i, hi, hchanges, rfl⟩ s
    exact h.plain hU hi hchanges s
  locals := ignoresLocals_since

theorem Tends.stacked (hc : Compiled p c) (h : Tends e p c frames call' call) : Stacked call :=
  fun _ hi => h.heights _ _ (hc.functionType?_import hi)

theorem instrs_told (hmarks : ∀ m s,
      call' ((target p).markNumber Mark.marks m) s = (do tell (m.deed s); return s)) (m : Mark)
    (s : List Lane) :
    instrs call' [(target p).told m] s = (do tell (m.deed s); return .next s) := by
  rw [instrs_one]
  show (do return Outcome.next (← call' ((target p).markNumber Mark.marks m) s)) = _
  rw [hmarks]
  rfl

/-- A mark in front of code that tells nothing that an input receives. -/
theorem tells_told (h : Tends e p c frames call' call) (m : Mark) {s : List Lane}
    (hneutral : (m.deed s).neutral = true)
    {T T' : Outcome → Tale} (hcode : Tells p frames T (instrs call' code' s) (instrs call code s))
    (hT : ∀ outcome h es h', T outcome h es h' → T' outcome h (m.deed s :: es) h') :
    Tells p frames T' (instrs call' ((target p).told m :: code') s) (instrs call code s) := by
  have hrun : instrs call' ((target p).told m :: code') s =
      (do tell (m.deed s); instrs call' code' s) := by
    rw [← List.singleton_append, instrs_append_bind, instrs_told h.marks]
    rfl
  rw [hrun]
  exact tells_note (tell_beside _) (fun _ _ hB => hB.tell hneutral) hcode hT

def Hearing (p : Program) (frames : Nat) (id : NodeId) (i : Nat) (w : Wire) (lanes : List Lane) :
    Tale :=
  fun h es h' => Delivers p frames w.source (.lanes lanes) h es h' ∧ .read id i (.lanes lanes) ∈ es

/-- The codes of the outputs that a node reads tell what computing them does. -/
def Outputs (p : Program) (frames : Nat)
    (call' : Nat → List Lane → Exec (World (σ × Chronicle)) (List Lane))
    (call : Nat → List Lane → Exec (World σ) (List Lane)) (told produce : Producer → Emit Code)
    (n : Node) : Prop :=
  ∀ w, .wire w ∈ n.inputs → Pairs (told w.source) (produce w.source) (Renders p frames call' call
    w.type.lanes.length fun lanes => Delivers p frames w.source (.lanes lanes))

def Fetched (p : Program) (frames : Nat) (w : Wire) (h₀ : Holdings) (l₀ : Chronicle) (s : List Lane)
    (outcome : Outcome) (t : Machine (World σ)) (l : Chronicle) : Prop :=
  ∃ lanes, outcome = .next (lanes.reverse ++ s) ∧ lanes.length = w.type.lanes.length ∧
    Since p frames h₀ l₀ (Delivers p frames w.source (.lanes lanes)) t l ∧
    ∀ k, w.memo = some k → cells p t.globals k = some (.lanes lanes)

theorem pairs_fetch (hp : p.WellFormed) (h : Tends e p c frames call' call) {w : Wire}
    {type : WireType} (hw : w.Fits p type)
    (hproduce : Pairs (told w.source) (produce w.source) (Renders p frames call' call
      w.type.lanes.length fun lanes => Delivers p frames w.source (.lanes lanes))) :
    Pairs (fetch told w) (fetch produce w) fun code' code => ∀ h₀ l₀ s,
      Escorts (Since p frames h₀ l₀ .stay) (Fetched p frames w h₀ l₀ s) (instrs call' code' s)
        (instrs call code s) := by
  unfold fetch
  cases hmemo : w.memo with
  | none =>
    intro l code l' heq
    obtain ⟨code', heq', hcode⟩ := hproduce l code l' heq
    refine ⟨code', heq', fun h₀ l₀ s => mirrors_mono (hcode s h₀ l₀) fun outcome t m hs => ?_⟩
    obtain ⟨⟨es, rfl, lanes, rfl, hlen, hT⟩, hB⟩ := hs
    exact ⟨lanes, rfl, hlen, ⟨⟨es, rfl, hT⟩, hB⟩, fun k heq => nomatch hmemo.symm.trans heq⟩
  | some k =>
    obtain ⟨m, hk, hsource, htype⟩ := hw.memoPoint hp hmemo
    refine pairs_pure fun h₀ l₀ s => ?_
    rw [instrs_one, instrs_one]
    refine mirrors_bind (h.memo k m hk h₀ l₀ s) fun stack => mirrors_pure fun t l hs => ?_
    obtain ⟨lanes, rfl, hlen, hsince, hcell⟩ := hs
    rw [htype] at hlen
    rw [hsource] at hsince
    refine ⟨lanes, rfl, hlen, hsince, fun k' heq => ?_⟩
    cases hmemo.symm.trans heq
    exact hcell

theorem pairs_heard (hp : p.WellFormed) (h : Tends e p c frames call' call)
    (hget : p.nodes[id]? = some n) (houtputs : Outputs p frames call' call told produce n) {i : Nat}
    {w : Wire} (node : NodeId) (hi : n.inputs[i]? = some (.wire w)) :
    Pairs (heardCode (target p) told id n ⟨node, i⟩) (fetch produce w)
      (Renders p frames call' call w.type.lanes.length (Hearing p frames id i w)) := by
  have hw : .wire w ∈ n.inputs := List.mem_of_getElem? hi
  obtain ⟨type, hfits⟩ := (hp.nodes id n hget).fits_of_wire hw
  unfold heardCode
  dsimp only
  rw [hi, ← bind_pure (fetch produce w)]
  refine pairs_bind (pairs_fetch hp h hfits (houtputs w hw)) fun code' code hcode => ?_
  refine pairs_pure fun s h₀ l₀ => ?_
  rw [instrs_append_bind, ← bind_pure (instrs call code s)]
  refine mirrors_bind (hcode h₀ l₀ s) fun outcome t l hs => ?_
  obtain ⟨lanes, rfl, hlen, ⟨⟨es, rfl, ⟨hes, hheld⟩, hpoints⟩, hB⟩, hcell⟩ := hs
  have htop : Mark.top w.type.lanes.length (lanes.reverse ++ s) = .lanes lanes := by
    rw [Mark.top, ← hlen, ← List.length_reverse, List.take_left, List.reverse_reverse]
  refine ⟨(l₀ ++ es) ++ [.read id i (.lanes lanes)], ?_, ⟨es ++ [.read id i (.lanes lanes)],
    List.append_assoc _ _ _, lanes, rfl, hlen,
    ⟨⟨quiet_append hes (quiet_one rfl), hheld⟩, hpoints⟩, ?_⟩,
    hB.timely, fun hlt => (hB.fresh hlt).read hget hi hcell (hpoints hlt)⟩
  · rw [proceed, instrs_told h.marks, Mark.deed, htop]
    rfl
  · exact List.mem_append_right _ (List.mem_singleton.mpr rfl)

structure Evaluating (p : Program) (frames : Nat) (id : NodeId) (n : Node) (i : Nat)
    (lanes : List Lane)
    (h : Holdings) (es : Chronicle) (h' : Holdings) : Prop where
  quiet : Tale.quiet h es h'
  heard : ∀ w, n.inputs[i]? = some (.wire w) → ∃ r, .read id i r ∈ es ∧
    (w.deref = false → r = .lanes lanes ∧ (frames < 4294967295 → p.Points w.source r))
  absent : ∀ pin, n.kind.shape.inputs[i]? = some pin → pin.type.isPointer = true →
    n.inputs[i]? = some .absent → lanes = Lanes.noPointer

theorem Evaluating.reads {i : Nat} {lanes : List Lane} {h h' : Holdings} {es : Chronicle}
    (hes : Evaluating p frames id n i lanes h es h') : n.Heard id i es := fun w hw =>
  have ⟨r, hr, _⟩ := hes.heard w hw
  ⟨r, hr⟩

theorem Evaluating.of_unwired {i : Nat} {lanes : List Lane} {h : Holdings}
    (hwire : ∀ w, n.inputs[i]? ≠ some (.wire w))
    (habsent : ∀ pin, n.kind.shape.inputs[i]? = some pin → pin.type.isPointer = true →
      n.inputs[i]? = some .absent → lanes = Lanes.noPointer) :
    Evaluating p frames id n i lanes h [] h :=
  ⟨⟨quiet_nil, rfl⟩, fun w hw => absurd hw (hwire w), habsent⟩

theorem Evaluating.of_wire {i : Nat} {w : Wire} {lanes : List Lane} {h h' : Holdings}
    {es : Chronicle} (hi : n.inputs[i]? = some (.wire w)) (hquiet : Tale.quiet h es h')
    {r : Reading} (hread : .read id i r ∈ es)
    (hr : w.deref = false → r = .lanes lanes ∧ (frames < 4294967295 → p.Points w.source r)) :
    Evaluating p frames id n i lanes h es h' := by
  refine ⟨hquiet, fun w' hw' => ?_, fun _ _ _ habsent => ?_⟩
  · cases hi.symm.trans hw'
    exact ⟨r, hread, hr⟩
  · cases hi.symm.trans habsent

theorem renders_consts {T : List Lane → Tale} {lanes : List Lane} (hT : ∀ h, T lanes h [] h) :
    Renders p frames call' call lanes.length T (lanes.map .const) (lanes.map .const) := by
  intro s h₀ l₀ t l hs
  obtain ⟨⟨rfl, rfl⟩, hB⟩ := since_stay.mp hs
  have hrun : instrs call (lanes.map .const) s t = _ := runs_consts
  rw [hrun]
  exact ⟨l, runs_consts, ⟨[], (List.append_nil l).symm, lanes, rfl, rfl, hT _⟩, hB⟩

theorem length_unconnected {type : WireType} (h : type ≠ .void) :
    ∃ lanes, unconnected type = lanes.map .const ∧ lanes.length = type.lanes.length ∧
      (type.isPointer = true → lanes = Lanes.noPointer) := by
  cases type with
  | void => exact absurd rfl h
  | value b =>
    exact ⟨_, rfl, Lanes.length_ofValue (Value.hasBase_default b), fun heq => nomatch heq⟩
  | pointer b => exact ⟨_, rfl, rfl, fun _ => rfl⟩

theorem tells_returns (h : Tends e p c frames call' call) (hcalls : Calls Plain 0 code)
    {s : List Lane}
    {Q : Outcome → Prop} (hreturns : Returns (instrs call code s) Q) :
    Tells p frames (fun outcome h es h' => Q outcome ∧ Tale.quiet h es h') (instrs call' code s)
      (instrs call code s) := by
  have hkept : Recounts p frames call' call .quiet code code :=
    recounts_of_tracks (fun _ => ⟨quiet_nil, rfl⟩) fun h₀ l₀ =>
      tracks_calls (h.hosts.serves admits_quiet) hcalls
  refine fun h₀ l₀ => mirrors_mono (mirrors_and (hkept s h₀ l₀) hreturns) ?_
  rintro outcome t l ⟨hs, hQ⟩
  exact since_mono (fun h es h' hT => ⟨hQ, hT.2⟩) hs

/-- The lanes that such a function leaves in place of others. -/
theorem tells_plain (hc : Compiled p c) (h : Tends e p c frames call' call) {i : Import}
    (hi : i ∈ Import.table) (hchanges : i.changes = false) {lanes : List Lane}
    (hlen : lanes.length = i.type.params.length) (s : List Lane) :
    Tells p frames (Leaving s i.type.results.length fun _ => .quiet)
      (instrs call' [callImport i] (lanes.reverse ++ s))
      (instrs call [callImport i] (lanes.reverse ++ s)) := by
  have hpiled : Piled s i.type.params.length (lanes.reverse ++ s) :=
    ⟨lanes.reverse, rfl, List.length_reverse.trans hlen⟩
  have hheight : Returns (instrs call [callImport i] (lanes.reverse ++ s)) fun outcome =>
      ∃ stack, outcome = .next stack ∧ Piled s i.type.results.length stack := by
    rw [instrs_one]
    exact returns_bind (h.stacked hc i hi s _ hpiled) fun stack hstack =>
      returns_pure ⟨stack, rfl, hstack⟩
  refine (tells_returns h (calls_callImport ⟨i, hi, hchanges, rfl⟩) hheight).mono ?_
  rintro outcome h es h' ⟨⟨stack, rfl, top, rfl, htop⟩, hquiet⟩
  exact ⟨top.reverse, by rw [List.reverse_reverse], List.length_reverse.trans htop, hquiet⟩

theorem renders_import (hc : Compiled p c) (h : Tends e p c frames call' call) {count : Nat}
    {T : List Lane → Tale} (hcode : Renders p frames call' call count T code' code) {i : Import}
    (hi : i ∈ Import.table) (hchanges : i.changes = false) (hcount : i.type.params.length = count) :
    Renders p frames call' call i.type.results.length (fun _ h es h' =>
        ∃ lanes, (T lanes).next .quiet h es h')
      (code' ++ [callImport i]) (code ++ [callImport i]) := by
  intro s
  refine renders_bind hcode (fun lanes hlen =>
    tells_plain hc h hi hchanges (hlen.trans hcount.symm) s) ?_
  rintro lanes outcome h es h' - ⟨x, h₁, y, rfl, hT, outs, rfl, hlen, hquiet⟩
  exact ⟨outs, rfl, hlen, lanes, Tale.next_intro hT hquiet⟩

theorem Renders.length {a b : Nat} {T : List Lane → Tale}
    (h : Renders p frames call' call a T code' code)
    (heq : a = b) : Renders p frames call' call b T code' code := heq ▸ h

theorem pairs_wire (hp : p.WellFormed) (hc : Compiled p c) (h : Tends e p c frames call' call)
    (hget : p.nodes[id]? = some n) (houtputs : Outputs p frames call' call told produce n) {i : Nat}
    {w : Wire} {type : WireType} (ho : n.inputs[i]? = some (.wire w)) (hw : w.Fits p type) :
    Pairs (wire (heardCode (target p) told id n)
        { w with source := { w.source with output := i }, memo := none })
      (wire produce w)
      (Renders p frames call' call type.lanes.length (Evaluating p frames id n i)) := by
  have hheard := pairs_heard hp h hget houtputs w.source.node ho
  rw [wire_eq, wire_eq]
  refine pairs_bind hheard fun code' code hcode => ?_
  rcases hw.read with ⟨hderef, heq⟩ | ⟨b, hderef, hpointer, heq⟩
  · simp only [hderef]
    refine pairs_pure ((hcode.mono fun lanes h es h' hT => ?_).length (by rw [heq]))
    exact Evaluating.of_wire ho hT.1.1 hT.2 fun _ => ⟨rfl, hT.1.2⟩
  · simp only [hderef, hpointer, if_true]
    have hmem : Import.getVariable (.ofType (.pointer b)) ∈ Import.table :=
      mem_table Import.noConfusion Import.noConfusion
    have hlen : (Import.getVariable (.ofType (.pointer b))).type.results.length =
        type.lanes.length := by
      rw [heq]
      exact congrArg List.length (Format.lanes_ofBase b)
    have hparams : (Import.getVariable (.ofType (.pointer b))).type.params.length =
        w.type.lanes.length := by
      rw [hpointer]
      rfl
    refine pairs_pure (((renders_import hc h hcode hmem rfl hparams).mono ?_).length hlen)
    rintro lanes h es h' ⟨lanes', a, h₁, b', rfl, hT, hquiet⟩
    exact Evaluating.of_wire ho (Tale.quiet_next (Tale.next_intro hT.1.1 hquiet))
      (List.mem_append_left _ hT.2) fun hfalse => Bool.noConfusion (hderef.symm.trans hfalse)

theorem pairs_operand (hp : p.WellFormed) (hc : Compiled p c) (h : Tends e p c frames call' call)
    (hget : p.nodes[id]? = some n) (houtputs : Outputs p frames call' call told produce n) {i : Nat}
    {pin : Pin} (hpin : n.kind.shape.inputs[i]? = some pin) :
    Pairs (operand (heardCode (target p) told id n) n.numbered i) (operand produce n i)
      (Renders p frames call' call pin.type.lanes.length (Evaluating p frames id n i)) := by
  have hn := hp.nodes id n hget
  obtain ⟨o, ho, hfits⟩ := hn.inputs i pin hpin
  have htype : inputType n.numbered i = inputType n i := rfl
  have hdata := Kind.hasDataInputs hn.plain pin (List.mem_of_getElem? hpin)
  unfold operand
  rw [Interpreter.input_numbered, Node.input_eq_ok ho, htype]
  cases o with
  | default v =>
    cases hfits with
    | default hvalue _ hbase =>
      rw [hvalue]
      refine pairs_pure ((renders_consts fun h => ?_).length (Lanes.length_ofValue hbase))
      exact .of_unwired (fun w hw => by cases ho.symm.trans hw)
        fun _ _ _ habsent => by cases ho.symm.trans habsent
  | absent =>
    show Pairs (do return unconnected (← inputType n i)) (do return unconnected (← inputType n i)) _
    refine pairs_lift fun type hinputType => pairs_pure ?_
    rw [inputType_eq hpin] at hinputType
    cases hinputType
    obtain ⟨lanes, heq, hlen, hpointer⟩ := length_unconnected hdata
    rw [heq]
    refine (renders_consts fun h => ?_).length hlen
    refine .of_unwired (fun w hw => by cases ho.symm.trans hw) fun pin' hpin' hp' _ => ?_
    cases hpin.symm.trans hpin'
    exact hpointer hp'
  | wire w =>
    cases hfits with
    | wire hw => exact pairs_wire hp hc h hget houtputs ho hw

theorem tracks_of_renders {count : Nat} {T : List Lane → Tale}
    (h : Renders p frames call' call count T code' code)
    (hT : ∀ lanes h es h', T lanes h es h' → Tale.quiet h es h') (hU : Admits U) :
    Tracks call' call 0 (Since p frames h₀ l₀ U) (Since p frames h₀ l₀ U) code' code := by
  have hrecounts : Recounts p frames call' call .quiet code' code := fun s => (h s).mono
    fun _ _ _ _ ⟨lanes, heq, _, hes⟩ => ⟨⟨_, heq⟩, hT lanes _ _ _ hes⟩
  exact tracks_of_recounts hrecounts hU

theorem pairs_error {α β : Type} {fault : Fault} {f' : α → Emit Code} {f : α → Emit β}
    {R : Code → β → Prop} :
    Pairs (liftM (Except.error fault : Except Fault α) >>= f')
      (liftM (Except.error fault : Except Fault α) >>= f) R :=
  pairs_lift fun _ heq => nomatch heq

theorem feeds_numbered (hp : p.WellFormed) (hc : Compiled p c) (h : Tends e p c frames call' call)
    (hget : p.nodes[id]? = some n) (houtputs : Outputs p frames call' call told produce n)
    (hU : Admits U) :
    Feeds (Tracking call' call (Since p frames h₀ l₀ U) (Since p frames h₀ l₀ U))
      (heardCode (target p) told id n) n.numbered produce n := by
  have hserves : Serves Plain call' call (Since p frames h₀ l₀ U) := h.hosts.serves hU
  have hoperand : ∀ i o, n.inputs[i]? = some o →
      Pairs (operand (heardCode (target p) told id n) n.numbered i) (operand produce n i)
        (Tracks call' call 0 (Since p frames h₀ l₀ U) (Since p frames h₀ l₀ U)) := by
    intro i o ho l code l' heq
    have hlt := (List.getElem?_eq_some_iff.mp ho).1
    rw [(hp.nodes id n hget).arity] at hlt
    obtain ⟨code', heq', hcode⟩ :=
      pairs_operand hp hc h hget houtputs (List.getElem?_eq_getElem hlt) l code l' heq
    exact ⟨code', heq', tracks_of_renders hcode (fun _ _ _ _ hes => hes.quiet) hU⟩
  refine feeds_tracking (fun i => ?_) (fun i => ?_) rfl
  · cases ho : n.inputs[i]? with
    | some o => exact hoperand i o ho
    | none =>
      unfold operand
      rw [Interpreter.input_numbered, Node.input, ho]
      exact pairs_error
  · have htype : inputType n.numbered i = inputType n i := rfl
    cases ho : n.inputs[i]? with
    | none =>
      unfold flaggedOperand
      rw [Interpreter.input_numbered, Node.input, ho]
      exact pairs_error
    | some o =>
      have hpresent :
        Pairs (do return int 1 :: (← operand (heardCode (target p) told id n) n.numbered i))
          (do return int 1 :: (← operand produce n i))
          (Tracks call' call 0 (Since p frames h₀ l₀ U) (Since p frames h₀ l₀ U)) :=
        pairs_bind (hoperand i o ho) fun code' code hcode =>
          pairs_pure (tracks_append (tracks_int hserves 1) hcode)
      unfold flaggedOperand
      rw [Interpreter.input_numbered, Node.input_eq_ok ho, htype]
      cases o with
      | default v => exact hpresent
      | wire w => exact hpresent
      | absent =>
        show Pairs (do return int 0 :: value (← inputType n i).default)
          (do return int 0 :: value (← inputType n i).default) _
        refine pairs_lift fun type _ => pairs_pure (tracks_calls hserves ?_)
        exact calls_cons (fun _ => trivial) (calls_value _)

end Compiler
end SignalGraph
