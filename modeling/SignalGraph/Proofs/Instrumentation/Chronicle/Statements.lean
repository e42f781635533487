import SignalGraph.Proofs.Instrumentation.Chronicle.Chains
import SignalGraph.Proofs.Instrumentation.Chronicle.Expressions

/-!
# Chronicled statements

What the code of a statement tells.  A statement that only sets slots of its own and runs its
branches is told step by step.  Those that do more are taken one by one: what they write where is in
the lanes that they give to the host.
-/

namespace SignalGraph
namespace Compiler

open Wasm Machine Chronicle

variable {σ : Type} {e : Engine σ} {p : Program} {c : Wasm.Module} {frames : Nat} {id : NodeId}
  {n : Node} {st : Statement} {h₀ : Holdings} {l₀ : Chronicle} {s : List Lane}
  {call' : Nat → List Lane → Exec (World (σ × Chronicle)) (List Lane)}
  {call : Nat → List Lane → Exec (World σ) (List Lane)} {code' code a' a b' b : Code}
  {told produce : Producer → Emit Code} {chain' chain : List NodeId → Emit Code} {T U : Tale}

/-- The function that sets a slot finds its number right below the lanes. -/
theorem Hosts.stores (h : Hosts e p call' call) {slot : SlotId} (hslot : slot < 4294967296)
    {I K : Machine (World σ) → Chronicle → Prop}
    (hK : ∀ v t l, I t l → K { t with host := t.host.setSlot slot v } l) :
    Stores call' call I K slot := by
  intro f hf below s hs
  have hi : Import.setSlot f ∈ Import.table :=
    mem_table (fun heq => by cases heq) fun heq => hf (Import.setSlot.inj heq)
  refine h _ hi I (fun _ => K) s fun lanes below' heq hlen t l hI => ?_
  obtain ⟨rest, rfl, -⟩ := hs.lanes heq hlen
  refine ⟨l, rfl, ?_⟩
  show K { t with host := Host.writeSlot p f (Int32.ofNat slot) rest t.host } l
  unfold Host.writeSlot
  rw [toNat_ofNat hslot]
  exact hK _ t l hI

theorem recounts_told (h : Tends e p c frames call' call) (m : Mark) {d : Deed}
    (hd : ∀ s, m.deed s = d) (hneutral : d.neutral = true)
    (hcode : Recounts p frames call' call T code' code)
    (hU : ∀ h es h', T h es h' → U h (d :: es) h') :
    Recounts p frames call' call U ((target p).told m :: code') code := by
  intro s
  refine tells_told h m (by rw [hd]; exact hneutral) (hcode s) ?_
  rintro outcome h es h' ⟨hnext, hT⟩
  rw [hd]
  exact ⟨hnext, hU h es h' hT⟩

theorem recounts_nil (hT : ∀ h, T h [] h) : Recounts p frames call' call T [] [] := fun s =>
  tells_pure fun h => ⟨⟨s, rfl⟩, hT h⟩

theorem minds_steps (hfit : p.slots.length ≤ 4294967296) (howns : p.Owns id n)
    (h : Tends e p c frames call' call) (h₀ : Holdings) (l₀ : Chronicle) :
    Minds call' call (Since p frames h₀ l₀ (Steps p id n))
      (Since p frames h₀ l₀ (Steps p id n)) n where
  stored _ _ hs := hs
  locals := ignoresLocals_since
  ended _ _ _ hs := hs
  store slot hslot := by
    obtain ⟨decl, hdecl, -⟩ := howns slot hslot
    have hlt := Nat.lt_of_lt_of_le (List.getElem?_eq_some_iff.mp hdecl).1 hfit
    refine h.hosts.stores hlt fun v t l ⟨⟨es, heq, hsteps⟩, hB⟩ => ?_
    refine ⟨⟨es, heq, ?_⟩, hB.timely, hB.fresh⟩
    have happend := Steps.append hsteps (.store (v := v) hslot)
    rwa [List.append_nil] at happend

theorem permits_ordinary (hkind : n.kind = .statement st) (hspecial : st.special = false) :
    Permits Plain n := by
  refine ⟨callsPlain_plain, fun hmenu => ?_, fun st' hst' hassigns => ?_, fun hlate => ?_⟩
  · cases hkind.symm.trans hmenu
    cases hspecial
  · cases hkind.symm.trans hst'
    exact nomatch hspecial.symm.trans (Statement.special_of_assigns hassigns)
  · cases hkind.symm.trans hlate
    cases hspecial

/-- What an ordinary statement does is told step by step. -/
theorem pairs_ordinary (hp : p.WellFormed) (hfit : p.slots.length ≤ 4294967296) (hc : Compiled p c)
    (h : Tends e p c frames call' call) (hget : p.nodes[id]? = some n) (howns : p.Owns id n)
    (hkind : n.kind = .statement st) (hspecial : st.special = false)
    (houtputs : Outputs p frames call' call told produce n) (hcoded : Coded (target p) produce n)
    (hchain : ∀ ids ∈ n.controls,
      Pairs (chain' ids) (chain ids) (Recounts p frames call' call (Ran p ids))) :
    Pairs
      (statement (heardCode (target p) told id n)
        ((telling (target p)).branches chain' id) id n.numbered st)
      (statement produce chain id n st) (Recounts p frames call' call (Steps p id n)) := by
  have hpairs : ∀ s : Holdings × Chronicle, Pairs
      (statement (heardCode (target p) told id n)
        ((telling (target p)).branches chain' id) id n.numbered st)
      (statement produce chain id n st)
      (Tracks call' call 0 (Since p frames s.1 s.2 (Steps p id n))
        (Since p frames s.1 s.2 (Steps p id n))) := by
    intro s
    have hfollows : ∀ ids ∈ n.controls,
        Pairs ((telling (target p)).branches chain' id ids) (chain ids)
          (Tracks call' call 0 (Since p frames s.1 s.2 (Steps p id n))
            (Since p frames s.1 s.2 (Steps p id n))) := by
      refine fun ids hids l => (hchain ids hids l).map fun _ code' code hcode => ?_
      have hbranch : Recounts p frames call' call (Steps p id n)
          ((target p).told (.branched id) :: code') code :=
        recounts_told h (.branched id) (fun _ => rfl) rfl hcode fun _ _ _ hran => .branch hids hran
      exact tracks_of_recounts hbranch fun _ _ _ ⟨_, _, _, heq, ha, hb⟩ => heq ▸ .append ha hb
    exact pairs_statement (h.hosts.serves admits_steps) (permits_ordinary hkind hspecial)
      (h.stacked hc) (minds_steps hfit howns h s.1 s.2)
      (feeds_numbered hp hc h hget houtputs admits_steps) (follows_tracking hfollows)
      (fun e' he => piles_of_emits hc h.heights
        (emits_effectOperands (x := target p) hp (hp.nodes id n hget) hcoded he)) id hkind
  have : Nonempty (Holdings × Chronicle) := ⟨World.start p (), []⟩
  intro l code l' heq
  obtain ⟨code', heq', hcode⟩ := pairs_forall hpairs l code l' heq
  exact ⟨code', heq', recounts_of_tracks (fun _ => steps_stay) fun h₀ l₀ => hcode (h₀, l₀)⟩

/-! ## Calls of the host -/

def Does (e : Engine σ) (p : Program) (i : Import) (lanes : List Lane)
    (T : List Lane → Tale) : Prop :=
  ∀ (w : World σ) l, ∃ es, Host.run (e.recording Deed.ofRequest) p i lanes (w.joined l) =
    ((Host.run e p i lanes w).1, (Host.run e p i lanes w).2.joined (l ++ es)) ∧
    (∀ d ∈ es, d.neutral = true) ∧
    T (Host.run e p i lanes w).1 w.holdings es (Host.run e p i lanes w).2.holdings

/-- The results of a call are on the stack, and `T` tells of them. -/
def Returning (s : List Lane) (T : List Lane → Tale) (outcome : Outcome) : Tale := fun h es h' =>
  ∃ outs : List Lane, outcome = .next (outs.reverse ++ s) ∧ T outs h es h'

theorem Hosts.tells (h : Hosts e p call' call) {i : Import} {lanes : List Lane}
    {T : List Lane → Tale}
    (hdoes : Does e p i lanes T) (hi : i ∈ Import.table)
    (hlen : lanes.length = i.type.params.length)
    (s : List Lane) :
    Tells p frames (Returning s T) (instrs call' [callImport i] (lanes.reverse ++ s))
      (instrs call [callImport i] (lanes.reverse ++ s)) := by
  intro h₀ l₀
  have hcalled : Escorts (Since p frames h₀ l₀ .stay)
      (fun stack => Since p frames h₀ l₀ fun h es h' => ∃ outs : List Lane,
        stack = outs.reverse ++ s ∧ T outs h es h')
      (call' i.index (lanes.reverse ++ s)) (call i.index (lanes.reverse ++ s)) := by
    refine h i hi _ _ _ fun lanes' below heq hlen' t l hs => ?_
    have hlen : lanes.reverse.length = lanes'.reverse.length := by
      rw [List.length_reverse, List.length_reverse, hlen, hlen']
    obtain ⟨hlanes, rfl⟩ := List.append_inj heq hlen
    cases List.reverse_injective hlanes
    obtain ⟨⟨rfl, rfl⟩, hB⟩ := since_stay.mp hs
    obtain ⟨es, heq, hneutral, hT⟩ := hdoes t.host l
    exact ⟨_, heq, ⟨es, rfl, _, rfl, hT⟩, hB.timely, fun hlt => (hB.fresh hlt).append hneutral⟩
  rw [instrs_one, instrs_one]
  refine mirrors_bind hcalled fun stack => mirrors_pure fun t l hs => since_mono ?_ hs
  rintro h es h' ⟨outs, rfl, hT⟩
  exact ⟨outs, rfl, hT⟩

/-- A function of the host that does not ask the engine. -/
theorem does_silently {i : Import} {lanes : List Lane} {T : List Lane → Tale}
    (hbeside : ∀ (w : World σ) (l : Chronicle),
      Host.run (e.recording Deed.ofRequest) p i lanes (w.joined l) =
        ((Host.run e p i lanes w).1, (Host.run e p i lanes w).2.joined l))
    (hT : ∀ w : World σ,
      T (Host.run e p i lanes w).1 w.holdings [] (Host.run e p i lanes w).2.holdings) :
    Does e p i lanes T := by
  refine fun w l => ⟨[], ?_, fun d hd => absurd hd List.not_mem_nil, hT w⟩
  rw [List.append_nil]
  exact hbeside w l

theorem does_deferLate (hid : id < 4294967296) (hkind : n.kind = .statement .lateUpdate) :
    Does e p .deferLate [.i32 (Int32.ofNat id)] fun _ => Special id n := by
  refine does_silently (fun _ _ => rfl) fun w => ?_
  show Special id n w.holdings [] (w.queue (Host.idOf (Int32.ofNat id))).holdings
  rw [toNat_ofNat hid]
  exact .late hkind

theorem does_getSlot {slot : SlotId} (hslot : slot < 4294967296) :
    Does e p (.getSlot .word) [.i32 (Int32.ofNat slot)] fun outs h es h' =>
      outs = [.i32 (h.slots.get slot).asInt32] ∧ Tale.stay h es h' := by
  refine does_silently (fun _ _ => rfl) fun w => ⟨?_, rfl, rfl⟩
  show [Lane.i32 (w.slots.get (Host.idOf (Int32.ofNat slot))).asInt32] = _
  rw [toNat_ofNat hslot]
  rfl

theorem does_setSlot {slot : SlotId} (hslot : slot < 4294967296) {decl : Slot}
    (hdecl : p.slots[slot]? = some decl) (htype : decl.type = .bool) :
    Does e p (.setSlot .word) [.i32 (Int32.ofNat slot), .i32 1] fun _ h es h' =>
      es = [] ∧ h' = h.setSlot slot (.bool true) := by
  refine does_silently (fun _ _ => rfl) fun w => ⟨rfl, ?_⟩
  show (Host.writeSlot p .word (Int32.ofNat slot) [.i32 1] w).holdings = _
  unfold Host.writeSlot
  rw [toNat_ofNat hslot, hdecl]
  dsimp only
  rw [htype]
  rfl

/-- A variable is set if the first two lanes point to one. -/
theorem does_setVariable (f : Format) (var index : Lane) (lanes : List Lane) :
    Does e p (.setVariable f) (var :: index :: lanes) fun _ h es h' => es = [] ∧
      ((∃ q v, Lanes.toPointer var.asInt index.asInt = some q ∧ h' = h.setVariable q v) ∨
        h' = h) := by
  refine does_silently (fun w l => ?_) fun w => ⟨rfl, ?_⟩
  · exact congrArg (Prod.mk []) (Host.beside_writeVariable p f _ _ lanes w l)
  · show (∃ q v, _ ∧ (Host.writeVariable p f var.asInt index.asInt lanes w).holdings = _) ∨
      (Host.writeVariable p f var.asInt index.asInt lanes w).holdings = _
    unfold Host.writeVariable
    cases Lanes.toPointer var.asInt index.asInt with
    | none => exact .inr rfl
    | some q => exact .inl ⟨q, _, rfl, rfl⟩

theorem does_menuItem (hid : id < 4294967296) (hget : p.nodes[id]? = some n)
    (var index picture : Lane) :
    Does e p .menuItem [.i32 (Int32.ofNat id), var, index, picture] fun _ h es h' =>
      h' = h ∧ ∃ count shown, es = n.registration count shown := by
  have hrun : ∀ {τ : Type} (e : Engine τ) (w : World τ),
      Host.run e p .menuItem [.i32 (Int32.ofNat id), var, index, picture] w =
        ([], (Host.menuItem e p (Int32.ofNat id) var.asInt index.asInt picture.asInt w).2) :=
          fun _ _ => rfl
  intro w l
  rw [hrun, hrun]
  unfold Host.menuItem Node.registration
  rw [toNat_ofNat hid, hget, Option.map_some]
  cases n.constant with
  | menu name maxCount priceStep =>
    exact ⟨[.registered _ _ name maxCount priceStep], rfl,
      fun d hd => List.mem_singleton.mp hd ▸ rfl, rfl, _, _, rfl⟩
  | _ =>
    refine ⟨[], ?_, fun d hd => absurd hd List.not_mem_nil, rfl, none, 0, rfl⟩
    rw [List.append_nil]
    rfl

theorem localGets_stuck {τ : Type} {call : Nat → List Lane → Exec τ (List Lane)}
    {t : Machine τ} {i : Nat}
    (hnone : t.locals[i]? = none) : ∀ {is : List Nat}, i ∈ is → ∀ (rest : Code) (s : List Lane),
      instrs call (getLocals is ++ rest) s t = .error .stuck t
  | j :: is, hmem, rest, s => by
    have hget : ∀ lane, t.locals[j]? = some lane → instr call (.localGet j) s t =
        .ok (.next (lane :: s)) t := by
      intro lane hj
      show EStateM.bind (orStuck t.locals[j]?) (fun lane => push lane s) t = _
      rw [EStateM.bind, hj]
      rfl
    have hcons : getLocals (j :: is) ++ rest = .localGet j :: (getLocals is ++ rest) := rfl
    cases hj : t.locals[j]? with
    | some lane =>
      rcases List.mem_cons.mp hmem with rfl | hmem
      · cases hnone.symm.trans hj
      · rw [hcons, instrs_next (hget lane hj)]
        exact localGets_stuck hnone hmem rest _
    | none =>
      rw [hcons]
      show EStateM.bind (EStateM.bind (orStuck t.locals[j]?) (fun lane => push lane s)) _ t = _
      unfold EStateM.bind
      rw [hj]
      rfl

/-- Lanes that go into locals come back from them, as often as they are read. -/
theorem returns_spilled {τ : Type} {call : Nat → List Lane → Exec τ (List Lane)} {is : List Nat}
    {lanes : List Lane} (hnodup : is.Nodup) (hlen : is.length = lanes.length) (s : List Lane) :
    Returns (instrs call (is.reverse.map .localSet ++ (getLocals is ++ getLocals is))
      (lanes.reverse ++ s)) fun outcome =>
        outcome = .next (lanes.reverse ++ (lanes.reverse ++ s)) := by
  intro t outcome t' hrun
  rw [instrs_append (runs_localSets hlen)] at hrun
  by_cases hbound : ∀ i ∈ is, i < t.locals.size
  · have hholds : Holds (putAll t.locals is lanes) is lanes := holds_putAll hlen hnodup hbound
    have htwice : instrs call _ s _ = _ :=
      runs_append (runs_localGets (t := { t with locals := putAll t.locals is lanes }) hholds)
        (runs_localGets hholds)
    rw [getLocals, htwice] at hrun
    cases hrun
    rfl
  · obtain ⟨i, hi, hsize⟩ : ∃ i ∈ is, ¬i < t.locals.size := by
      simpa only [not_forall, exists_prop] using hbound
    have hnone : (putAll t.locals is lanes)[i]? = none := by
      rw [Array.getElem?_eq_none_iff, size_putAll]
      exact Nat.le_of_not_lt hsize
    rw [localGets_stuck hnone hi] at hrun
    cases hrun

/-- Lanes on the stack go into locals of their own. -/
theorem pairs_spilled {types : List LaneType} {f' f : List Nat × Code → Emit Code}
    {R : Code → Code → Prop}
    (hf : ∀ is : List Nat, is.Nodup → is.length = types.length →
      Pairs (f' (is, is.reverse.map .localSet)) (f (is, is.reverse.map .localSet)) R) :
    Pairs (spill types >>= f') (spill types >>= f) R := fun l =>
  parallels_spill (hf _ List.nodup_range' List.length_range' _)

/-! ## Variables -/

def Assigning (q : Option Pointer) : Tale := fun h es h' =>
  es = [] ∧ ((∃ target v, q = some target ∧ h' = h.setVariable target v) ∨ h' = h)

/-- The pointer lies below the lanes of the value. -/
theorem tells_assign (h : Tends e p c frames call' call) {f : Format}
    (hi : Import.setVariable f ∈ Import.table) (var index : Lane) {lanes : List Lane}
    (hlen : lanes.length = f.lanes.length) (s : List Lane) :
    Tells p frames (Ending (Assigning (Lanes.toPointer var.asInt index.asInt)))
      (instrs call' [callImport (.setVariable f)] (lanes.reverse ++ (index :: var :: s)))
      (instrs call [callImport (.setVariable f)] (lanes.reverse ++ (index :: var :: s))) := by
  have hstack : lanes.reverse ++ (index :: var :: s) = (var :: index :: lanes).reverse ++ s := by
    simp only [List.reverse_cons, List.append_assoc, List.cons_append, List.nil_append]
  have hcount : (var :: index :: lanes).length = (Import.setVariable f).type.params.length :=
    congrArg (· + 2) hlen
  rw [hstack]
  refine Tells.mono (h.hosts.tells (does_setVariable f var index lanes) hi hcount s) ?_
  rintro outcome h es h' ⟨outs, rfl, hT⟩
  exact ⟨⟨_, rfl⟩, hT⟩

/-- The pointer that a statement writes behind is the one that it has read. -/
theorem Evaluating.exists_read (hn : n.Fits p id) (hkind : n.kind = .statement st)
    (hfollows : st.followsPointer = true) {var index : Lane} {h h' : Holdings} {es : Chronicle}
    (hes : Evaluating p frames id n 0 [var, index] h es h') {q : Pointer}
    (hq : Lanes.toPointer var.asInt index.asInt = some q) :
    ∃ r, .read id 0 r ∈ es ∧ r.pointer? = some q := by
  obtain ⟨pin, hpin, hpointer⟩ := Statement.exists_pointer_input hfollows
  rw [← Node.shape_of_statement hkind] at hpin
  have hdata := Kind.hasDataInputs hn.plain pin (List.mem_of_getElem? hpin)
  have htype : pin.type.isPointer = true := by
    cases htype : pin.type with
    | void => exact absurd htype hdata
    | value b => exact absurd htype (hpointer b)
    | pointer b => rfl
  rcases hn.absent_or_wire hpin hpointer with habsent | ⟨w, hw, hderef⟩
  · cases hes.absent pin hpin htype habsent
    cases hq
  · obtain ⟨r, hr, hlanes⟩ := hes.heard w hw
    obtain ⟨rfl, -⟩ := hlanes hderef
    exact ⟨_, hr, hq⟩

/-- A statement that has read its pointer and then writes behind it. -/
theorem special_of_assigning (hn : n.Fits p id) (hkind : n.kind = .statement st)
    (hfollows : st.followsPointer = true) {var index : Lane} {h h₁ h₂ h₃ : Holdings}
    {a b d : Chronicle} (ha : Evaluating p frames id n 0 [var, index] h a h₁)
    (hb : Tale.quiet h₁ b h₂) (hd : Assigning (Lanes.toPointer var.asInt index.asInt) h₂ d h₃) :
    Special id n h (a ++ (b ++ d)) h₃ := by
  obtain ⟨hquiet, rfl⟩ := ha.quiet
  obtain ⟨hquiet', rfl⟩ := hb
  obtain ⟨rfl, hassigned⟩ := hd
  rw [List.append_nil]
  have hes := quiet_append hquiet hquiet'
  rcases hassigned with ⟨q, v, hq, rfl⟩ | rfl
  · obtain ⟨r, hr, hpointer⟩ := ha.exists_read hn hkind hfollows hq
    exact .pointed hkind hfollows hes (List.mem_append_left _ hr) hpointer
  · exact .missing hkind (.inl hfollows) hes

theorem tells_quietly (h : Tends e p c frames call' call) {T : Outcome → Tale}
    {Q : List Lane → Prop}
    (hcalls : Calls Plain 0 a)
    (ha : Returns (instrs call a s) fun outcome => ∃ s', outcome = .next s' ∧ Q s')
    (hb : ∀ s', Q s' →
      Tells p frames (fun outcome => Tale.quiet.next (T outcome)) (instrs call' b' s')
      (instrs call b s')) :
    Tells p frames (fun outcome => Tale.quiet.next (T outcome)) (instrs call' (a ++ b') s)
      (instrs call (a ++ b) s) := by
  refine tells_append (tells_returns h hcalls ha) (fun _ _ _ _ hT => hT.1) hb ?_
  rintro s' outcome h es h' ⟨x, h₁, y, rfl, ⟨-, hx⟩, u, h₂, v, rfl, hu, hv⟩
  rw [← List.append_assoc]
  exact Tale.next_intro (Tale.quiet_next (Tale.next_intro hx hu)) hv

/-- A number is added to the one on the stack. -/
theorem returns_sum {τ : Type} {call : Nat → List Lane → Exec τ (List Lane)}
    (delta : Binary32) (x : Lane)
    (s : List Lane) :
    Returns (instrs call [number delta, .numeric .f32Add] (x :: s)) fun outcome =>
      ∃ s', outcome = .next s' ∧ ∃ y, s' = y :: s := by
  intro t outcome t' hrun
  cases x with
  | i32 i => cases hrun
  | f32 y =>
    cases hrun
    exact ⟨_, rfl, _, rfl⟩

theorem returns_fetched (hc : Compiled p c) (h : Tends e p c frames call' call) (var index : Lane)
    (s : List Lane) :
    Returns (instrs call [callImport (.getVariable .float)] (index :: var :: s)) fun outcome =>
      ∃ s', outcome = .next s' ∧ ∃ x, s' = x :: s := by
  rw [instrs_one]
  have hpiled : Piled s 2 (index :: var :: s) := ⟨[index, var], rfl, rfl⟩
  refine returns_bind (h.stacked hc (.getVariable .float) (by decide) s _ hpiled) ?_
  rintro _ ⟨top, rfl, htop⟩
  obtain ⟨x, rfl⟩ := List.length_eq_one_iff.mp htop
  exact returns_pure ⟨_, rfl, x, rfl⟩

theorem setVariable_mem {f : Format} : Import.setVariable f ∈ Import.table :=
  mem_table (fun heq => by cases heq) fun heq => by cases heq

section

variable (hp : p.WellFormed) (hc : Compiled p c) (h : Tends e p c frames call' call)
  (hget : p.nodes[id]? = some n) (houtputs : Outputs p frames call' call told produce n)
include hp hc h hget houtputs

theorem pairs_setVariable (hvars : p.vars.length ≤ 2147483648) {type : WireType}
    (hkind : n.kind = .statement (.setVariable type)) :
    Pairs
      (statement (heardCode (target p) told id n) chain' id n.numbered (.setVariable type))
      (statement produce chain id n (.setVariable type))
      (Recounts p frames call' call (Special id n)) := by
  have hn := hp.nodes id n hget
  have hplain := hn.plain
  rw [hkind] at hplain
  obtain ⟨b, rfl⟩ := WireType.isValue_iff.mp hplain
  obtain ⟨var, v, hconstant, hvar, -⟩ := hn.named (.value b) (by rw [hkind]; rfl)
  have hlt : var < 2147483648 := Nat.lt_of_lt_of_le (List.getElem?_eq_some_iff.mp hvar).1 hvars
  have hpin : n.kind.shape.inputs[0]? = some { type := .value b, name := "Value" } := by
    rw [hkind]
    rfl
  have hcode : variablePointer n.constant = [.const (.i32 (Int32.ofNat var)), .const (.i32 0)] := by
    rw [hconstant]
    rfl
  have hnumbered : n.numbered.constant = n.constant := rfl
  unfold statement
  dsimp only
  rw [hnumbered, hcode]
  refine pairs_bind (pairs_operand hp hc h hget houtputs hpin) fun code' code hvalue => ?_
  refine pairs_pure fun s => ?_
  have hassign : ∀ lanes : List Lane, lanes.length = b.lanes.length →
      Tells p frames (fun outcome h es h' => (∃ s', outcome = .next s') ∧ es = [] ∧
          ((∃ v, h' = h.setVariable { var, index := 0 } v) ∨ h' = h))
        (instrs call' [callImport (.setVariable (.ofBase b))]
          (lanes.reverse ++ (.i32 0 :: .i32 (Int32.ofNat var) :: s)))
        (instrs call [callImport (.setVariable (.ofBase b))]
          (lanes.reverse ++ (.i32 0 :: .i32 (Int32.ofNat var) :: s))) := by
    intro lanes hlen
    refine Tells.mono (tells_assign h setVariable_mem (.i32 (Int32.ofNat var)) (.i32 0)
      (by rw [hlen, Format.lanes_ofBase]) s) ?_
    rintro outcome h es h' ⟨hnext, rfl, hassigned⟩
    refine ⟨hnext, rfl, hassigned.imp_left ?_⟩
    rintro ⟨q, v, hq, rfl⟩
    cases (Lanes.toPointer_ofNat hlt 0).symm.trans hq
    exact ⟨v, rfl⟩
  show Tells p frames _
    (instrs call' (code' ++ [callImport (.setVariable (.ofBase b))])
      (.i32 0 :: .i32 (Int32.ofNat var) :: s))
    (instrs call (code ++ [callImport (.setVariable (.ofBase b))])
      (.i32 0 :: .i32 (Int32.ofNat var) :: s))
  refine renders_bind hvalue hassign ?_
  rintro lanes outcome h es h' - ⟨x, h₁, y, rfl, hT, hnext, rfl, hassigned⟩
  obtain ⟨hquiet, rfl⟩ := hT.quiet
  rw [List.append_nil]
  refine ⟨hnext, ?_⟩
  rcases hassigned with ⟨v, rfl⟩ | rfl
  · exact .named hkind (by rw [hconstant]; rfl) hquiet
  · exact .missing hkind (.inr ⟨_, rfl⟩) hquiet

theorem pairs_setPointer {type : WireType} (hkind : n.kind = .statement (.setPointer type)) :
    Pairs
      (statement (heardCode (target p) told id n) chain' id n.numbered (.setPointer type))
      (statement produce chain id n (.setPointer type))
      (Recounts p frames call' call (Special id n)) := by
  have hn := hp.nodes id n hget
  have hplain := hn.plain
  rw [hkind] at hplain
  obtain ⟨b, rfl⟩ := WireType.isValue_iff.mp hplain
  have hfirst : n.kind.shape.inputs[0]? = some { type := .pointer b, name := "Variable" } := by
    rw [hkind]
    rfl
  have hsecond : n.kind.shape.inputs[1]? = some { type := .value b, name := "Value" } := by
    rw [hkind]
    rfl
  unfold statement
  dsimp only
  rw [operands_two, operands_two, bind_assoc, bind_assoc]
  refine pairs_bind (pairs_operand hp hc h hget houtputs hfirst) fun target' target htarget => ?_
  rw [bind_assoc, bind_assoc]
  refine pairs_bind (pairs_operand hp hc h hget houtputs hsecond) fun code' code hvalue => ?_
  refine pairs_pure fun s => ?_
  rw [List.append_assoc, List.append_assoc]
  have hrest : ∀ lanes : List Lane, lanes.length = 2 →
      Tells p frames (fun outcome h es h' => (∃ s', outcome = .next s') ∧
          ∀ h₀ a, Evaluating p frames id n 0 lanes h₀ a h → Special id n h₀ (a ++ es) h')
        (instrs call' (code' ++ [callImport (.setVariable (.ofBase b))]) (lanes.reverse ++ s))
        (instrs call (code ++ [callImport (.setVariable (.ofBase b))]) (lanes.reverse ++ s)) := by
    intro lanes hlen
    obtain ⟨var, index, rfl⟩ := List.length_eq_two.mp hlen
    refine renders_bind hvalue (fun values hvalues => tells_assign h setVariable_mem var index
      (hvalues.trans (congrArg List.length (Format.lanes_ofBase b)).symm) s) ?_
    rintro values outcome h es h' - ⟨x, h₁, y, rfl, hT, hnext, hassigned⟩
    exact ⟨hnext, fun h₀ a ha => special_of_assigning hn hkind rfl ha hT.quiet hassigned⟩
  refine renders_bind htarget hrest ?_
  rintro lanes outcome h es h' - ⟨x, h₁, y, rfl, hT, hnext, hspecial⟩
  exact ⟨hnext, hspecial h x hT⟩

omit hp hget houtputs in
/-- The variable behind the pointer is read, and set to the sum. -/
theorem tells_adjusted (var index : Lane) (delta : Binary32) (s : List Lane) :
    Tells p frames (fun outcome => Tale.quiet.next
        (Ending (Assigning (Lanes.toPointer var.asInt index.asInt)) outcome))
      (instrs call' ([callImport (.getVariable .float)] ++ ([number delta, .numeric .f32Add] ++
        [callImport (.setVariable .float)])) (index :: var :: (index :: var :: s)))
      (instrs call ([callImport (.getVariable .float)] ++ ([number delta, .numeric .f32Add] ++
        [callImport (.setVariable .float)])) (index :: var :: (index :: var :: s))) := by
  have hreads : Calls Plain 0 [callImport (.getVariable .float)] :=
    calls_callImport ⟨_, by decide, rfl, rfl⟩
  have hadds : Calls Plain 0 [number delta, .numeric .f32Add] :=
    calls_cons (fun _ => trivial) (calls_cons (fun _ => trivial) calls_nil)
  refine tells_quietly h hreads (returns_fetched hc h var index (index :: var :: s)) ?_
  rintro _ ⟨x, rfl⟩
  refine tells_quietly h hadds (returns_sum delta x (index :: var :: s)) ?_
  rintro _ ⟨y, rfl⟩
  have hlen : [y].length = Format.float.lanes.length := rfl
  refine Tells.mono (tells_assign h setVariable_mem var index hlen s) ?_
  intro outcome h es h' hT
  have hnothing : Tale.quiet h [] h := ⟨quiet_nil, rfl⟩
  exact Tale.next_intro hnothing hT

theorem pairs_adjust_told (hkind : n.kind = .statement st) (hfollows : st.followsPointer = true)
    (hpin : n.kind.shape.inputs[0]? = some { type := .pointer .float, name := "Variable" })
    (delta : Binary32) :
    Pairs (adjust (heardCode (target p) told id n) n.numbered delta) (adjust produce n delta)
      (Recounts p frames call' call (Special id n)) := by
  have hn := hp.nodes id n hget
  refine pairs_bind (pairs_operand hp hc h hget houtputs hpin) fun target' target htarget => ?_
  refine pairs_spilled fun is hnodup hlen => pairs_pure fun s => ?_
  have hrest : ∀ lanes : List Lane, lanes.length = 2 →
      Tells p frames (fun outcome h es h' => (∃ s', outcome = .next s') ∧
          ∀ h₀ a, Evaluating p frames id n 0 lanes h₀ a h → Special id n h₀ (a ++ es) h')
        (instrs call' ((is.reverse.map .localSet ++ (getLocals is ++ getLocals is)) ++
          ([callImport (.getVariable .float)] ++ ([number delta, .numeric .f32Add] ++
            [callImport (.setVariable .float)]))) (lanes.reverse ++ s))
        (instrs call ((is.reverse.map .localSet ++ (getLocals is ++ getLocals is)) ++
          ([callImport (.getVariable .float)] ++ ([number delta, .numeric .f32Add] ++
            [callImport (.setVariable .float)]))) (lanes.reverse ++ s)) := by
    intro lanes hlanes
    obtain ⟨var, index, rfl⟩ := List.length_eq_two.mp hlanes
    have hspills : Calls Plain 0 (is.reverse.map .localSet ++ (getLocals is ++ getLocals is)) :=
      calls_append (calls_map fun _ _ _ => Nat.zero_le _)
        (calls_append (calls_getLocals is) (calls_getLocals is))
    have hspilled :
      Returns (instrs call (is.reverse.map .localSet ++ (getLocals is ++ getLocals is))
        ([var, index].reverse ++ s)) fun outcome => ∃ s', outcome = .next s' ∧
          s' = index :: var :: index :: var :: s := fun t outcome t' hrun =>
      ⟨_, returns_spilled hnodup (hlen.trans hlanes.symm) s t outcome t' hrun, rfl⟩
    refine Tells.mono (tells_quietly h hspills hspilled
      fun s' hs' => hs'.symm ▸ tells_adjusted hc h var index delta s) ?_
    rintro outcome h es h' ⟨x, h₁, y, rfl, hx, hnext, hassigned⟩
    exact ⟨hnext, fun h₀ a ha => special_of_assigning hn hkind hfollows ha hx hassigned⟩
  have hall := renders_bind htarget hrest (W := Ending (Special id n)) ?_
  · simpa only [List.append_assoc, List.cons_append, List.nil_append] using hall
  · rintro lanes outcome h es h' - ⟨x, h₁, y, rfl, hT, hnext, hspecial⟩
    exact ⟨hnext, hspecial h x hT⟩

end

/-! ## Menu items -/

theorem tells_when {x : Int32}
    (hbody : Tells p frames (Ending T) (instrs call' a' []) (instrs call a [])) :
    Tells p frames (Ending (if x = 0 then .stay else T)) (instrs call' [.when a'] (.i32 x :: s))
      (instrs call [.when a] (.i32 x :: s)) := by
  rw [instrs_one, instrs_one]
  by_cases hx : x = 0
  · subst hx
    exact tells_pure fun h => ⟨⟨s, rfl⟩, rfl, rfl⟩
  · have hwhen : ∀ {τ : Type} (call : Nat → List Lane → Exec τ (List Lane)) (a : Code),
        instr call (.when a) (.i32 x :: s) = do return leave s (← instrs call a []) := by
      intro τ call a
      exact if_pos (bne_iff_ne.mpr hx)
    rw [hwhen, hwhen, if_neg hx]
    refine tells_bind (V := fun outcome last h es h' => last = leave s outcome ∧ Tale.stay h es h')
      hbody (fun outcome => tells_pure fun h => ⟨rfl, rfl, rfl⟩) ?_
    rintro outcome _ h es h' ⟨x, h₁, y, rfl, ⟨⟨s', rfl⟩, hT⟩, rfl, rfl, rfl⟩
    rw [List.append_nil]
    exact ⟨⟨_, rfl⟩, hT⟩

/-- What is asked of the engine comes before the slot is set. -/
theorem tells_registered (h : Tends e p c frames call' call) (hid : id < 4294967296)
    (hget : p.nodes[id]? = some n) {slot : SlotId} (hslot : slot < 4294967296) {decl : Slot}
    (hdecl : p.slots[slot]? = some decl) (htype : decl.type = .bool) (var index picture : Lane) :
    Tells p frames (Ending (Registers id n slot []))
      (instrs call' ([callImport .menuItem] ++
        [Compiler.id slot, int 1, callImport (.setSlot .word)])
          [picture, index, var, .i32 (Int32.ofNat id)])
      (instrs call ([callImport .menuItem] ++
        [Compiler.id slot, int 1, callImport (.setSlot .word)])
          [picture, index, var, .i32 (Int32.ofNat id)]) := by
  have hask : Tells p frames _ _ _ :=
    h.hosts.tells (does_menuItem hid hget var index picture) (by decide) rfl []
  refine tells_append (Q := fun _ => True)
    (V := fun _ => Ending fun h es h' => es = [] ∧ h' = h.setSlot slot (.bool true)) hask ?_ ?_ ?_
  · rintro outcome h es h' ⟨outs, rfl, -⟩
    exact ⟨_, rfl, trivial⟩
  · intro s' _
    have hset : Tells p frames _ _ _ :=
      h.hosts.tells (does_setSlot hslot hdecl htype) (by decide) rfl s'
    refine Tells.mono hset ?_
    rintro outcome h es h' ⟨outs, rfl, hT⟩
    exact ⟨⟨_, rfl⟩, hT⟩
  · rintro s' outcome h es h' ⟨a, h₁, b, rfl, ⟨outs, -, rfl, count, picture, rfl⟩, hnext, rfl, rfl⟩
    refine ⟨hnext, rfl, [], count, picture, List.append_nil _, quiet_nil, ?_⟩
    exact fun i hi => absurd hi List.not_mem_nil

/-- The slot tells whether the menu item has been registered. -/
theorem recounts_unregistered (h : Tends e p c frames call' call)
    (hkind : n.kind = .statement .menuItem)
    {slot : SlotId} (hget : n.slot 0 = .ok slot) (hslot : slot < 4294967296)
    (hbody : Tells p frames (Ending (Registers id n slot [0, 1])) (instrs call' a' [])
      (instrs call a [])) :
    Recounts p frames call' call (Special id n)
      [Compiler.id slot, callImport (.getSlot .word), .numeric .i32Eqz, .when a']
      [Compiler.id slot, callImport (.getSlot .word), .numeric .i32Eqz, .when a] := by
  intro s
  have htest : Tells p frames
      (Returning s fun outs h es h' => outs = [.i32 (h.slots.get slot).asInt32] ∧ Tale.stay h es h')
      (instrs call' [callImport (.getSlot .word)] (.i32 (Int32.ofNat slot) :: s))
      (instrs call [callImport (.getSlot .word)] (.i32 (Int32.ofNat slot) :: s)) :=
    h.hosts.tells (does_getSlot hslot) (by decide) rfl s
  refine tells_append (Q := fun s' => ∃ x, s' = .i32 x :: s)
    (V := fun s' outcome h es h' => ∃ x, s' = .i32 x :: s ∧
      Ending (if (if x == 0 then 1 else 0 : Int32) = 0 then .stay else Registers id n slot
        [0, 1]) outcome h
        es h') htest ?_ ?_ ?_
  · rintro _ h es h' ⟨_, rfl, rfl, -⟩
    exact ⟨_, rfl, _, rfl⟩
  · rintro _ ⟨x, rfl⟩
    have heqz : ∀ {τ : Type} (call : Nat → List Lane → Exec τ (List Lane)) (a : Code),
        instrs call [.numeric .i32Eqz, .when a] (.i32 x :: s) =
          instrs call [.when a] (.i32 (if x == 0 then 1 else 0) :: s) := fun _ _ => rfl
    rw [heqz, heqz]
    exact Tells.mono (tells_when hbody) fun _ _ _ _ hT => ⟨x, rfl, hT⟩
  · rintro s' outcome held es held' ⟨_, h₁, y, rfl, ⟨_, heq, rfl, rfl, rfl⟩, x, rfl, hnext, hT⟩
    refine ⟨hnext, ?_⟩
    cases heq
    by_cases hzero : (h₁.slots.get slot).asInt32 = 0
    · rw [hzero] at hT
      obtain ⟨rfl, es', count, picture, rfl, hquiet, hheard⟩ := hT
      refine .first hkind hget (fun htrue => ?_) hquiet fun i hi => hheard i ?_
      · rw [htrue] at hzero
        cases hzero
      · simp only [List.mem_cons, List.not_mem_nil]
        omega
    · rw [beq_false_of_ne hzero] at hT
      obtain ⟨rfl, rfl⟩ := hT
      refine .again hkind hget fun hfalse => hzero ?_
      rw [hfalse]
      rfl

/-- A menu item is registered unless its slot tells that it has been. -/
theorem pairs_menuItem_told (hp : p.WellFormed) (hc : Compiled p c)
    (h : Tends e p c frames call' call)
    (hget : p.nodes[id]? = some n) (houtputs : Outputs p frames call' call told produce n)
    (hid : id < 4294967296) (hfit : p.slots.length ≤ 4294967296)
    (hkind : n.kind = .statement .menuItem) :
    Pairs (menuItem (heardCode (target p) told id n) id n.numbered) (menuItem produce id n)
      (Recounts p frames call' call (Special id n)) := by
  have hn := hp.nodes id n hget
  obtain ⟨slot, hslot, hdecl⟩ := hn.slots 0 "registered" .bool (by rw [hkind]; rfl)
  have hlt : slot < 4294967296 :=
    Nat.lt_of_lt_of_le (List.getElem?_eq_some_iff.mp hdecl).1 hfit
  have hfirst : n.kind.shape.inputs[0]? =
      some { type := .pointer .float, name := "Variable", optional := true } := by
    rw [hkind]
    rfl
  have hsecond : n.kind.shape.inputs[1]? = some { type := .value .obj, name := "Picture" } := by
    rw [hkind]
    rfl
  have hnumbered : n.numbered.slot 0 = n.slot 0 := rfl
  unfold menuItem
  rw [hnumbered, operands_two, operands_two]
  refine pairs_lift fun slot' hslot' => ?_
  cases (Node.slot_eq_ok hslot).symm.trans hslot'
  rw [bind_assoc, bind_assoc]
  refine pairs_bind (pairs_operand hp hc h hget houtputs hfirst) fun count' count hcount => ?_
  rw [bind_assoc, bind_assoc]
  refine pairs_bind (pairs_operand hp hc h hget houtputs hsecond) fun code' code hpicture => ?_
  refine pairs_pure fun s => ?_
  have hpictured : ∀ lanes : List Lane, lanes.length = 2 →
      Tells p frames (Ending (Registers id n slot [1]))
        (instrs call' (code' ++ ([callImport .menuItem] ++
          [Compiler.id slot, int 1, callImport (.setSlot .word)]))
          (lanes.reverse ++ [.i32 (Int32.ofNat id)]))
        (instrs call (code ++ ([callImport .menuItem] ++
          [Compiler.id slot, int 1, callImport (.setSlot .word)]))
          (lanes.reverse ++ [.i32 (Int32.ofNat id)])) := by
    intro lanes hlanes
    obtain ⟨var, index, rfl⟩ := List.length_eq_two.mp hlanes
    refine renders_bind (V := fun _ => Ending (Registers id n slot [])) hpicture
      (fun pictures hlen => ?_) ?_
    · obtain ⟨picture, rfl⟩ := List.length_eq_one_iff.mp hlen
      exact tells_registered h hid hget hlt hdecl rfl var index picture
    · rintro pictures outcome h es h' - ⟨x, h₁, y, rfl, hT, hnext, hregisters⟩
      exact ⟨hnext, hregisters.after hT.quiet hT.reads⟩
  have hbody : Tells p frames (Ending (Registers id n slot [0, 1]))
      (instrs call' (Compiler.id id :: (count' ++ (code' ++ ([callImport .menuItem] ++
        [Compiler.id slot, int 1, callImport (.setSlot .word)])))) [])
      (instrs call (Compiler.id id :: (count ++ (code ++ ([callImport .menuItem] ++
        [Compiler.id slot, int 1, callImport (.setSlot .word)])))) []) := by
    refine renders_bind (V := fun _ => Ending (Registers id n slot [1])) hcount hpictured ?_
    rintro lanes outcome h es h' - ⟨x, h₁, y, rfl, hT, hnext, hregisters⟩
    exact ⟨hnext, hregisters.after hT.quiet hT.reads⟩
  have hall := recounts_unregistered h hkind (Node.slot_eq_ok hslot) hlt hbody s
  simpa only [List.append_assoc, List.cons_append, List.nil_append] using hall

/-! ## Statements that do more -/

theorem recounts_lateUpdate (hid : id < 4294967296) (h : Tends e p c frames call' call)
    (hkind : n.kind = .statement .lateUpdate) :
    Recounts p frames call' call (Special id n) [Compiler.id id, callImport .deferLate]
      [Compiler.id id, callImport .deferLate] := by
  intro s
  refine Tells.mono (h.hosts.tells (does_deferLate hid hkind) (by decide) rfl s) ?_
  rintro outcome h es h' ⟨outs, rfl, hT⟩
  exact ⟨⟨_, rfl⟩, hT⟩

section

variable (hp : p.WellFormed) (hfit : p.Addressable) (hc : Compiled p c)
  (h : Tends e p c frames call' call) (hget : p.nodes[id]? = some n)
include hp hfit hc h hget

theorem pairs_special (hkind : n.kind = .statement st) (hspecial : st.special = true)
    (houtputs : Outputs p frames call' call told produce n) :
    Pairs (statement (heardCode (target p) told id n) chain' id n.numbered st)
      (statement produce chain id n st) (Recounts p frames call' call (Special id n)) := by
  have hid : id < 4294967296 :=
    Nat.lt_of_lt_of_le (Array.getElem?_eq_some_iff.mp hget).1 hfit.nodes
  cases st with
  | lateUpdate => exact pairs_pure (recounts_lateUpdate hid h hkind)
  | menuItem => exact pairs_menuItem_told hp hc h hget houtputs hid hfit.slots hkind
  | setVariable type => exact pairs_setVariable hp hc h hget houtputs hfit.vars hkind
  | setPointer type => exact pairs_setPointer hp hc h hget houtputs hkind
  | increment => exact pairs_adjust_told hp hc h hget houtputs hkind rfl (by rw [hkind]; rfl) 1
  | decrement => exact pairs_adjust_told hp hc h hget houtputs hkind rfl (by rw [hkind]; rfl) (-1)
  | _ => cases hspecial

/-- What a statement tells, from where it begins to where it ends. -/
theorem pairs_toldStatement (site : Site) (howns : p.Owns id n) (hkind : n.kind = .statement st)
    (hchain : ∀ ids ∈ n.controls,
      Pairs (chain' ids) (chain ids) (Recounts p frames call' call (Ran p ids))) :
    Pairs ((telling (target p)).statement (target p) site chain' id n st)
      (statement (Compiler.produce p (p.nodes.size + 1)) chain id n st)
      (Recounts p frames call' call (Performed p id)) := by
  have houtputs := outputs_produce hp hfit.vars hc h hget
  have hstatement : Pairs
      (statement (heardCode (target p) (toldProduce (target p) (p.nodes.size + 1)) id n)
        ((telling (target p)).branches chain' id) id n.numbered st)
      (statement (Compiler.produce p (p.nodes.size + 1)) chain id n st)
      (Recounts p frames call' call fun h es h' =>
        n.Ordinary ∧ Steps p id n h es h' ∨ Special id n h es h') := by
    cases hspecial : st.special with
    | true =>
      refine Pairs.mono (pairs_special hp hfit hc h hget hkind hspecial houtputs) fun _ _ => ?_
      exact fun hcode => recounts_mono hcode fun _ _ _ hT => .inr hT
    | false =>
      have hpairs := pairs_ordinary hp hfit.slots hc h hget howns hkind hspecial houtputs
        (coded_produce hp (hp.nodes id n hget)) hchain
      exact hpairs.mono fun _ _ hcode => recounts_mono hcode fun _ _ _ hT =>
        .inl ⟨⟨st, hkind, hspecial⟩, hT⟩
  refine fun l => (hstatement l).map fun _ code' code hcode => ?_
  have hleft : Recounts p frames call' call (fun h es h' => es = [.left id] ∧ h' = h)
      [(target p).told (.left id)] [] :=
    recounts_told h (.left id) (fun _ => rfl) rfl (recounts_nil (T := .stay) fun _ => ⟨rfl, rfl⟩)
      fun _ _ _ ⟨hes, heq⟩ => ⟨congrArg _ hes, heq⟩
  have hall := recounts_append hcode hleft
  rw [List.append_nil] at hall
  refine recounts_told h (.entered id) (fun _ => rfl) rfl hall ?_
  rintro _ _ _ ⟨es, _, _, rfl, hes, rfl, rfl⟩
  exact ⟨n, es, hget, rfl, hes⟩

end

end Compiler
end SignalGraph
