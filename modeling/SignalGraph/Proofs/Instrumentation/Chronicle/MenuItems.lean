import SignalGraph.Proofs.Instrumentation.Chronicle.LateUpdates

/-!
# Menu items

A menu item is registered when it is first executed, after its inputs have been read, and never
again. The slot that remembers it belongs to the node alone, so it tells whether the node was
executed before.
-/

namespace SignalGraph

variable {σ : Type} {p : Program}

namespace Program

def IsMenuItem (p : Program) (id : NodeId) (n : Node) : Prop :=
  p.nodes[id]? = some n ∧ n.kind = .statement .menuItem

end Program

/-- What an execution of a menu item does, by what was done before and what is done after it
begins. -/
inductive Node.Registers (id : NodeId) (n : Node) (before : Chronicle) : Chronicle → Prop
  /-- At the first one its inputs are read, and it is registered. -/
  | first {es rest : Chronicle} {count : Option VariableRef} {picture : ObjectId} {name : String}
    {maxCount priceStep : Int32} :
    .entered id ∉ before → n.constant = .menu name maxCount priceStep → es.Quiet →
    (∀ i < 2, n.Heard id i es) →
    Registers id n before
      (es ++ .registered count picture name maxCount priceStep :: .left id :: rest)
  /-- At every other one nothing is done. -/
  | again {rest : Chronicle} : .entered id ∈ before → Registers id n before (.left id :: rest)

theorem Node.Registers.append {id : NodeId} {n : Node} {before after : Chronicle}
    (h : n.Registers id before after) (es : Chronicle) : n.Registers id before (after ++ es) := by
  cases h with
  | first hbefore hconstant hquiet hheard =>
    rw [List.append_assoc]
    exact .first hbefore hconstant hquiet hheard
  | again hbefore => exact .again hbefore

namespace Chronicle

/-- Every menu item is registered when it is first executed, and no other time; and nothing else is
registered. -/
structure RegistersOnce (p : Program) (l : Chronicle) : Prop where
  executions : ∀ (before : Chronicle) (id : NodeId) (n : Node) (after : Chronicle),
    l = before ++ .entered id :: after → p.IsMenuItem id n → n.Registers id before after
  registrations : ∀ (before : Chronicle) (count : Option VariableRef) (picture : ObjectId)
    (name : String)
    (maxCount priceStep : Int32) (after : Chronicle),
    l = before ++ .registered count picture name maxCount priceStep :: after →
    ∃ (first : Chronicle) (id : NodeId) (n : Node) (es rest : Chronicle), p.IsMenuItem id n ∧
      n.constant = .menu name maxCount priceStep ∧ before =
        first ++ .entered id :: es ∧ .entered id ∉ first ∧ es.Quiet ∧ after = .left id :: rest

variable {l es : Chronicle}

theorem registersOnce_nil : RegistersOnce p [] where
  executions before _ _ _ heq :=
    absurd heq.symm (List.append_ne_nil_of_right_ne_nil before (List.cons_ne_nil _ _))
  registrations before _ _ _ _ _ _ heq :=
    absurd heq.symm (List.append_ne_nil_of_right_ne_nil before (List.cons_ne_nil _ _))

theorem RegistersOnce.append (h : l.RegistersOnce p)
    (hexecutions : ∀ (before : Chronicle) (id : NodeId) (n : Node) (after : Chronicle),
      es = before ++ .entered id :: after → p.IsMenuItem id n → n.Registers id (l ++ before) after)
    (hregistrations : ∀ (before : Chronicle) (count : Option VariableRef) (picture : ObjectId)
      (name : String) (maxCount priceStep : Int32) (after : Chronicle),
      es = before ++ .registered count picture name maxCount priceStep :: after →
      ∃ (id : NodeId) (n : Node) (es' rest : Chronicle), p.IsMenuItem id n ∧
        n.constant = .menu name maxCount priceStep ∧ before = .entered id :: es' ∧ .entered id ∉ l ∧
          es'.Quiet ∧ after = .left id :: rest) :
    RegistersOnce p (l ++ es) where
  executions before id n after heq hn := by
    rcases split_append heq with ⟨rest, rfl, rfl⟩ | ⟨first, rfl, rfl⟩
    · exact (h.executions before id n rest rfl hn).append es
    · exact hexecutions first id n after rfl hn
  registrations before count picture name maxCount priceStep after heq := by
    rcases split_append heq with ⟨rest, rfl, rfl⟩ | ⟨first, rfl, rfl⟩
    · obtain ⟨first, id, n, es', rest', hn, hconstant, hbefore, hfirst, hquiet, rfl⟩ :=
        h.registrations _ _ _ _ _ _ _ rfl
      exact ⟨first, id, n, es', rest' ++ es, hn, hconstant, hbefore, hfirst, hquiet, rfl⟩
    · obtain ⟨id, n, es', rest, hn, hconstant, rfl, hfirst, hquiet, rfl⟩ :=
        hregistrations _ _ _ _ _ _ _ rfl
      exact ⟨l, id, n, es', rest, hn, hconstant, rfl, hfirst, hquiet, rfl⟩

end Chronicle

/-! ## Slots -/

theorem SlotStore.get_empty {p : Program} {slot : SlotId} {decl : Slot}
    (h : p.slots[slot]? = some decl) :
    (empty p).get slot = decl.type.default := by
  unfold get empty ofTypes
  rw [Array.getD_eq_getD_getElem?, List.getElem?_toArray, List.getElem?_map, List.getElem?_map, h]
  rfl

theorem SlotStore.get_set {s : SlotStore} {slot : SlotId} (h : slot < s.values.size) (v : Value) :
    (s.set slot v).get slot = v := by
  unfold get set
  rw [Array.getD_eq_getD_getElem?, Array.getElem?_setIfInBounds_self_of_lt h, Option.getD_some]

/-- The slot of a menu item tells whether it was executed. -/
structure Program.Remembers (p : Program) (l : Chronicle) (h : Holdings) : Prop where
  once : l.RegistersOnce p
  size : h.slots.values.size = p.slots.length
  slot : ∀ (id : NodeId) (n : Node) (slot : SlotId), p.IsMenuItem id n → n.slot 0 = .ok slot →
    h.slots.get slot = .bool (decide (id ∈ l.executed))

namespace Program

open Chronicle

variable {l es : Chronicle} {h h' : Holdings} {id : NodeId} {n : Node}

/-- What executes no menu item and sets no slot of one. -/
theorem Remembers.skip (hl : p.Remembers l h)
    (hes : ∀ d ∈ es, ∀ count picture name maxCount priceStep,
      d ≠ .registered count picture name maxCount priceStep)
    (hentered : ∀ id n, p.IsMenuItem id n → .entered id ∉ es)
    (hsize : h'.slots.values.size = h.slots.values.size)
    (hslots : ∀ id n slot, p.IsMenuItem id n → n.slot 0 = .ok slot →
      h'.slots.get slot = h.slots.get slot) : p.Remembers (l ++ es) h' where
  once := by
    refine hl.once.append (fun before id n after heq hn => ?_)
      fun before count picture name maxCount priceStep after heq => ?_
    · exact absurd (heq ▸ List.mem_append_right _ List.mem_cons_self) (hentered id n hn)
    · exact absurd rfl (hes _ (heq ▸ List.mem_append_right _ List.mem_cons_self) _ _ _ _ _)
  size := hsize.trans hl.size
  slot id n slot hn hslot := by
    have hnot : id ∉ es.executed := fun hmem => hentered id n hn (mem_executed.mp hmem)
    have hiff : id ∈ (l ++ es).executed ↔ id ∈ l.executed := by
      rw [executed_append, List.mem_append, or_iff_left hnot]
    rw [hslots id n slot hn hslot, hl.slot id n slot hn hslot, decide_eq_decide.mpr hiff]

theorem Remembers.quiet (hl : p.Remembers l h) (hes : es.Quiet) : p.Remembers (l ++ es) h := by
  refine hl.skip (fun d hd => ?_) (fun id n _ => hes.not_entered id) rfl fun _ _ _ _ _ => rfl
  rintro count picture name maxCount priceStep rfl
  cases hes _ hd

theorem Remembers.concat (hl : p.Remembers l h) {d : Deed}
    (hentered : ∀ id n, p.IsMenuItem id n → d ≠ .entered id)
    (hregistered : ∀ count picture name maxCount priceStep,
      d ≠ .registered count picture name maxCount priceStep) : p.Remembers (l ++ [d]) h :=
  hl.skip (fun _ hd => List.mem_singleton.mp hd ▸ hregistered)
    (fun id n hn hmem => hentered id n hn (List.mem_singleton.mp hmem).symm) rfl
      fun _ _ _ _ _ => rfl

theorem Remembers.other (hl : p.Remembers l h) (hnot : ∀ n, ¬p.IsMenuItem id n) (hes : es.Quiet)
    (hslots : h'.slots = h.slots) : p.Remembers (l ++ (.entered id :: es ++ [.left id])) h' := by
  refine hl.skip (fun d hd => ?_) (fun id' n' hn' hmem => ?_) (by rw [hslots])
    fun _ _ _ _ _ => by rw [hslots]
  · rintro count picture name maxCount priceStep rfl
    rcases List.mem_append.mp hd with hd | hd
    · rcases List.mem_cons.mp hd with hd | hd
      · cases hd
      · cases hes _ hd
    · cases List.mem_singleton.mp hd
  · rcases List.mem_append.mp hmem with hmem | hmem
    · rcases List.mem_cons.mp hmem with hmem | hmem
      · cases hmem
        exact hnot n' hn'
      · exact hes.not_entered id' hmem
    · cases List.mem_singleton.mp hmem

/-- A menu item that has been registered. -/
theorem Remembers.again (hl : p.Remembers l h) (hmem : id ∈ l.executed) :
    p.Remembers (l ++ [.entered id, .left id]) h where
  once := by
    refine hl.once.append (fun before id' n' after heq hn' => ?_)
      fun before count picture name maxCount priceStep after heq => ?_
    · obtain ⟨rfl, rfl, rfl⟩ := split_special (fun _ h => absurd h List.not_mem_nil) heq
      rw [List.append_nil]
      exact .again (mem_executed.mp hmem)
    · have hdeed : .registered count picture name maxCount priceStep ∈
        [Deed.entered id, Deed.left id] :=
        heq ▸ List.mem_append_right _ List.mem_cons_self
      simp only [List.mem_cons, reduceCtorEq, List.not_mem_nil, or_self] at hdeed
  size := hl.size
  slot id' n' slot hn' hslot := by
    have hexecuted : executed [.entered id, .left id] = [id] := rfl
    have hiff : id' ∈ executed (l ++ [.entered id, .left id]) ↔ id' ∈ l.executed := by
      rw [executed_append, List.mem_append, hexecuted, List.mem_singleton]
      exact ⟨fun h => h.elim (fun h => h) fun heq => heq ▸ hmem, .inl⟩
    rw [hl.slot id' n' slot hn' hslot, decide_eq_decide.mpr hiff]

/-- The registration by a menu item is the only one while it is executed. -/
theorem split_registration (hes : es.Quiet) {before after : Chronicle}
    {count count' : Option VariableRef} {picture picture' : ObjectId} {name name' : String}
    {maxCount maxCount' priceStep priceStep' : Int32}
    (heq : .entered id :: (es ++ [.registered count picture name maxCount priceStep]) ++
      [.left id] = before ++ .registered count' picture' name' maxCount' priceStep' :: after) :
    before = .entered id :: es ∧ after = [.left id] ∧ name' = name ∧ maxCount' = maxCount ∧
      priceStep' = priceStep := by
  rw [List.cons_append, List.append_assoc, ← List.cons_append] at heq
  rcases split_append heq with ⟨rest, hbefore, -⟩ | ⟨first, rfl, htail⟩
  · have hdeed : .registered count' picture' name' maxCount' priceStep' ∈ Deed.entered id :: es :=
      hbefore ▸ List.mem_append_right _ List.mem_cons_self
    rcases List.mem_cons.mp hdeed with hdeed | hdeed
    · cases hdeed
    · cases hes _ hdeed
  · cases first with
    | nil =>
      obtain ⟨hregistered, rfl⟩ := List.cons.inj htail
      cases hregistered
      exact ⟨List.append_nil _, rfl, rfl, rfl, rfl⟩
    | cons d first =>
      have hrest : [.left id] =
        first ++ .registered count' picture' name' maxCount' priceStep' :: after :=
        (List.cons.inj htail).2
      have hdeed : .registered count' picture' name' maxCount' priceStep' ∈ [Deed.left id] :=
        hrest ▸ List.mem_append_right _ List.mem_cons_self
      cases List.mem_singleton.mp hdeed

section

variable (howns : ∀ id n, p.nodes[id]? = some n → p.Owns id n)
include howns

/-- Setting the slot of a menu item leaves those of all others. -/
theorem Remembers.get_setSlot (hl : p.Remembers l h) (hn : p.IsMenuItem id n) {slot : SlotId}
    (hslot : n.slot 0 = .ok slot) {id' : NodeId} {n' : Node} {slot' : SlotId}
    (hn' : p.IsMenuItem id' n') (hslot' : n'.slot 0 = .ok slot') :
    (h.setSlot slot (.bool true)).slots.get slot' =
      .bool (decide (id' ∈ l.executed ++ [id])) := by
  by_cases heq : id' = id
  · subst heq
    cases hn.1.symm.trans hn'.1
    cases hslot.symm.trans hslot'
    obtain ⟨decl, hdecl, -⟩ := howns id' n hn.1 slot (Interpreter.mem_of_slot hslot)
    have hlt : slot < h.slots.values.size := hl.size ▸ (List.getElem?_eq_some_iff.mp hdecl).1
    rw [decide_eq_true (List.mem_append_right _ (List.mem_singleton.mpr rfl))]
    exact SlotStore.get_set hlt _
  · have hne : slot ≠ slot' := by
      rintro rfl
      exact (howns id n hn.1).disjoint (howns id' n' hn'.1) (Ne.symm heq) slot
        (Interpreter.mem_of_slot hslot) (Interpreter.mem_of_slot hslot')
    have hiff : id' ∈ l.executed ++ [id] ↔ id' ∈ l.executed := by
      rw [List.mem_append, List.mem_singleton, or_iff_left heq]
    rw [decide_eq_decide.mpr hiff, ← hl.slot id' n' slot' hn' hslot']
    exact Journal.get_set_ne hne _

/-- A menu item that is registered. -/
theorem Remembers.first (hl : p.Remembers l h) (hn : p.IsMenuItem id n) (hmem : id ∉ l.executed)
    {slot : SlotId} (hslot : n.slot 0 = .ok slot) (hes : es.Quiet)
    (hheard : ∀ i < 2, n.Heard id i es)
    {count : Option VariableRef} {picture : ObjectId} {name : String} {maxCount priceStep : Int32}
    (hconstant : n.constant = .menu name maxCount priceStep) :
    p.Remembers
      (l ++ (.entered id :: (es ++ [.registered count picture name maxCount priceStep]) ++
        [.left id]))
      (h.setSlot slot (.bool true)) := by
  have hflat : ∀ d ∈ es ++ [.registered count picture name maxCount priceStep], d.flat = true := by
    intro d hd
    rcases List.mem_append.mp hd with hd | hd
    · exact Deed.flat_of_quiet (hes d hd)
    · exact List.mem_singleton.mp hd ▸ rfl
  have hentered : .entered id ∉ l := fun h => hmem (mem_executed.mpr h)
  refine ⟨hl.once.append (fun before id' n' after heq hn' => ?_)
    (fun before count' picture' name' maxCount' priceStep' after heq => ?_),
    Array.size_setIfInBounds.trans hl.size, fun id' n' slot' hn' hslot' => ?_⟩
  · obtain ⟨rfl, rfl, rfl⟩ := split_special hflat heq
    cases hn.1.symm.trans hn'.1
    rw [List.append_nil, List.append_assoc]
    exact .first hentered hconstant hes hheard
  · obtain ⟨rfl, rfl, rfl, rfl, rfl⟩ := split_registration hes heq
    exact ⟨id, n, es, [], hn, hconstant, rfl, hentered, hes, rfl⟩
  · rw [executed_append, executed_special hflat]
    exact hl.get_setSlot howns hn hslot hn' hslot'

end

/-! ## Runs -/

theorem not_isMenuItem_of_kind {st : Statement} (hget : p.nodes[id]? = some n)
    (hkind : n.kind = .statement st) (hst : st ≠ .menuItem) {n' : Node} : ¬p.IsMenuItem id n' := by
  rintro ⟨hget', hkind'⟩
  cases hget.symm.trans hget'
  exact hst (Kind.statement.inj (hkind.symm.trans hkind'))

theorem not_isMenuItem_of_ordinary (hget : p.nodes[id]? = some n) (hn : n.Ordinary) {n' : Node} :
    ¬p.IsMenuItem id n' := by
  obtain ⟨st, hkind, hspecial⟩ := hn
  refine not_isMenuItem_of_kind hget hkind ?_
  rintro rfl
  cases hspecial

section

variable (howns : ∀ id n, p.nodes[id]? = some n → p.Owns id n)
  (hmenus : ∀ id n, p.IsMenuItem id n →
    ∃ name maxCount priceStep, n.constant = .menu name maxCount priceStep)
include howns hmenus

/-- A special statement keeps what the slots of the menu items tell. -/
theorem Remembers.special (hl : p.Remembers l h) (hget : p.nodes[id]? = some n)
    (hspecial : Special id n h es h') :
    p.Remembers (l ++ (.entered id :: es ++ [.left id])) h' := by
  cases hspecial with
  | late hkind =>
    exact hl.other (fun _ => not_isMenuItem_of_kind hget hkind (fun h => nomatch h)) quiet_nil rfl
  | again hkind hslot hvalue =>
    refine hl.again (of_not_not fun hnot => hvalue ?_)
    rw [hl.slot id n _ ⟨hget, hkind⟩ hslot, decide_eq_false hnot]
  | first hkind hslot hvalue hes hheard =>
    have hnot : id ∉ l.executed := fun hmem => hvalue (by
      rw [hl.slot id n _ ⟨hget, hkind⟩ hslot, decide_eq_true hmem])
    obtain ⟨name, maxCount, priceStep, hconstant⟩ := hmenus id n ⟨hget, hkind⟩
    unfold Node.registration
    rw [hconstant]
    exact hl.first howns ⟨hget, hkind⟩ hnot hslot hes hheard hconstant
  | named hkind _ hes =>
    exact hl.other (fun _ => not_isMenuItem_of_kind hget hkind (fun h => nomatch h)) hes rfl
  | pointed hkind hfollows hes =>
    refine hl.other (fun _ => not_isMenuItem_of_kind hget hkind ?_) hes rfl
    rintro rfl
    cases hfollows
  | missing hkind hst hes =>
    refine hl.other (fun _ => not_isMenuItem_of_kind hget hkind ?_) hes rfl
    rintro rfl
    rcases hst with hfollows | ⟨type, hst⟩
    · cases hfollows
    · cases hst

theorem carries_remembers : Carries p (maintaining p.Remembers) where
  quiet _ _ hes _ hl := hl.quiet hes
  append := maintaining_append
  entered id n _ hget hn _ hl := hl.concat
    (fun id' n' hn' heq => not_isMenuItem_of_ordinary hget hn (Deed.entered.inj heq ▸ hn'))
    fun _ _ _ _ _ => Deed.noConfusion
  branched _ _ _ _ _ _ hl :=
    hl.concat (fun _ _ _ => Deed.noConfusion) fun _ _ _ _ _ => Deed.noConfusion
  left _ _ _ _ _ _ hl := hl.concat (fun _ _ _ => Deed.noConfusion) fun _ _ _ _ _ => Deed.noConfusion
  store id n h slot v hget hn hslot l hl := by
    refine hl.skip (fun d hd => absurd hd List.not_mem_nil) (fun _ _ _ => List.not_mem_nil)
      Array.size_setIfInBounds fun id' n' slot' hn' hslot' => ?_
    have hne : slot ≠ slot' := by
      rintro rfl
      have hids : id ≠ id' := by
        rintro rfl
        exact not_isMenuItem_of_ordinary hget hn hn'
      exact (howns id n hget).disjoint (howns id' n' hn'.1) hids slot hslot
        (Interpreter.mem_of_slot hslot')
    exact Journal.get_set_ne hne v
  special _ _ _ _ _ hget hspecial _ hl := hl.special howns hmenus hget hspecial

/-- Whatever calls there were, each menu item was registered when it was first executed. -/
theorem History.registersOnce (hp : p.WellFormed) (hl : p.History l h) : l.RegistersOnce p := by
  have hremembers : p.Remembers l h := by
    refine hl.maintains (carries_remembers howns hmenus) ⟨registersOnce_nil, ?_,
      fun id n slot hn hslot => ?_⟩
      (fun frames h l hl => ?_) (fun task h l hl => ?_) fun l h vars hl =>
        ⟨hl.once, hl.size, hl.slot⟩
    · exact (SlotStore.typed_empty p).size
    · obtain ⟨slot', hget, hdecl⟩ :=
        (hp.nodes id n hn.1).slots 0 "registered" .bool (by rw [hn.2]; rfl)
      unfold Node.slot at hslot
      rw [hget] at hslot
      cases hslot
      exact SlotStore.get_empty hdecl
    · refine hl.skip (fun d hd => ?_) (fun _ _ _ hmem => ?_) rfl fun _ _ _ _ _ => rfl
      · rintro count picture name maxCount priceStep rfl
        exact (mem_opening hd).elim nofun nofun
      · exact (mem_opening hmem).elim nofun nofun
    · exact hl.concat (fun _ _ _ => Deed.noConfusion) fun _ _ _ _ _ => Deed.noConfusion
  exact hremembers.once

end

theorem menu_of_analyse {c : Catalog} {d : Document} (hc : c.Stocked) (h : analyse c d = .ok p)
    (hn : p.IsMenuItem id n) :
    ∃ name maxCount priceStep, n.constant = .menu name maxCount priceStep := by
  obtain ⟨x, built, nodes, volatile, -, hstages⟩ := stages_of_analyse hc h
  obtain ⟨hget, hkind⟩ := hn
  obtain ⟨m, -, -, hconstant⟩ := hstages.constant_of_node hget (by rw [hkind]; exact nofun)
  rw [hkind] at hconstant
  exact ⟨_, _, _, (Except.ok.inj hconstant).symm⟩

/-- Two blocks that each have a menu item in a loop. -/
def vending : Document where
  main := {
    id := 0
    nodes := [{ pos := ⟨0, 0, 0⟩, kind := 1000 }, { pos := ⟨4, 0, 4⟩, kind := 1000 }]
    connections := [.between ⟨0, 0, 0⟩ ⟨15, 1, 3⟩ ⟨4, 0, 4⟩ ⟨0, 1, 3⟩] }
  blocks := [{
    id := 1000
    name := "vend"
    footprint := ⟨2, 1⟩
    terminals := [{ type := .void, dir := .input }, { type := .void, dir := .output }]
    graph := {
      id := 7
      nodes := [{ pos := ⟨0, 0, 0⟩, kind := 36, settings := [.int 2] },
        { pos := ⟨4, 0, 4⟩, kind := 560 },
        { pos := ⟨8, 0, 8⟩, kind := 584, settings := [.text "Coin"] }]
      connections := [.between ⟨0, 0, 0⟩ ⟨15, 1, 3⟩ ⟨4, 0, 4⟩ ⟨0, 1, 3⟩,
        .between ⟨4, 0, 4⟩ ⟨15, 1, 11⟩ ⟨8, 0, 8⟩ ⟨3, 1, 15⟩,
        .between .outside ⟨0, 1, 3⟩ ⟨4, 0, 4⟩ ⟨3, 1, 15⟩,
        .between ⟨4, 0, 4⟩ ⟨3, 1, 0⟩ .outside ⟨15, 1, 3⟩] } }]

theorem exists_analyse_vending : ∃ c p, c.Stocked ∧ analyse c vending = .ok p ∧
    p.nodes.size = 6 ∧ p.slots.length = 4 ∧ p.vars.length = 0 ∧
    p.nodes.toList.map (fun n => decide (n.kind = .statement .menuItem)) =
      [false, false, true, false, false, true] := by
  have hsome : (Catalog.stock.bind fun c =>
    (vending.blocks.foldlM Catalog.addCustom c).bind fun c =>
      analyse c vending).toOption.any (fun p => p.nodes.size = 6 ∧ p.slots.length = 4 ∧
        p.vars.length = 0 ∧
        p.nodes.toList.map (fun n => decide (n.kind = .statement .menuItem)) =
          [false, false, true, false, false, true]) = true := by
    decide +kernel
  obtain ⟨c, p, hc, hp, hsizes⟩ := Catalog.exists_stocked hsome
  exact ⟨c, p, hc, hp, of_decide_eq_true hsizes⟩

end Program

namespace Backend

variable {e : Engine σ} {strategy : Strategy} {b : Backend σ}

/-- Menu items are registered once in a session.  A chronicle of all calls since the start tells
that a menu item is registered when it is first executed, once its inputs have been read, and that
nothing is done at any later execution, nor is anything registered otherwise.  Each instance of a
block has nodes of its own, so this holds of each of them.  The limits on the size of a compiled
program are those of the 32-bit words in which code keeps the ids of nodes, slots and variables. -/
theorem menu_items_registered_once {c : Catalog} {d : Document} (hc : c.Stocked)
    (h : Program.analyse c d = .ok p) (hfit : strategy = .compiled → p.Addressable)
    {w : Backend (σ × Chronicle)} (hw : Chronicled strategy p e b w) :
    ∃ l, w = b.beside l ∧ l.RegistersOnce p := by
  have hp := Program.wellFormed_of_analyse hc h
  have howns := Program.owns_of_analyse hc h
  obtain ⟨l, rfl, -, hhistory⟩ :=
    told_of_chronicled hp hfit howns (Program.shares_of_analyse hc h) hw
  exact ⟨l, rfl, hhistory.registersOnce howns (fun id n => Program.menu_of_analyse hc h) hp⟩

theorem menu_items_registered_once_vending : ∃ c p, c.Stocked ∧
    Program.analyse c Program.vending = .ok p ∧
    (∃ n n', p.IsMenuItem 2 n ∧ p.IsMenuItem 5 n') ∧
    ∀ strategy, ∃ (b : Backend Headless) (w : Backend (Headless × Chronicle)),
      Chronicled strategy p Headless.engine b w ∧
        ∃ l : Chronicle, w = b.beside l ∧ l.RegistersOnce p := by
  obtain ⟨c, p, hc, hp, hnodes, hslots, hvars, hkinds⟩ := Program.exists_analyse_vending
  have hmenu : ∀ id, (p.nodes.toList.map fun n => decide (n.kind = .statement .menuItem))[id]? =
      some true → ∃ n, p.IsMenuItem id n := by
    intro id hid
    rw [List.getElem?_map, Array.getElem?_toList] at hid
    obtain ⟨n, hget, hkind⟩ := Option.map_eq_some_iff.mp hid
    exact ⟨n, hget, of_decide_eq_true hkind⟩
  obtain ⟨n, hn⟩ := hmenu 2 (by rw [hkinds]; rfl)
  obtain ⟨n', hn'⟩ := hmenu 5 (by rw [hkinds]; rfl)
  refine ⟨c, p, hc, hp, ⟨n, n', hn, hn'⟩, fun strategy => ?_⟩
  have hfit : p.Addressable := ⟨by omega, by omega, by omega⟩
  obtain ⟨b, w, hchronicled, -⟩ := exists_chronicled (Program.wellFormed_of_analyse hc hp)
    strategy Headless.engine (Headless.ofSeed 0) 2
  obtain ⟨l, hl, honce⟩ := menu_items_registered_once hc hp (fun _ => hfit) hchronicled
  exact ⟨_, _, hchronicled, l, hl, honce⟩

end Backend
end SignalGraph
