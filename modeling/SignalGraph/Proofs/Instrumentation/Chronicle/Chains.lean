import SignalGraph.Proofs.Instrumentation.Chronicle.Runs

namespace SignalGraph

/-- The first input of a statement that writes behind it takes a pointer. -/
theorem Statement.exists_pointer_input {st : Statement} (h : st.followsPointer = true) :
    ∃ pin, st.shape.inputs[0]? = some pin ∧ ∀ b, pin.type ≠ .value b := by
  cases st with
  | setPointer type => exact ⟨_, rfl, WireType.toPointer_ne_value type⟩
  | increment => exact ⟨_, rfl, fun b heq => nomatch heq⟩
  | decrement => exact ⟨_, rfl, fun b heq => nomatch heq⟩
  | _ => cases h

theorem Statement.special_of_assigns {st : Statement} (h : st.assigns = true) :
    st.special = true := by
  cases st <;> first | rfl | cases h

namespace Interpreter

open Chronicle

variable {σ α : Type} {p : Program} {e : Engine σ} {id : NodeId} {n : Node} {T : α → Tale}
  {compute : Producer → Run (σ × Chronicle) Value} {produce : Producer → Run σ Value}
  {chain' : List NodeId → Run (σ × Chronicle) Unit} {chain : List NodeId → Run σ Unit}

theorem tells_branches {ids : List NodeId} (hids : ids ∈ n.controls)
    (h : Tells p (fun _ => Ran p ids) (chain' ids) (chain ids)) :
    Tells p (fun _ => Steps p id n) ((telling e).branches chain' id ids) (chain ids) :=
  tells_tell rfl h fun _ _ _ _ hran => .branch hids hran

/-- What an ordinary statement does is told step by step. -/
theorem abides_steps (hn : n.Ordinary) (h : Holdings) (l : Chronicle) :
    Abides (σ := σ) Inquires (Since p h l (Steps p id n)) (Since p h l (Steps p id n)) n := by
  obtain ⟨st, hkind, hspecial⟩ := hn
  refine ⟨bears_since admits_steps, fun _ _ hs => hs, ?_, fun _ _ _ hs => hs, ?_, ?_⟩
  · rintro slot hslot v s _ ⟨⟨es, rfl, hsteps⟩, hB⟩
    refine ⟨⟨es, rfl, ?_⟩, hB.size, hB.fresh⟩
    have happend := Steps.append hsteps (.store (v := v) hslot)
    rwa [List.append_nil] at happend
  · intro st' hkind' hassigns
    cases hkind.symm.trans hkind'
    exact absurd (Statement.special_of_assigns hassigns) (by simp [hspecial])
  · intro hlate
    cases hkind.symm.trans hlate
    cases hspecial

theorem tells_ordinary (e : Engine σ) (hp : p.WellFormed) (hget : p.nodes[id]? = some n)
    {st : Statement} (hkind : n.kind = .statement st) (hspecial : st.special = false)
    (houtputs : Outputs p compute produce n)
    (hchain : ∀ ids, Tells p (fun _ => Ran p ids) (chain' ids) (chain ids)) :
    Tells p (fun _ => Steps p id n)
      (execute (e.recording Deed.ofRequest) p.vars (hearing compute id n)
        ((telling e).branches chain' id) id n.numbered st)
      (execute e p.vars produce chain id n st) := by
  refine tells_of_keeps (fun _ => steps_stay) fun h l => ?_
  have hfollows : Follows (Since p h l (Steps p id n)) (Since p h l (Steps p id n))
      ((telling e).branches chain' id) chain n := fun ids hids =>
    (tells_branches hids (hchain ids)).keeps
      (fun _ _ _ _ ⟨_, _, _, heq, ha, hb⟩ => heq ▸ .append ha hb) h l
  refine echoes_statement (abides_steps ⟨st, hkind, hspecial⟩ h l) growth_inquires
    (answering_recording e) (fun hmenu => ?_) p.vars (hears_hearing hp hget houtputs admits_steps)
    hfollows id hkind
  cases hkind.symm.trans hmenu
  cases hspecial

theorem tells_onWorld {f' : World (σ × Chronicle) → World (σ × Chronicle)} {f : World σ → World σ}
    (hf : ∀ w l, f' (w.joined l) = (f w).joined l) {U : Tale}
    (hU : ∀ w, U w.holdings [] (f w).holdings) :
    Tells p (fun _ => U) (onWorld f') (onWorld f) := by
  refine fun h l => echoes_onWorld hf fun s m hs => ?_
  obtain ⟨⟨rfl, rfl⟩, hB⟩ := since_stay.mp hs
  exact ⟨⟨[], (List.append_nil m).symm, hU _⟩, hB.size, hB.fresh⟩

/-- The pointer that a statement writes behind is the one that it has read. -/
theorem Evaluating.exists_read {st : Statement} (hn : n.Fits p id) (hkind : n.kind = .statement st)
    (hfollows : st.followsPointer = true) {v : Value} {h h' : Holdings} {es : Chronicle}
    (hes : Evaluating p id n 0 v h es h') {q : Pointer} (hq : v.asPtr = some q) :
    ∃ r, .read id 0 r ∈ es ∧ r.pointer? = some q := by
  obtain ⟨pin, hpin, hpointer⟩ := Statement.exists_pointer_input hfollows
  rw [← Node.shape_of_statement hkind] at hpin
  rcases hn.absent_or_wire hpin hpointer with habsent | ⟨w, hw, hderef⟩
  · rw [hes.absent habsent] at hq
    cases hq
  · obtain ⟨r, hr, hvalue⟩ := hes.heard w hw
    obtain ⟨rfl, -⟩ := hvalue hderef
    exact ⟨_, hr, hq⟩

theorem tells_adjust (hp : p.WellFormed) (hget : p.nodes[id]? = some n)
    (houtputs : Outputs p compute produce n) {st : Statement} (hkind : n.kind = .statement st)
    (hfollows : st.followsPointer = true) (delta : Binary32) :
    Tells p (fun _ => Special id n) (adjust (hearing compute id n) n.numbered delta)
      (adjust produce n delta) := by
  refine tells_bind (V := fun v _ h es h' => es = [] ∧
    ((∃ q u, v.asPtr = some q ∧ h' = h.setVariable q u) ∨ h' = h)) (tells_input hp hget houtputs 0)
    (fun v => ?_) ?_
  · cases v.asPtr with
    | none => exact tells_pure fun h => ⟨rfl, .inr rfl⟩
    | some q => exact tells_onWorld (fun _ _ => rfl) fun w => ⟨rfl, .inl ⟨q, _, rfl, rfl⟩⟩
  rintro v _ h es h' ⟨a, h₁, b, rfl, ha, rfl, hb⟩
  obtain ⟨hquiet, rfl⟩ := ha.quiet
  rw [List.append_nil]
  rcases hb with ⟨q, u, hq, rfl⟩ | rfl
  · obtain ⟨r, hr, hpointer⟩ := ha.exists_read (hp.nodes id n hget) hkind hfollows hq
    exact .pointed hkind hfollows hquiet hr hpointer
  · exact .missing hkind (.inl hfollows) hquiet

theorem tells_setVariable (hp : p.WellFormed) (hget : p.nodes[id]? = some n)
    (houtputs : Outputs p compute produce n) {type : WireType}
    (hkind : n.kind = .statement (.setVariable type)) (e' : Engine (σ × Chronicle)) (e : Engine σ)
    (vars : List Variable) :
    Tells p (fun _ => Special id n)
      (execute e' vars (hearing compute id n) chain' id n.numbered (.setVariable type))
      (execute e vars produce chain id n (.setVariable type)) := by
  refine tells_bind (V := fun v _ h es h' => es = [] ∧
    ((∃ var, n.constant.var? = some var ∧ h' = h.setVariable { var, index := 0 } v) ∨ h' = h))
    (tells_input hp hget houtputs 0) (fun v => ?_) ?_
  · have hconstant : n.numbered.constant = n.constant := rfl
    rw [hconstant]
    cases n.constant.var? with
    | none => exact tells_pure fun h => ⟨rfl, .inr rfl⟩
    | some var => exact tells_onWorld (fun _ _ => rfl) fun w => ⟨rfl, .inl ⟨var, rfl, rfl⟩⟩
  rintro v _ h es h' ⟨a, h₁, b, rfl, ha, rfl, hb⟩
  obtain ⟨hquiet, rfl⟩ := ha.quiet
  rw [List.append_nil]
  rcases hb with ⟨var, hvar, rfl⟩ | rfl
  · exact .named hkind hvar hquiet
  · exact .missing hkind (.inr ⟨type, rfl⟩) hquiet

theorem tells_setPointer (hp : p.WellFormed) (hget : p.nodes[id]? = some n)
    (houtputs : Outputs p compute produce n) {type : WireType}
    (hkind : n.kind = .statement (.setPointer type)) (e' : Engine (σ × Chronicle)) (e : Engine σ)
    (vars : List Variable) :
    Tells p (fun _ => Special id n)
      (execute e' vars (hearing compute id n) chain' id n.numbered (.setPointer type))
      (execute e vars produce chain id n (.setPointer type)) := by
  refine tells_bind (V := fun target _ h es h' => es.Quiet ∧
    ((∃ q v, target.asPtr = some q ∧ h' = h.setVariable q v) ∨ h' = h))
    (tells_input hp hget houtputs 0) (fun target => ?_) ?_
  · refine tells_bind (V := fun v _ h es h' => es = [] ∧
      ((∃ q, target.asPtr = some q ∧ h' = h.setVariable q v) ∨ h' = h))
      (tells_input hp hget houtputs 1) (fun v => ?_) ?_
    · cases target.asPtr with
      | none => exact tells_pure fun h => ⟨rfl, .inr rfl⟩
      | some q => exact tells_onWorld (fun _ _ => rfl) fun w => ⟨rfl, .inl ⟨q, rfl, rfl⟩⟩
    rintro v _ h es h' ⟨a, h₁, b, rfl, ha, rfl, hb⟩
    obtain ⟨hquiet, rfl⟩ := ha.quiet
    rw [List.append_nil]
    refine ⟨hquiet, hb.imp_left ?_⟩
    rintro ⟨q, hq⟩
    exact ⟨q, v, hq⟩
  rintro target _ h es h' ⟨a, h₁, b, rfl, ha, hbquiet, hb⟩
  obtain ⟨hquiet, rfl⟩ := ha.quiet
  have hes := quiet_append hquiet hbquiet
  rcases hb with ⟨q, v, hq, rfl⟩ | rfl
  · obtain ⟨r, hr, hpointer⟩ := ha.exists_read (hp.nodes id n hget) hkind rfl hq
    exact .pointed hkind rfl hes (List.mem_append_left _ hr) hpointer
  · exact .missing hkind (.inl rfl) hes

theorem Evaluating.reads {i : Nat} {v : Value} {h h' : Holdings} {es : Chronicle}
    (hes : Evaluating p id n i v h es h') : n.Heard id i es := fun w hw =>
  have ⟨r, hr, _⟩ := hes.heard w hw
  ⟨r, hr⟩

def register (e : Engine σ) (vars : List Variable) (n : Node) (slot : SlotId)
    (pointer picture : Value) : Run σ Unit := do
  if let .menu name maxCount priceStep := n.constant then
    let count := pointer.asPtr >>= Pointer.ref? vars
    inWorld (World.ask (e.ask (.menuItem count picture.asObj name maxCount priceStep)))
  onWorld (World.setSlot slot (.bool true))

theorem runMenuItem_eq (e : Engine σ) (vars : List Variable) (produce : Producer → Run σ Value)
    (n : Node) :
    runMenuItem e vars produce n = (do
      let slot ← check (n.slot 0)
      if ((← get).world.slots.get slot).asBool then return ()
      else do
        let pointer ← input produce n 0
        let picture ← input produce n 1
        register e vars n slot pointer picture) := rfl

theorem tells_register (e : Engine σ) (vars : List Variable) (slot : SlotId)
    (pointer picture : Value) :
    Tells p (fun _ => Registers id n slot [])
      (register (e.recording Deed.ofRequest) vars n slot pointer picture)
      (register e vars n slot pointer picture) := by
  have hset : ∀ _ : Unit, Tells p (fun _ h es h' => es = [] ∧ h' = h.setSlot slot (.bool true))
      (onWorld (World.setSlot slot (.bool true)) : Run (σ × Chronicle) Unit)
      (onWorld (World.setSlot slot (.bool true))) := fun _ =>
    tells_onWorld (fun _ _ => rfl) fun _ => ⟨rfl, rfl⟩
  have hnothing : ∀ i ∈ ([] : List Nat), n.Heard id i [] := fun i hi => absurd hi List.not_mem_nil
  unfold register Registers Node.registration
  cases n.constant with
  | menu name maxCount priceStep =>
    have hask : ∀ count : Option VariableRef, Tells p
        (fun _ h es h' => h' = h ∧ es = [.registered count picture.asObj name maxCount priceStep])
        (inWorld (World.ask ((e.recording Deed.ofRequest).ask
          (.menuItem count picture.asObj name maxCount priceStep))) : Run (σ × Chronicle) Unit)
        (inWorld (World.ask (e.ask (.menuItem count picture.asObj name maxCount priceStep)))) := by
      rintro count h l s m hs
      obtain ⟨⟨rfl, rfl⟩, hB⟩ := since_stay.mp hs
      exact ⟨_, rfl, ⟨_, rfl, rfl, rfl⟩, hB.size, hB.fresh.concat rfl⟩
    refine tells_bind (hask _) hset ?_
    rintro _ _ h es h' ⟨a, h₁, b, rfl, ⟨rfl, rfl⟩, rfl, rfl⟩
    exact ⟨rfl, [], _, _, List.append_nil _, quiet_nil, hnothing⟩
  | _ =>
    refine (hset ()).mono ?_
    rintro _ h es h' ⟨rfl, rfl⟩
    exact ⟨rfl, [], none, picture.asObj, rfl, quiet_nil, hnothing⟩

theorem tells_runMenuItem (hp : p.WellFormed) (hget : p.nodes[id]? = some n)
    (houtputs : Outputs p compute produce n) (hkind : n.kind = .statement .menuItem) (e : Engine σ)
    (vars : List Variable) :
    Tells p (fun _ => Special id n)
      (runMenuItem (e.recording Deed.ofRequest) vars (hearing compute id n) n.numbered)
      (runMenuItem e vars produce n) := by
  rw [runMenuItem_eq, runMenuItem_eq]
  refine tells_check fun slot hslot h l s m hs => ?_
  have hregister : Tells p (fun _ => Registers id n slot [0, 1])
      (do
        let pointer ← input (hearing compute id n) n.numbered 0
        let picture ← input (hearing compute id n) n.numbered 1
        register (e.recording Deed.ofRequest) vars n slot pointer picture)
      (do
        let pointer ← input produce n 0
        let picture ← input produce n 1
        register e vars n slot pointer picture) := by
    refine tells_bind (tells_input hp hget houtputs 0) (fun pointer => ?_)
      fun _ _ _ _ _ ⟨_, _, _, heq, ha, hb⟩ => heq ▸ Registers.after hb ha.quiet ha.reads
    exact tells_bind (tells_input hp hget houtputs 1) (fun picture =>
      tells_register e vars slot pointer picture)
      fun _ _ _ _ _ ⟨_, _, _, heq, ha, hb⟩ => heq ▸ Registers.after hb ha.quiet ha.reads
  have hslots : (s.beside m).world.slots = s.world.slots := rfl
  obtain ⟨⟨rfl, rfl⟩, hB⟩ := since_stay.mp hs
  rw [get_bind, get_bind, hslots]
  cases hheld : (s.world.slots.get slot).asBool with
  | true =>
    refine ⟨m, rfl, ⟨[], (List.append_nil m).symm, .again hkind hslot fun heq => ?_⟩, hB⟩
    rw [show s.world.holdings.slots = s.world.slots from rfl] at heq
    rw [heq] at hheld
    cases hheld
  | false =>
    refine mirrors_mono (hregister _ _) (fun _ s' m' => ?_) s m hs
    rintro ⟨⟨_, rfl, heq, es, count, picture, rfl, hquiet, hheard⟩, hB'⟩
    refine ⟨⟨_, rfl, ?_⟩, hB'⟩
    rw [heq]
    refine .first hkind hslot (fun heq => ?_) hquiet fun i hi => hheard i ?_
    · rw [show s.world.holdings.slots = s.world.slots from rfl] at heq
      rw [heq] at hheld
      cases hheld
    · simp only [List.mem_cons, List.not_mem_nil]
      omega

theorem tells_special (e : Engine σ) (hp : p.WellFormed) (hget : p.nodes[id]? = some n)
    {st : Statement} (hkind : n.kind = .statement st) (hspecial : st.special = true)
    (houtputs : Outputs p compute produce n) :
    Tells p (fun _ => Special id n)
      (execute (e.recording Deed.ofRequest) p.vars (hearing compute id n) chain' id n.numbered st)
      (execute e p.vars produce chain id n st) := by
  cases st with
  | lateUpdate => exact tells_onWorld (fun _ _ => rfl) fun _ => .late hkind
  | menuItem => exact tells_runMenuItem hp hget houtputs hkind e p.vars
  | setVariable type => exact tells_setVariable hp hget houtputs hkind _ _ _
  | setPointer type => exact tells_setPointer hp hget houtputs hkind _ _ _
  | increment => exact tells_adjust hp hget houtputs hkind rfl 1
  | decrement => exact tells_adjust hp hget houtputs hkind rfl (-1)
  | _ => cases hspecial

theorem carries_telling (e : Engine σ) (hp : p.WellFormed) :
    (telling e).Carries e p (fun id => Tells p fun _ => Performed p id)
      fun ids => Tells p fun _ => Ran p ids where
  nil := tells_pure fun _ => .nil
  cons ha hb := tells_bind ha (fun _ => hb) fun _ _ _ _ _ ⟨_, _, _, heq, hran, hrest⟩ =>
    heq ▸ ran_append hran hrest
  throw := tells_throw
  statement {id n st chain' chain} hget hkind hchain := by
    have houtputs : Outputs p ((telling e).produce p (p.nodes.size + 1))
        (Interpreter.produce e p (p.nodes.size + 1)) n := fun _ _ => tells_produce e hp
    have hexecute : Tells p
        (fun _ h es h' => n.Ordinary ∧ Steps p id n h es h' ∨ Special id n h es h')
        (execute (e.recording Deed.ofRequest) p.vars
          (hearing ((telling e).produce p (p.nodes.size + 1)) id n)
          ((telling e).branches chain' id) id n.numbered st)
        (execute e p.vars (Interpreter.produce e p (p.nodes.size + 1)) chain id n st) := by
      cases hspecial : st.special with
      | true =>
        exact (tells_special e hp hget hkind hspecial houtputs).mono fun _ _ _ _ => .inr
      | false =>
        exact (tells_ordinary e hp hget hkind hspecial houtputs hchain).mono fun _ _ _ _ hsteps =>
          .inl ⟨⟨st, hkind, hspecial⟩, hsteps⟩
    refine tells_tell rfl (tells_ended (tell_beside (.left id)) (fun _ _ h => h.tell rfl)
      hexecute fun _ es _ hes => ?_) fun _ _ _ _ hes => hes
    exact ⟨n, es, hget, rfl, hes⟩
  followed hget ha hb := tells_bind ha (fun _ => hb)
    fun _ _ _ _ _ ⟨_, _, _, heq, hstatement, hrest⟩ => heq ▸ hstatement.followed hget hrest

end Interpreter
end SignalGraph
