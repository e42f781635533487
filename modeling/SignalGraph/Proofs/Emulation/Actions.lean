import SignalGraph.Proofs.Emulation.Expressions
import SignalGraph.Proofs.Execution.Statements

namespace SignalGraph
namespace Compiler

open Wasm Machine Interpreter

variable {σ α β : Type} {y : Setting σ} {lo hi : Nat} {lanes : List Lane} {id : NodeId} {n : Node}
  {emitted : Producer → Emit Code} {produce : Producer → Run σ Value}

theorem emulates_setSlot {slot : SlotId} {owner : NodeId} {purpose : String} {t : Base} {v : Value}
    (hdecl : y.program.slots[slot]? = some { owner, purpose, type := t }) (htype : t ≠ .rot)
    (hv : v.HasBase t) :
    y.Emulates lo hi [callImport (.setSlot (.ofSlot t))]
      (.i32 (Int32.ofNat slot) :: Lanes.ofValue v) (Interpreter.onWorld (World.setSlot slot v))
      Quiet := by
  have hmem : Import.setSlot (.ofSlot t) ∈ Import.table :=
    mem_table (fun h => nomatch h) fun h => ofSlot_ne_rot (Import.setSlot.inj h)
  have hlt : slot < 4294967296 :=
    Nat.lt_of_lt_of_le (List.getElem?_eq_some_iff.mp hdecl).1 y.addressable.slots
  have hlen : (.i32 (Int32.ofNat slot) :: Lanes.ofValue v : List Lane).length =
      (LaneType.i32 :: (Format.ofSlot t).lanes).length := by
    rw [List.length_cons, Lanes.length_ofValue hv, Format.ofSlot_eq htype, Format.lanes_ofBase]
    rfl
  refine emulates_import hmem hlen fun s u s' hs hrun => ?_
  cases hrun
  have hwrite : Host.writeSlot y.program (.ofSlot t) (Int32.ofNat slot) (Lanes.ofValue v)
      s.world = s.world.setSlot slot v := by
    unfold Host.writeSlot
    rw [toNat_ofNat hlt, hdecl, Format.ofSlot_eq htype]
    dsimp only
    rw [Format.toValue_ofBase hv]
  have hhost : Host.run y.engine y.program (.setSlot (.ofSlot t))
      (.i32 (Int32.ofNat slot) :: Lanes.ofValue v) s.world = ([], s.world.setSlot slot v) := by
    rw [← hwrite]
    rfl
  rw [hhost]
  exact ⟨rfl, typed_setSlot hs hdecl hv, rfl⟩

/-- Writing a slot of a node with lanes from the locals. -/
theorem given_writeSlot (is : List Nat) (held : List Lane) (lo : Nat) (hn : n.Fits y.program id)
    {i : Nat} {purpose : String} {t : Base} (hslot : n.kind.slots[i]? = some (purpose, t))
    (ht : t ≠ .rot) {loads : Code} {v : Value} (hv : v.HasBase t)
    (hloads : ∀ (s : Machine (World σ)) below, Holds s.locals is held →
      Runs y.call loads below s ((Lanes.ofValue v).reverse ++ below) s) {slot : SlotId}
    (hget : n.slots[i]? = some slot) :
    y.EmulatesGiven is held lo lo
      (Compiler.id slot :: loads ++ [callImport (.setSlot (.ofSlot t))]) []
      (writeSlot n i v) Quiet := by
  obtain ⟨slot', hget', hdecl⟩ := hn.slots i purpose t hslot
  rw [hget] at hget'
  cases hget'
  have hrun : writeSlot n i v = Interpreter.onWorld (σ := σ) (World.setSlot slot v) :=
    check_bind (Node.slot_eq_ok hget)
  rw [hrun]
  refine given_after (.i32 (Int32.ofNat slot) :: Lanes.ofValue v) (fun s below hholds => ?_)
    (given_of_emulates (emulates_setSlot hdecl ht hv))
  rw [List.reverse_cons, List.append_assoc]
  exact runs_cons (runs_const _) (hloads s _ hholds)

def store (pointer v : Value) : Run σ Unit :=
  match pointer.asPtr with
  | some q => Interpreter.onWorld (World.setVariable q v)
  | none => pure ()

theorem emulates_setVariable {t : Base} {pointer v : Value}
    (hpointer : pointer.InLanes y.program.vars (.pointer t) lanes) (hv : v.HasBase t) :
    y.Emulates lo hi [callImport (.setVariable (.ofBase t))] (lanes ++ Lanes.ofValue v)
      (store pointer v) Quiet := by
  have hmem : Import.setVariable (.ofBase t) ∈ Import.table :=
    mem_table (fun h => nomatch h) fun h => nomatch h
  obtain ⟨var, index, rfl, hread⟩ := hpointer.pointer y.addressable.vars
  have hlen : ([.i32 var, .i32 index] ++ Lanes.ofValue v : List Lane).length =
      (LaneType.i32 :: .i32 :: (Format.ofBase t).lanes).length := by
    rw [List.length_append, Lanes.length_ofValue hv, ← Format.lanes_ofBase, Nat.add_comm]
    rfl
  refine emulates_import hmem hlen fun s u s' hs hrun => ?_
  have hhost : Host.run y.engine y.program (.setVariable (.ofBase t))
      ([.i32 var, .i32 index] ++ Lanes.ofValue v) s.world =
      ([], Host.writeVariable y.program (.ofBase t) var index (Lanes.ofValue v) s.world) := rfl
  rw [hhost]
  unfold Host.writeVariable
  rw [hread]
  rcases hpointer with ⟨rfl, -⟩ | ⟨q, decl, rfl, hdecl, rfl, -⟩
  · cases hrun
    exact ⟨rfl, hs, rfl⟩
  · cases hrun
    dsimp only [Value.asPtr]
    rw [hdecl]
    dsimp only
    rw [Format.toValue_ofBase hv]
    refine ⟨rfl, typed_setVariable hs fun decl' hdecl' => ?_, rfl⟩
    rw [hdecl] at hdecl'
    cases hdecl'
    exact hv

def request (e : Effect) (number : Int32) : List Lane :=
  if e.hasNumber then [.i32 number] else []

theorem length_flagged {pins : List Pin} {vs : List (Option Value)}
    (h : Rows Pin.InFlagged pins vs lanes) : lanes.length = (Pin.flaggedLanes pins).length := by
  induction h with
  | nil => rfl
  | cons hfirst _ ih =>
    rw [List.length_append, ih, hfirst.length, Pin.flaggedLanes, Pin.flaggedLanes,
      List.flatMap_cons, List.length_append]

/-- What an effect keeps of the answer, and the lanes that the host returns. -/
def Answered (e : Effect) (kept : Option Value) (lanes : List Lane) : Prop :=
  (e.slots = [] ∧ kept = none ∧ lanes = []) ∨
    ∃ purpose t v, e.slots = [(purpose, t)] ∧ kept = some v ∧ v.HasBase t ∧ lanes = Lanes.ofValue v

theorem emulates_perform {e : Effect} {vs : List (Option Value)}
    (h : Rows Pin.InFlagged e.shape.inputs vs lanes) (number : Int32) :
    y.Emulates lo hi [callImport (.effect e)] (lanes ++ request e number)
      (inWorld (World.ask (e.perform y.engine number vs))) (Answered e) := by
  have hmem : Import.effect e ∈ Import.table := mem_table (fun h => nomatch h) fun h => nomatch h
  have hlen : (lanes ++ request e number).length = (Import.effectType e).params.length := by
    rw [List.length_append, length_flagged h, Import.effectType, List.length_append, request]
    by_cases hnumber : e.hasNumber = true
    · rw [if_pos hnumber, if_pos hnumber]
      rfl
    · rw [if_neg hnumber, if_neg hnumber]
      rfl
  have hperform : e.perform y.engine ((request e number).headD (.i32 0)).asInt vs =
      e.perform y.engine number vs := by
    by_cases hnumber : e.hasNumber = true
    · rw [request, if_pos hnumber]
      rfl
    · exact Effect.perform_number y.engine (eq_false_of_ne_true hnumber) _ _ vs
  refine emulates_ask (fun kept => kept.elim [] Lanes.ofValue) hmem hlen (fun w => ?_) fun s => ?_
  · show Host.runEffect y.engine e (lanes ++ request e number) w = _
    unfold Host.runEffect
    rw [Host.flaggedValues_eq h]
    dsimp only
    rw [hperform]
    simp only [bind, StateT.bind]
    cases (World.ask (e.perform y.engine number vs) w).1 <;> rfl
  · rcases Effect.slots_cases e with hslots | ⟨purpose, t, hslots, -⟩
    · refine .inl ⟨hslots, ?_⟩
      cases hkept : (e.perform y.engine number vs s).1 with
      | none => exact ⟨rfl, rfl⟩
      | some v =>
        obtain ⟨_, _, hone, -⟩ := Effect.keeps_perform y.engine hkept
        rw [hslots] at hone
        exact nomatch hone
    · obtain ⟨v, hkept⟩ := Effect.perform_keeps y.engine hslots h number s
      obtain ⟨_, _, hone, hv⟩ := Effect.keeps_perform y.engine hkept
      rw [hslots] at hone
      cases hone
      rw [hkept]
      exact .inr ⟨purpose, t, v, hslots, rfl, hv, rfl⟩

theorem request_const (e : Effect) (number : Int32) :
    (if e.hasNumber then [int number] else []) = (request e number).map .const := by
  unfold request
  by_cases hnumber : e.hasNumber = true
  · rw [if_pos hnumber, if_pos hnumber]
    rfl
  · rw [if_neg hnumber, if_neg hnumber]
    rfl

/-- A request after the arguments of the effect, on top of other lanes, and what follows it. -/
theorem emulates_request (under : List Lane) {e : Effect} {vs : List (Option Value)} {rest : Code}
    {f : Option Value → Run σ β} {R : β → List Lane → Prop}
    (h : Rows Pin.InFlagged e.shape.inputs vs lanes) (number : Int32)
    (hrest : ∀ kept outs, Answered e kept outs → y.Emulates lo lo rest (under ++ outs) (f kept) R) :
    y.Emulates lo lo ((request e number).map .const ++ callImport (.effect e) :: rest)
      (under ++ lanes)
      (inWorld (World.ask (e.perform y.engine number vs)) >>= f) R := by
  refine emulates_after (under ++ (lanes ++ request e number)) (fun t below => ?_) ?_
  · have hstack : (under ++ (lanes ++ request e number)).reverse ++ below =
        (request e number).reverse ++ ((under ++ lanes).reverse ++ below) := by
      simp only [List.reverse_append, List.append_assoc]
    rw [hstack]
    exact runs_consts
  · refine emulates_bind (emulates_frame under (emulates_perform h number))
      (fun kept outs houts => ?_)
      (Nat.le_refl lo) (Nat.le_refl lo)
    obtain ⟨top, rfl, hkept⟩ := houts
    exact hrest kept top hkept

theorem imitates_effect (hn : n.Fits y.program id) (hs : y.Sourced emitted produce n) {e : Effect}
    (hkind : n.kind = .effect e) :
    y.Imitates (effect emitted n e) [] (runEffect y.engine produce n e) Quiet := by
  have hoperands := imitates_effectOperands hn hs hkind
  have hrun : runEffect y.engine produce n e =
      (effectInputs produce n e.shape.inputs >>= fun vs =>
        inWorld (World.ask (e.perform y.engine (e.number n.constant) vs)) >>= fun kept =>
          kept.elim (pure ()) (writeSlot n 0)) := by
    refine congrArg (effectInputs produce n e.shape.inputs >>= ·) (funext fun vs => ?_)
    refine congrArg (inWorld _ >>= ·) (funext fun kept => ?_)
    cases kept <;> rfl
  rw [hrun]
  unfold effect
  rw [request_const]
  rcases Effect.slots_cases e with hslots | ⟨purpose, t, hslots, ht⟩
  · rw [hslots]
    refine gives_bind hoperands fun arguments => gives_pure fun l₁ l₀ hext _ harguments => ?_
    rw [List.append_assoc]
    refine emulates_bind harguments (fun vs lanes hvs => ?_) (Locals.count_le hext) (Nat.le_refl _)
    refine emulates_request [] hvs _ fun kept outs hkept => ?_
    rcases hkept with ⟨-, rfl, rfl⟩ | ⟨_, _, _, hone, -⟩
    · exact emulates_nil rfl
    · rw [hslots] at hone
      exact nomatch hone
  · obtain ⟨slot, hget, hdecl⟩ := hn.slots 0 purpose t (by
      rw [hkind, show (Kind.effect e).slots = e.slots from rfl, hslots]
      rfl)
    rw [hslots]
    refine gives_lift (Node.slot_eq_ok hget) ?_
    refine gives_bind hoperands fun arguments => gives_pure fun l₁ l₀ hext _ harguments => ?_
    rw [List.append_assoc]
    refine emulates_const (.i32 (Int32.ofNat slot)) ?_
    refine emulates_bind (emulates_frame [.i32 (Int32.ofNat slot)] harguments)
      (fun vs outs houts => ?_) (Locals.count_le hext) (Nat.le_refl _)
    obtain ⟨lanes, rfl, hvs⟩ := houts
    refine emulates_request [.i32 (Int32.ofNat slot)] hvs _ fun kept outs hkept => ?_
    rcases hkept with ⟨hnone, -⟩ | ⟨_, _, v, hone, rfl, hv, rfl⟩
    · rw [hslots] at hnone
      exact nomatch hnone
    · rw [hslots] at hone
      cases hone
      have hwrite : writeSlot n 0 v = Interpreter.onWorld (σ := σ) (World.setSlot slot v) :=
        check_bind (Node.slot_eq_ok hget)
      show y.Emulates _ _ _ _ (writeSlot n 0 v) Quiet
      rw [hwrite]
      exact emulates_setSlot hdecl ht hv

/-- Registers the menu item of a node with the values of its inputs. -/
def register (e : Engine σ) (vars : List Variable) (n : Node) (pointer picture : Value) :
    Run σ Unit :=
  match n.constant with
  | .menu name maxCount priceStep => inWorld (World.ask (e.ask (.menuItem
      (pointer.asPtr >>= Pointer.ref? vars) picture.asObj name maxCount priceStep)))
  | _ => pure ()

theorem emulates_register (hget : y.program.nodes[id]? = some n) {vs : List Value} {p q : Pin}
    (hp : p.type = .pointer .float) (hq : q.type = .value .obj)
    (h : Pin.Filled y.program.vars [p, q] vs lanes) :
    y.Emulates lo hi [callImport .menuItem] (.i32 (Int32.ofNat id) :: lanes)
      (register y.engine y.program.vars n (vs.getD 0 .void) (vs.getD 1 .void)) Quiet := by
  obtain ⟨u, v, first, second, rfl, rfl, hu, hv⟩ := filled_two h
  rw [hp] at hu
  rw [hq] at hv
  obtain ⟨⟨picture, rfl⟩, rfl⟩ := And.intro hv.1.obj hv.2
  obtain ⟨var, index, rfl, hread⟩ := hu.pointer y.addressable.vars
  have hlt : id < 4294967296 :=
    Nat.lt_of_lt_of_le (Array.getElem?_eq_some_iff.mp hget).1 y.addressable.nodes
  have hnode : y.program.nodes[Host.idOf (Int32.ofNat id)]? = some n := by
    rw [toNat_ofNat hlt]
    exact hget
  refine emulates_import (by decide) rfl fun s r s' hs hrun => ?_
  have hhost : Host.run y.engine y.program .menuItem
      [.i32 (Int32.ofNat id), .i32 var, .i32 index, .i32 picture] s.world =
      ([], (Host.menuItem y.engine y.program (Int32.ofNat id) var index picture s.world).2) := rfl
  have hlanes : .i32 (Int32.ofNat id) :: ([.i32 var, .i32 index] ++ Lanes.ofValue (.obj picture)) =
      [.i32 (Int32.ofNat id), .i32 var, .i32 index, .i32 picture] := rfl
  rw [hlanes, hhost]
  unfold Host.menuItem
  rw [hnode, hread]
  have hregister : register y.engine y.program.vars n u (.obj picture) s = .ok r s' := hrun
  unfold register at hregister
  rw [Option.map_some]
  cases hconstant : n.constant with
  | menu name maxCount priceStep =>
    rw [hconstant] at hregister
    cases hregister
    exact ⟨rfl, hs.ask _, rfl⟩
  | _ =>
    rw [hconstant] at hregister
    cases hregister
    exact ⟨rfl, hs, rfl⟩

theorem runMenuItem_eq (e : Engine σ) (vars : List Variable) {slot : SlotId}
    (hget : n.slots[0]? = some slot) :
    runMenuItem e vars produce n = (slotValue slot >>= fun done =>
      if done.asBool then pure ()
      else inputs produce n 2 >>= fun vs =>
        register e vars n (vs.getD 0 .void) (vs.getD 1 .void) >>=
        fun _ => Interpreter.onWorld (World.setSlot slot (.bool true))) := by
  unfold runMenuItem
  rw [check_bind (Node.slot_eq_ok hget)]
  show (slotValue slot >>= fun done => if done.asBool then pure () else _) = _
  refine congrArg (slotValue slot >>= ·) (funext fun done => ?_)
  by_cases hdone : done.asBool = true
  · rw [if_pos hdone, if_pos hdone]
  · rw [if_neg hdone, if_neg hdone]
    refine Eq.trans ?_ (bind_inputs fun pointer picture => register e vars n pointer picture >>=
      fun _ => Interpreter.onWorld (World.setSlot slot (.bool true)))
    refine congrArg (input produce n 0 >>= ·) (funext fun pointer => ?_)
    refine congrArg (input produce n 1 >>= ·) (funext fun picture => ?_)
    unfold register
    cases n.constant <;> rfl

theorem imitates_menuItem (hget : y.program.nodes[id]? = some n) (hs : y.Sourced emitted produce n)
    (hkind : n.kind = .statement .menuItem) :
    y.Imitates (menuItem emitted id n) []
      (runMenuItem y.engine y.program.vars produce n) Quiet := by
  have hn := y.wellFormed.nodes id n hget
  have hoperands := imitates_operands hn hs (by rw [hkind]; decide)
  rw [hkind] at hoperands
  obtain ⟨slot, hslot, hdecl⟩ := hn.slots 0 "registered" .bool (by rw [hkind]; rfl)
  rw [runMenuItem_eq y.engine y.program.vars hslot]
  refine gives_lift (Node.slot_eq_ok hslot) ?_
  refine gives_bind hoperands fun arguments => gives_pure fun l₁ l₀ hext _ harguments => ?_
  have hread : y.Emulates l₀.count l₀.count _ [] _ _ := emulates_getSlot hdecl fun h => nomatch h
  refine emulates_bind hread (fun done outs hdone => ?_) (Nat.le_refl _) (Locals.count_le hext)
  obtain ⟨⟨t, rfl⟩, rfl⟩ := And.intro hdone.1.bool hdone.2
  have htest : ∀ (s : Machine (World σ)) below, Runs y.call [.numeric .i32Eqz]
      ((Lanes.ofValue (.bool t)).reverse ++ below) s
      ([.i32 (if t then 0 else 1)].reverse ++ below) s := by
    intro s below
    refine runs_numeric ?_
    cases t <;> rfl
  refine emulates_after _ htest (emulates_when (fun hzero => ?_) fun hone => ?_)
  · have ht : t = false := by
      cases t with
      | true => exact absurd rfl hzero
      | false => rfl
    rw [ht]
    show y.Emulates _ _ _ _ (inputs produce n 2 >>= _) Quiet
    refine emulates_const (.i32 (Int32.ofNat id)) ?_
    refine emulates_bind (emulates_frame [.i32 (Int32.ofNat id)] harguments)
      (fun vs outs houts => ?_)
      (Locals.count_le hext) (Nat.le_refl _)
    obtain ⟨lanes, rfl, hvs⟩ := houts
    refine emulates_bind (a := [callImport .menuItem]) (emulates_register hget rfl rfl hvs)
      (fun _ outs houts => ?_) (Nat.le_refl _) (Nat.le_refl _)
    rw [houts]
    refine emulates_const (.i32 (Int32.ofNat slot)) (emulates_const (.i32 1) ?_)
    exact emulates_setSlot (t := .bool) (v := .bool true) hdecl (fun h => nomatch h) trivial
  · have ht : t = true := by
      cases t with
      | true => rfl
      | false => exact nomatch hone
    rw [ht]
    rfl

theorem adjust_eq (delta : Binary32) :
    Interpreter.adjust produce n delta = (input produce n 0 >>= fun pointer =>
      load (.pointer .float) pointer >>= fun v => store pointer (.float (v.asFloat + delta))) := by
  refine congrArg (input produce n 0 >>= ·) (funext fun pointer => ?_)
  unfold store load
  cases hpointer : pointer.asPtr with
  | none => rfl
  | some q =>
    funext s
    simp only [bind_assoc, get_bind]
    show EStateM.Result.ok () (⟨World.setVariable q (.float ((s.world.vars.get q).asFloat + delta))
      s.world, s.memo⟩ : Interpreter.State σ) = _
    generalize s.world.vars.get q = v
    cases v <;> rfl

theorem imitates_adjust (hn : n.Fits y.program id) (hs : y.Sourced emitted produce n) {pin : Pin}
    (hpin : n.kind.shape.inputs[0]? = some pin) (htype : pin.type = .pointer .float)
    (delta : Binary32) :
    y.Imitates (Compiler.adjust emitted n delta) [] (Interpreter.adjust produce n delta) Quiet := by
  have hoperand := imitates_operand hn hs hpin fun _ => by rw [htype]; rfl
  rw [htype] at hoperand
  rw [adjust_eq]
  refine gives_bind hoperand fun code => gives_bind (gives_spill _) fun r => ?_
  refine gives_pure fun l₂ l₁ hext₁ _ hr l₀ hext₀ _ hcode => ?_
  obtain ⟨hlocals, hsets, hcount⟩ := hr
  rw [hsets, hlocals, List.append_assoc, List.append_assoc, List.append_assoc]
  refine emulates_bind hcode (fun pointer lanes hpointer => ?_) (Locals.count_le hext₀)
    (Locals.count_le hext₁)
  rw [hcount]
  refine emulates_spill hpointer.length (Nat.le_refl _) ?_
  refine given_after lanes (fun t below hholds => runs_localGets hholds) ?_
  refine given_after (lanes ++ lanes) (fun t below hholds => ?_) (given_of_emulates ?_)
  · rw [List.reverse_append, List.append_assoc]
    exact runs_localGets hholds
  · refine emulates_bind (a := [callImport (.getVariable .float)])
      (emulates_frame lanes (emulates_load hpointer)) (fun v outs houts => ?_) (Nat.le_refl _)
      (Nat.le_refl _)
    obtain ⟨top, rfl, hv⟩ := houts
    obtain ⟨⟨u, rfl⟩, rfl⟩ := And.intro hv.1.float hv.2
    have hadd : ∀ (t : Machine (World σ)) below, Runs y.call [number delta, .numeric .f32Add]
        ((lanes ++ [Lane.f32 u]).reverse ++ below) t
        ((lanes ++ [Lane.f32 (u + delta)]).reverse ++ below) t := by
      intro t below
      rw [List.reverse_append, List.reverse_append]
      exact runs_cons (runs_const _) (runs_numeric rfl)
    exact emulates_after _ hadd
      (emulates_setVariable (t := .float) (v := .float (u + delta)) hpointer
      trivial)

end Compiler
end SignalGraph
