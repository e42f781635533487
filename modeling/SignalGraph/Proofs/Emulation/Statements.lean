import SignalGraph.Proofs.Emulation.Actions

/-!
# Emulated statements

The code of a statement does what executing the statement does, if the code of its branches does
what running them does.
-/

namespace SignalGraph
namespace Compiler

open Wasm Machine Interpreter

variable {σ α β : Type} {y : Setting σ} {lo hi : Nat} {a b : Code} {ins lanes : List Lane}
  {id : NodeId} {n : Node} {emitted : Producer → Emit Code} {produce : Producer → Run σ Value}
  {chain : List NodeId → Emit Code} {follow : List NodeId → Run σ Unit}

/-- What a statement needs of the code of the chains that it starts. -/
def Setting.Continues (y : Setting σ) (chain : List NodeId → Emit Code)
    (follow : List NodeId → Run σ Unit) (n : Node) : Prop :=
  ∀ ids ∈ n.controls, y.Imitates (chain ids) [] (follow ids) Quiet

theorem imitates_branch (hn : n.Fits y.program id) (hc : y.Continues chain follow n) {i : Nat}
    (hi : i < n.kind.shape.branches.length) :
    y.Imitates (branch chain n i) [] (runBranch follow n i) Quiet := by
  obtain ⟨ids, hids, hbranch⟩ := hn.branch hi
  have hrun : runBranch follow n i = follow ids := check_bind hbranch
  rw [hrun]
  exact gives_lift hbranch (hc ids hids)

theorem mem_range'_lt {count i : Nat} (h : i ∈ List.range' lo count) : i < lo + count :=
  (List.mem_range'_1.mp h).2

/-- Two statements in a row, where the first needs no further locals. -/
theorem given_then {is : List Nat} {held : List Lane} {first second : Run σ Unit}
    (ha : y.EmulatesGiven is held lo lo a [] first Quiet)
    (hb : y.EmulatesGiven is held lo hi b [] second Quiet)
    (his : ∀ i ∈ is, i < lo) (hhi : lo ≤ hi) :
    y.EmulatesGiven is held lo hi (a ++ b) [] (first >>= fun _ => second) Quiet := by
  refine given_bind ha (fun _ outs houts => ?_) his (Nat.le_refl lo) hhi
  rw [houts]
  exact hb

/-- The lanes of an answer that may be missing go into locals; if it is there, further code is
run. -/
theorem emulates_sensor {i : Import} {action : StateM σ (Option β)} (absent : List Lane)
    (encode : β → List Lane) {count : Nat} {f : β → Run σ Unit} (hmem : i ∈ Import.table)
    (hlen : lanes.length = i.type.params.length)
    (hhost : ∀ w, Host.run y.engine y.program i lanes w =
      (Host.flagged absent ((World.ask action w).1.map encode), (World.ask action w).2))
    (habsent : absent.length = count) (hencode : ∀ v, (encode v).length = count)
    (hhi : lo + (count + 1) ≤ hi)
    (hb : ∀ v, y.EmulatesGiven (List.range' lo (count + 1)) (.i32 1 :: encode v)
      (lo + (count + 1)) hi b
      [] (f v) Quiet) :
    y.Emulates lo hi (callImport i :: ((List.range' lo (count + 1)).reverse.map .localSet ++
      (getLocals ((List.range' lo (count + 1)).take 1) ++ [.when b]))) lanes
      (inWorld (World.ask action) >>= fun found => found.elim (pure ()) f) Quiet := by
  have hlt : lo ≤ hi := Nat.le_trans (Nat.le_add_right _ _) hhi
  have hask : y.Emulates lo lo [callImport i] lanes (inWorld (World.ask action))
      fun found outs => outs = Host.flagged absent (found.map encode) :=
    emulates_ask (fun found => Host.flagged absent (found.map encode)) hmem hlen hhost fun _ => rfl
  refine emulates_bind (a := [callImport i]) hask (fun found outs houts => ?_) (Nat.le_refl lo) hlt
  rw [houts]
  cases found with
  | none =>
    refine emulates_spill (congrArg (· + 1) habsent) hhi ?_
    refine given_after [.i32 0] (fun t below hholds => ?_) (given_when (fun h => ?_) fun _ => ?_)
    · exact runs_localGets (List.forall₂_take 1 hholds)
    · exact absurd rfl h
    · rfl
  | some v =>
    refine emulates_spill (congrArg (· + 1) (hencode v)) hhi ?_
    refine given_after [.i32 1] (fun t below hholds => ?_) (given_when (fun _ => ?_) fun h => ?_)
    · exact runs_localGets (List.forall₂_take 1 hholds)
    · exact hb v
    · exact nomatch h

theorem gives_storeLocals {i : Nat} {slot : SlotId} (hget : n.slots[i]? = some slot) (f : Format)
    (js : List Nat) :
    Gives (storeLocals n i f js) fun l l' code =>
      l' = l ∧ code = Compiler.id slot :: getLocals js ++ [callImport (.setSlot f)] :=
  gives_lift (Node.slot_eq_ok hget) (gives_pure fun _ => ⟨rfl, rfl⟩)

theorem imitates_touchSensor (hn : n.Fits y.program id) (hc : y.Continues chain follow n)
    (hkind : n.kind = .statement .touchSensor) :
    y.Imitates (touchSensor chain n) []
      (execute y.engine y.program.vars produce follow id n .touchSensor) Quiet := by
  have hslot : n.kind.slots[0]? = some ("touch", .vec3) := by rw [hkind]; rfl
  obtain ⟨slot, hget, -⟩ := hn.slots 0 "touch" .vec3 hslot
  have hbranch := imitates_branch hn hc (i := 0) (by rw [hkind]; exact Nat.zero_lt_one)
  have hrun : execute y.engine y.program.vars produce follow id n .touchSensor =
      (inWorld (World.ask (y.engine.ask
        (.touch (TouchState.ofRaw n.constant.asInt) n.constant.asSecondInt))) >>= fun found =>
          found.elim (pure ()) fun v => writeSlot n 0 (.vec3 ⟨v.x, v.y, 0⟩) >>= fun _ =>
            runBranch follow n 0) := by
    refine congrArg (inWorld _ >>= ·) (funext fun found => ?_)
    cases found <;> rfl
  rw [hrun]
  refine gives_bind (gives_spill _) fun r => gives_lift (Node.slot_eq_ok hget) ?_
  refine gives_bind hbranch fun body => gives_pure fun l₂ l₁ hext₁ _ hbody l₀ hext₀ _ hr => ?_
  obtain ⟨hlocals, hsets, hcount⟩ := hr
  have hsize := Locals.count_le hext₁
  rw [hcount] at hbody hsize
  rw [hsets, hlocals, List.append_assoc, List.append_assoc]
  refine emulates_const (.i32 n.constant.asInt) (emulates_const (.i32 n.constant.asSecondInt) ?_)
  refine emulates_sensor [.f32 0, .f32 0] (fun v => [.f32 v.x, .f32 v.y]) (by decide) rfl
    (fun _ => rfl) rfl (fun _ => rfl) hsize fun v => ?_
  let held : List Lane := [.i32 1, .f32 v.x, .f32 v.y]
  have hloads : ∀ (t : Machine (World σ)) below, Holds t.locals (List.range' l₀.count 3) held →
      Runs y.call (getLocals ((List.range' l₀.count 3).drop 1) ++ [number 0]) below t
        ((Lanes.ofValue (.vec3 ⟨v.x, v.y, 0⟩)).reverse ++ below) t := fun t below hholds =>
    runs_append (runs_localGets (List.forall₂_drop 1 hholds)) (runs_const _)
  have hstore := given_writeSlot (List.range' l₀.count 3) held (l₀.count + 3) hn hslot
    (fun h => nomatch h) (v := .vec3 ⟨v.x, v.y, 0⟩) trivial hloads hget
  have hcode := given_then hstore (given_of_emulates hbody) (fun _ => mem_range'_lt) hsize
  simp only [List.append_assoc, List.cons_append, List.nil_append] at hcode
  exact hcode

theorem imitates_swipeSensor (hn : n.Fits y.program id) (hc : y.Continues chain follow n)
    (hkind : n.kind = .statement .swipeSensor) :
    y.Imitates (swipeSensor chain n) []
      (execute y.engine y.program.vars produce follow id n .swipeSensor) Quiet := by
  have hslot : n.kind.slots[0]? = some ("swipe", .vec3) := by rw [hkind]; rfl
  obtain ⟨slot, hget, -⟩ := hn.slots 0 "swipe" .vec3 hslot
  have hbranch := imitates_branch hn hc (i := 0) (by rw [hkind]; exact Nat.zero_lt_one)
  have hrun : execute y.engine y.program.vars produce follow id n .swipeSensor =
      (inWorld (World.ask (y.engine.ask .swipe)) >>= fun found => found.elim (pure ()) fun v =>
        writeSlot n 0 (.vec3 v) >>= fun _ => runBranch follow n 0) := by
    refine congrArg (inWorld _ >>= ·) (funext fun found => ?_)
    cases found <;> rfl
  rw [hrun]
  refine gives_bind (gives_spill _) fun r => ?_
  refine gives_bind (gives_storeLocals hget .vec3 _) fun store => ?_
  refine gives_bind hbranch fun body => ?_
  refine gives_pure fun l₃ l₂ hext₂ _ hbody l₁ hext₁ _ hstore l₀ hext₀ _ hr => ?_
  obtain ⟨hlocals, hsets, hcount⟩ := hr
  obtain ⟨rfl, rfl⟩ := hstore
  have hsize := Locals.count_le hext₂
  rw [hcount] at hbody hsize
  rw [hsets, hlocals, List.append_assoc]
  refine emulates_sensor (Lanes.vec3 .zero) Lanes.vec3 (by decide) rfl (fun _ => rfl) rfl
    (fun _ => rfl) hsize fun v => ?_
  have hwrite := given_writeSlot (y := y) (List.range' l₀.count 4) (.i32 1 :: Lanes.vec3 v)
    (l₀.count + 4) (t := .vec3) hn hslot (fun h => nomatch h) (v := .vec3 v) trivial
    (fun t below hholds => runs_localGets (List.forall₂_drop 1 hholds)) hget
  exact given_then hwrite (given_of_emulates hbody) (fun _ => mem_range'_lt) hsize

theorem imitates_collision (hn : n.Fits y.program id) (hs : y.Sourced emitted produce n)
    (hc : y.Continues chain follow n) (hkind : n.kind = .statement .collision) :
    y.Imitates (collision emitted chain n) []
      (execute y.engine y.program.vars produce follow id n .collision) Quiet := by
  have hother : n.kind.slots[0]? = some ("other", .obj) := by rw [hkind]; rfl
  have himpulse : n.kind.slots[1]? = some ("impulse", .float) := by rw [hkind]; rfl
  have hnormal : n.kind.slots[2]? = some ("normal", .vec3) := by rw [hkind]; rfl
  obtain ⟨other, hget, -⟩ := hn.slots 0 "other" .obj hother
  obtain ⟨impulse, hget', -⟩ := hn.slots 1 "impulse" .float himpulse
  obtain ⟨normal, hget'', -⟩ := hn.slots 2 "normal" .vec3 hnormal
  have hbranch := imitates_branch hn hc (i := 0) (by rw [hkind]; exact Nat.zero_lt_one)
  have hpin : n.kind.shape.inputs[0]? = some (.data .obj "1st Object") := by rw [hkind]; rfl
  have hoperand := imitates_operand hn hs hpin fun h => nomatch h
  have hrun : execute y.engine y.program.vars produce follow id n .collision =
      (input produce n 0 >>= fun object =>
        inWorld (World.ask (y.engine.ask (.collision object.asObj))) >>= fun found =>
          found.elim (pure ()) fun c => writeSlot n 0 (.obj c.object) >>= fun _ =>
            writeSlot n 1 (.float c.impulse) >>= fun _ =>
            writeSlot n 2 (.vec3 c.normal) >>= fun _ =>
              runBranch follow n 0) := by
    refine congrArg (input produce n 0 >>= ·) (funext fun object => ?_)
    refine congrArg (inWorld _ >>= ·) (funext fun found => ?_)
    cases found <;> rfl
  rw [hrun]
  refine gives_bind hoperand fun object => gives_bind (gives_spill _) fun r => ?_
  refine gives_bind (gives_storeLocals hget .word _) fun store => ?_
  refine gives_bind (gives_storeLocals hget' .float _) fun store' => ?_
  refine gives_bind (gives_storeLocals hget'' .vec3 _) fun store'' => ?_
  refine gives_bind hbranch fun body => ?_
  refine gives_pure
    fun l₆ l₅ hext₅ _ hbody l₄ _ _ hstore'' l₃ _ _ hstore' l₂ _ _ hstore l₁ hext₁ _ hr
    l₀ hext₀ _ hobject => ?_
  obtain ⟨hlocals, hsets, hcount⟩ := hr
  obtain ⟨rfl, rfl⟩ := hstore
  obtain ⟨rfl, rfl⟩ := hstore'
  obtain ⟨rfl, rfl⟩ := hstore''
  have hsize := Locals.count_le hext₅
  rw [hcount] at hbody hsize
  rw [hsets, hlocals, List.append_assoc, List.append_assoc]
  refine emulates_bind hobject (fun v outs hv => ?_) (Locals.count_le hext₀)
    (Nat.le_trans (Locals.count_le hext₁) (Locals.count_le hext₅))
  obtain ⟨⟨o, rfl⟩, rfl⟩ := And.intro hv.1.obj hv.2
  refine emulates_sensor (Host.contact ⟨0, 0, .zero⟩) Host.contact (by decide) rfl
    (fun _ => rfl) rfl (fun _ => rfl) hsize fun c => ?_
  have hwrite := given_writeSlot (y := y) (List.range' l₁.count 6) (.i32 1 :: Host.contact c)
    (l₁.count + 6) (t := .obj) hn hother (fun h => nomatch h) (v := .obj c.object) trivial
    (fun t below hholds => runs_localGets (List.forall₂_take 1 (List.forall₂_drop 1 hholds))) hget
  have hwrite' := given_writeSlot (y := y) (List.range' l₁.count 6) (.i32 1 :: Host.contact c)
    (l₁.count + 6) (t := .float) hn himpulse (fun h => nomatch h) (v := .float c.impulse) trivial
    (fun t below hholds => runs_localGets (List.forall₂_take 1 (List.forall₂_drop 2 hholds))) hget'
  have hwrite'' := given_writeSlot (y := y) (List.range' l₁.count 6) (.i32 1 :: Host.contact c)
    (l₁.count + 6) (t := .vec3) hn hnormal (fun h => nomatch h) (v := .vec3 c.normal) trivial
    (fun t below hholds => runs_localGets (List.forall₂_drop 3 hholds)) hget''
  have hlt : ∀ i ∈ List.range' l₁.count 6, i < l₁.count + 6 := fun _ => mem_range'_lt
  have hcode := given_then hwrite (given_then hwrite' (given_then hwrite'' (given_of_emulates hbody)
    hlt hsize) hlt hsize) hlt hsize
  rw [List.append_assoc, List.append_assoc]
  exact hcode

/-! ## Loops -/

theorem gives_fresh (t : LaneType) :
    Gives (fresh t) fun l l' i => i = l.count ∧ l'.count = l.count + 1 := by
  intro l
  refine ⟨_, _, rfl, ⟨rfl, List.prefix_append _ _⟩, rfl, ?_⟩
  simp [Locals.count, Nat.add_assoc]

/-- The body of a loop's code: the test, the counter, the branch, and the step to the next round. -/
def rounds (lo : Nat) (slot : SlotId) (body : Code) : Code :=
  getLocals [lo + 3, lo + 2] ++ ([.numeric .i32GeU, .brIf 1] ++
    ((Compiler.id slot :: getLocals [lo, lo + 1, lo + 3] ++
      [callImport .loopCounter, callImport (.setSlot .float)]) ++
      (body ++ [.localGet (lo + 3), int 1, .numeric .i32Add, .localSet (lo + 3), .br 0])))

/-- What the locals of a loop hold in a round. -/
abbrev InRound (lo : Nat) (start stop : Binary32) (total k : UInt32) (locals : Array Lane) : Prop :=
  Holds locals [lo, lo + 1, lo + 2, lo + 3]
    [.f32 start, .f32 stop, .i32 total.toInt32, .i32 k.toInt32]

variable {start stop : Binary32} {total k : UInt32} {t t' : Machine (World σ)}

theorem runs_test (h : InRound lo start stop total k t.locals) :
    Runs y.call (getLocals [lo + 3, lo + 2] ++ [.numeric .i32GeU]) [] t
      [ofBool (decide (total ≤ k))] t := by
  obtain _ | ⟨-, _ | ⟨-, _ | ⟨htotal, _ | ⟨hk, -⟩⟩⟩⟩ := h
  refine runs_append (runs_localGets (.cons hk (.cons htotal .nil))) (runs_numeric ?_)
  show some [ofBool (decide (total.toInt32.toUInt32 ≤ k.toInt32.toUInt32))] = _
  rw [UInt32.toUInt32_toInt32, UInt32.toUInt32_toInt32]

/-- The counter of a round goes into the slot of the loop. -/
theorem given_counter {slot : SlotId} {owner : NodeId} {purpose : String}
    (hdecl : y.program.slots[slot]? = some { owner, purpose, type := .float }) :
    y.EmulatesGiven [lo, lo + 1, lo + 2, lo + 3]
      [.f32 start, .f32 stop, .i32 total.toInt32, .i32 k.toInt32] hi hi
      (Compiler.id slot :: getLocals [lo, lo + 1, lo + 3] ++
        [callImport .loopCounter, callImport (.setSlot .float)]) []
      (Interpreter.onWorld (World.setSlot slot (.float (Routines.loopCounter start stop k))))
        Quiet := by
  refine given_after ([.i32 (Int32.ofNat slot)] ++ [.f32 start, .f32 stop, .i32 k.toInt32])
    (fun t below hholds => ?_) (given_of_emulates ?_)
  · obtain _ | ⟨hstart, _ | ⟨hstop, _ | ⟨-, _ | ⟨hk, -⟩⟩⟩⟩ := hholds
    exact runs_cons (runs_const _) (runs_localGets (.cons hstart (.cons hstop (.cons hk .nil))))
  · have hcall : y.Emulates hi hi [callImport .loopCounter] [.f32 start, .f32 stop, .i32 k.toInt32]
        (pure ()) fun _ outs => outs = [.f32 (Routines.loopCounter start stop k)] := by
      refine emulates_import (by decide) rfl fun s u s' hs hrun => ?_
      cases hrun
      exact ⟨rfl, hs, rfl⟩
    have hcode : y.Emulates hi hi ([callImport .loopCounter] ++ [callImport (.setSlot .float)])
        ([.i32 (Int32.ofNat slot)] ++ [.f32 start, .f32 stop, .i32 k.toInt32])
        (pure () >>= fun _ => Interpreter.onWorld
          (World.setSlot slot (.float (Routines.loopCounter start stop k))))
        Quiet := by
      refine emulates_bind (emulates_frame [.i32 (Int32.ofNat slot)] hcall) (fun _ outs houts => ?_)
        (Nat.le_refl hi) (Nat.le_refl hi)
      obtain ⟨top, rfl, rfl⟩ := houts
      exact emulates_setSlot (t := .float) (v := .float _) hdecl (fun h => nomatch h) trivial
    exact hcode

/-- The counter of a round is in its local for the next. -/
theorem runs_advance (h : InRound lo start stop total k t.locals) :
    ∃ t', Runs y.call [.localGet (lo + 3), int 1, .numeric .i32Add, .localSet (lo + 3)] [] t [] t' ∧
      InRound lo start stop total (k + 1) t'.locals ∧ t'.host = t.host ∧ t'.globals = t.globals ∧
      Kept lo t t' := by
  obtain _ | ⟨hstart, _ | ⟨hstop, _ | ⟨htotal, _ | ⟨hk, _⟩⟩⟩⟩ := h
  have hlt : lo + 3 < t.locals.size := (Array.getElem?_eq_some_iff.mp hk).1
  have hother : ∀ i lane, i < lo + 3 →
      (t.locals.setIfInBounds (lo + 3) lane)[i]? = t.locals[i]? := by
    intro i lane hi
    exact Array.getElem?_setIfInBounds_ne (by omega)
  refine ⟨{ t with locals := t.locals.setIfInBounds (lo + 3) (.i32 (k + 1).toInt32) }, ?_,
    ?_, rfl, rfl,
    ?_, ?_⟩
  · have hadd : Runs y.call [.numeric .i32Add] [.i32 1, .i32 k.toInt32] t
      [.i32 (k + 1).toInt32] t := by
      rw [UInt32.toInt32_add]
      exact runs_numeric rfl
    exact runs_cons (runs_localGet hk)
      (runs_cons (runs_const _) (runs_cons hadd (runs_localSet _ _)))
  · refine .cons ?_ (.cons ?_ (.cons ?_ (.cons ?_ .nil)))
    · rw [hother lo _ (by omega)]
      exact hstart
    · rw [hother (lo + 1) _ (by omega)]
      exact hstop
    · rw [hother (lo + 2) _ (by omega)]
      exact htotal
    · exact Array.getElem?_setIfInBounds_self_of_lt hlt
  · exact Array.size_setIfInBounds
  · intro i hi
    exact hother i _ (by omega)

theorem rounds_eq (lo : Nat) (slot : SlotId) (body : Code) :
    rounds lo slot body = (getLocals [lo + 3, lo + 2] ++ [.numeric .i32GeU]) ++
      ([.brIf 1] ++ (((Compiler.id slot :: getLocals [lo, lo + 1, lo + 3] ++
        [callImport .loopCounter, callImport (.setSlot .float)]) ++ body) ++
        ([.localGet (lo + 3), int 1, .numeric .i32Add, .localSet (lo + 3)] ++ [.br 0]))) := by
  rw [rounds, List.append_assoc, List.append_assoc _ body]
  rfl

/-- The last test leaves the loop. -/
theorem rounds_exit {slot : SlotId} (hin : InRound lo start stop total k t.locals)
    (hle : total ≤ k) :
    instrs y.call (rounds lo slot b) [] t = .ok (.jump 1) t := by
  have htest := runs_test (y := y) hin
  rw [decide_eq_true hle] at htest
  rw [rounds_eq, instrs_append htest]
  exact instrs_brIf 1 (by decide)

/-- A round runs the body and goes back to the start of the loop. -/
theorem rounds_again {slot : SlotId} {owner : NodeId} {purpose : String} {round : Run σ Unit}
    (hdecl : y.program.slots[slot]? = some { owner, purpose, type := .float })
    (hb : y.Emulates (lo + 4) hi b [] round Quiet) (hhi : lo + 4 ≤ hi)
    (hin : InRound lo start stop total k t.locals) (hlt : ¬total ≤ k) {s s' : Interpreter.State σ}
    (hst : Agrees y.program y.frames s t) (hsize : hi ≤ t.locals.size)
    (hrun : (Interpreter.onWorld
      (World.setSlot slot (.float (Routines.loopCounter start stop k))) >>= fun _ => round) s =
        .ok () s') :
    ∃ t', instrs y.call (rounds lo slot b) [] t = .ok (.jump 0) t' ∧
      InRound lo start stop total (k + 1) t'.locals ∧ Agrees y.program y.frames s' t' ∧
      Kept lo t t' := by
  have his : ∀ i ∈ [lo, lo + 1, lo + 2, lo + 3], i < lo + 4 := by
    intro i hi
    simp only [List.mem_cons, List.not_mem_nil, or_false] at hi
    omega
  have hcounter : y.EmulatesGiven [lo, lo + 1, lo + 2, lo + 3]
      [.f32 start, .f32 stop, .i32 total.toInt32, .i32 k.toInt32] (lo + 4) (lo + 4) _ [] _ Quiet :=
    given_counter hdecl
  have hround := given_then hcounter (given_of_emulates hb) his hhi
  obtain ⟨t₁, _, hruns, rfl, hst₁, hkept₁⟩ := hround s t [] () s' hst hin hsize hrun
  obtain ⟨t₂, hadvance, hin₂, hhost, hglobals, hkept₂⟩ :=
    runs_advance (y := y) (hkept₁.holds his hin)
  refine ⟨t₂, ?_, hin₂, hst₁.of_locals hhost hglobals, ?_⟩
  · have htest := runs_test (y := y) hin
    rw [decide_eq_false hlt] at htest
    have hstay : Runs y.call [.brIf 1] [ofBool false] t [] t := runs_brIf_zero 1
    rw [rounds_eq, instrs_append htest, instrs_append hstay]
    refine (instrs_append hruns).trans ?_
    refine (instrs_append hadvance).trans ?_
    exact instrs_br 0
  · have hkept₁ : Kept lo t t₁ := ⟨hkept₁.size, fun i hi => hkept₁.below i (by omega)⟩
    exact hkept₁.trans hkept₂ (Nat.le_refl lo)

/-- Rounds from one counter on, by induction on how many are left. -/
theorem iterate_rounds {slot : SlotId} {owner : NodeId} {purpose : String} {round : Run σ Unit}
    (hdecl : y.program.slots[slot]? = some { owner, purpose, type := .float })
    (hb : y.Emulates (lo + 4) hi b [] round Quiet) (hhi : lo + 4 ≤ hi) {left : Nat} :
    ∀ {bound : Nat} {k : UInt32} {s s' : Interpreter.State σ} {t : Machine (World σ)},
      k.toNat + left = total.toNat → left < bound → Agrees y.program y.frames s t →
      InRound lo start stop total k t.locals → hi ≤ t.locals.size →
      repeatFrom (fun k => Interpreter.onWorld
        (World.setSlot slot (.float (Routines.loopCounter start stop k))) >>= fun _ => round)
        left k s = .ok () s' →
      ∃ t', iterate (instrs y.call (rounds lo slot b) []) bound t = .ok (.jump 0) t' ∧
        Agrees y.program y.frames s' t' ∧ Kept lo t t' := by
  induction left with
  | zero =>
    intro bound k s s' t hk hbound hst hin hsize hrun
    cases hrun
    obtain ⟨bound, rfl⟩ := Nat.exists_eq_succ_of_ne_zero (Nat.ne_zero_of_lt hbound)
    have hle : total ≤ k := UInt32.le_iff_toNat_le.mpr (by omega)
    exact ⟨t, iterate_exit (rounds_exit hin hle), hst, Kept.refl lo t⟩
  | succ left ih =>
    intro bound k s s' t hk hbound hst hin hsize hrun
    obtain ⟨bound, rfl⟩ := Nat.exists_eq_succ_of_ne_zero (Nat.ne_zero_of_lt hbound)
    have htotal := total.toNat_lt
    have hlt : ¬total ≤ k := fun hle => by
      have := UInt32.le_iff_toNat_le.mp hle
      omega
    have hnext : (k + 1).toNat = k.toNat + 1 := by
      rw [UInt32.toNat_add, UInt32.toNat_one]
      omega
    obtain ⟨_, s₁, hround, hrest⟩ := Interpreter.bind_eq_ok hrun
    obtain ⟨t₁, hjump, hin₁, hst₁, hkept₁⟩ := rounds_again hdecl hb hhi hin hlt hst hsize hround
    have hsize₁ : hi ≤ t₁.locals.size := by
      rw [hkept₁.size]
      exact hsize
    obtain ⟨t₂, hiterate, hst₂, hkept₂⟩ :=
      ih (by omega) (Nat.lt_of_succ_lt_succ hbound) hst₁ hin₁ hsize₁ hrest
    exact ⟨t₂, (iterate_again hjump).trans hiterate, hst₂, hkept₁.trans hkept₂ (Nat.le_refl lo)⟩

def loopStart (lo : Nat) : Code :=
  (List.range' lo 2).reverse.map .localSet ++ (getLocals (List.range' lo 2) ++
    [callImport .loopCount, .localSet (lo + 2), int 0, .localSet (lo + 3)])

theorem runs_loopStart (start stop : Binary32) (hsize : lo + 4 ≤ t.locals.size)
    (below : List Lane) :
    ∃ t', Runs y.call (loopStart lo) ([.f32 start, .f32 stop].reverse ++ below) t below t' ∧
      InRound lo start stop (Routines.loopCount start stop) 0 t'.locals ∧ t'.host = t.host ∧
      t'.globals = t.globals ∧ Kept lo t t' := by
  have hcount : [Lane.f32 start, .f32 stop].length = 2 := rfl
  have hroom : lo + 2 ≤ t.locals.size := by omega
  obtain ⟨t₁, hspill, hholds, hhost, hglobals, hkept⟩ := runs_spill (y := y) hcount hroom below
  have hcall : y.call Import.loopCount.index ([.f32 start, .f32 stop].reverse ++ below) t₁ =
      .ok (.i32 (Routines.loopCount start stop).toInt32 :: below) t₁ :=
    y.imports .loopCount (by decide) [.f32 start, .f32 stop] below t₁ rfl
  obtain _ | ⟨hstart, _ | ⟨hstop, _⟩⟩ := hholds
  have hsize₁ : lo + 4 ≤ t₁.locals.size := by
    rw [hkept.size]
    exact hsize
  refine ⟨_, runs_append hspill (runs_append (runs_localGets (.cons hstart (.cons hstop .nil)))
    (runs_cons (runs_call hcall) (runs_cons (runs_localSet _ _) (runs_cons (runs_const _)
      (runs_localSet _ _))))), ?_, hhost, hglobals, ?_⟩
  · refine .cons ?_ (.cons ?_ (.cons ?_ (.cons ?_ .nil)))
    · rw [Array.getElem?_setIfInBounds_ne (by omega), Array.getElem?_setIfInBounds_ne (by omega)]
      exact hstart
    · rw [Array.getElem?_setIfInBounds_ne (by omega), Array.getElem?_setIfInBounds_ne (by omega)]
      exact hstop
    · rw [Array.getElem?_setIfInBounds_ne (by omega)]
      exact Array.getElem?_setIfInBounds_self_of_lt (by omega)
    · refine Array.getElem?_setIfInBounds_self_of_lt ?_
      rw [Array.size_setIfInBounds]
      omega
  · refine ⟨?_, fun i hi => ?_⟩
    · rw [Array.size_setIfInBounds, Array.size_setIfInBounds]
      exact hkept.size
    · rw [Array.getElem?_setIfInBounds_ne (by omega), Array.getElem?_setIfInBounds_ne (by omega)]
      exact hkept.below i hi

theorem emulates_loop (start stop : Binary32) {slot : SlotId} {owner : NodeId} {purpose : String}
    {round : Run σ Unit}
    (hdecl : y.program.slots[slot]? = some { owner, purpose, type := .float })
    (hb : y.Emulates (lo + 4) hi b [] round Quiet) (hhi : lo + 4 ≤ hi) :
    y.Emulates lo hi (loopStart lo ++ [.block [.loop (rounds lo slot b)]]) [.f32 start, .f32 stop]
      (repeatFrom (fun k => Interpreter.onWorld
        (World.setSlot slot (.float (Routines.loopCounter start stop k))) >>= fun _ => round)
        (Routines.loopCount start stop).toNat 0) Quiet := by
  intro s t below v s' hst hsize hrun
  obtain ⟨t₁, hstart, hin, hhost, hglobals, hkept₁⟩ :=
    runs_loopStart (y := y) start stop (Nat.le_trans hhi hsize) below
  have hsize₁ : hi ≤ t₁.locals.size := by
    rw [hkept₁.size]
    exact hsize
  have htotal : (0 : UInt32).toNat + (Routines.loopCount start stop).toNat =
      (Routines.loopCount start stop).toNat := Nat.zero_add _
  obtain ⟨t₂, hiterate, hst₂, hkept₂⟩ := iterate_rounds hdecl hb hhi htotal
    (Routines.loopCount start stop).toNat_lt (hst.of_locals hhost hglobals) hin hsize₁ hrun
  exact ⟨t₂, [], runs_append hstart (runs_block_loop hiterate), rfl, hst₂,
    hkept₁.trans hkept₂ (Nat.le_refl lo)⟩

theorem runLoop_eq {slot : SlotId} (hget : n.slots[0]? = some slot) :
    runLoop produce follow n = (inputs produce n 2 >>= fun vs =>
      repeatFrom (fun k => Interpreter.onWorld (World.setSlot slot (.float (Routines.loopCounter
        (vs.getD 0 .void).asFloat (vs.getD 1 .void).asFloat k))) >>= fun _ => runBranch follow n 0)
        (Routines.loopCount (vs.getD 0 .void).asFloat (vs.getD 1 .void).asFloat).toNat 0) := by
  refine Eq.trans ?_ (bind_inputs fun start stop => repeatFrom (fun k => Interpreter.onWorld
    (World.setSlot slot (.float (Routines.loopCounter start.asFloat stop.asFloat k))) >>=
      fun _ => runBranch follow n 0)
      (Routines.loopCount start.asFloat stop.asFloat).toNat 0)
  refine congrArg (input produce n 0 >>= ·) (funext fun start => ?_)
  refine congrArg (input produce n 1 >>= ·) (funext fun stop => ?_)
  exact check_bind (Node.slot_eq_ok hget)

theorem imitates_loop (hn : n.Fits y.program id) (hs : y.Sourced emitted produce n)
    (hc : y.Continues chain follow n) (hkind : n.kind = .statement .loop) :
    y.Imitates (loop emitted chain n) [] (runLoop produce follow n) Quiet := by
  obtain ⟨slot, hget, hdecl⟩ := hn.slots 0 "counter" .float (by rw [hkind]; rfl)
  have hoperands := imitates_operands hn hs (by rw [hkind]; decide)
  rw [hkind] at hoperands
  have hbranch := imitates_branch hn hc (i := 0) (by rw [hkind]; exact Nat.zero_lt_one)
  rw [runLoop_eq hget]
  refine gives_bind hoperands fun arguments => gives_bind (gives_spill _) fun r => ?_
  refine gives_bind (gives_fresh .i32) fun count => gives_bind (gives_fresh .i32) fun k => ?_
  refine gives_lift (Node.slot_eq_ok hget) (gives_bind hbranch fun body => ?_)
  refine gives_pure fun l₅ l₄ hext₄ _ hbody l₃ hext₃ _ hk l₂ hext₂ _ hcount l₁ hext₁ _ hr l₀ hext₀ _
    harguments => ?_
  obtain ⟨hlocals, hsets, hsize⟩ := hr
  obtain ⟨rfl, hcount⟩ := hcount
  obtain ⟨rfl, hk⟩ := hk
  have hle := Locals.count_le hext₄
  have hfour : l₄.count = l₁.count + 4 := by
    rw [hk, hcount, hsize]
    rfl
  rw [hfour] at hbody hle
  rw [hcount, hsize, hsets, hlocals]
  simp only [List.append_assoc, List.cons_append, List.nil_append]
  refine emulates_bind harguments (fun vs lanes hvs => ?_) (Locals.count_le hext₀) (by omega)
  obtain ⟨u, v, first, second, rfl, rfl, hu, hv⟩ := filled_two hvs
  obtain ⟨⟨start, rfl⟩, rfl⟩ := And.intro hu.1.float hu.2
  obtain ⟨⟨stop, rfl⟩, rfl⟩ := And.intro hv.1.float hv.2
  have hloop := emulates_loop start stop hdecl hbody hle
  simp only [loopStart, rounds, List.append_assoc, List.cons_append, List.nil_append] at hloop
  exact hloop

end Compiler
end SignalGraph
