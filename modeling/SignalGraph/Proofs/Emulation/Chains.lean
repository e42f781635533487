import SignalGraph.Proofs.Emission.Validity
import SignalGraph.Proofs.Emulation.Statements

/-!
# Emulated chains

The code of a chain does what running the chain does.  Statements with functions of their own are
calls, and they do what the statements do, with all that follows them.
-/

namespace SignalGraph
namespace Compiler

open Wasm Machine Interpreter

variable {σ α β : Type} {y : Setting σ} {lo hi : Nat} {a b : Code} {ins lanes : List Lane}
  {id : NodeId} {n : Node} {emitted : Producer → Emit Code} {produce : Producer → Run σ Value}
  {chain : List NodeId → Emit Code} {follow : List NodeId → Run σ Unit}

theorem emulates_inspect (hget : y.program.nodes[id]? = some n) {t : Base}
    (hkind : n.kind = .statement (.inspect (.value t))) {v : Value} (hv : v.HasBase t) :
    y.Emulates lo hi [callImport (.inspect (.ofBase t))] (.i32 (Int32.ofNat id) :: Lanes.ofValue v)
      (inWorld (World.ask (y.engine.ask
        (.inspect v (.value t) n.constant.inspected n.block n.pos)))) Quiet := by
  have hmem : Import.inspect (.ofBase t) ∈ Import.table :=
    mem_table (fun h => nomatch h) fun h => nomatch h
  have hlt : id < 4294967296 :=
    Nat.lt_of_lt_of_le (Array.getElem?_eq_some_iff.mp hget).1 y.addressable.nodes
  have hlen : (.i32 (Int32.ofNat id) :: Lanes.ofValue v : List Lane).length =
      (LaneType.i32 :: (Format.ofBase t).lanes).length := by
    rw [List.length_cons, Lanes.length_ofValue hv, List.length_cons, Format.lanes_ofBase]
  refine emulates_ask (fun _ => []) hmem hlen (fun w => ?_) fun _ => rfl
  show (do
    Host.inspect y.engine y.program (.ofBase t) (Int32.ofNat id) (Lanes.ofValue v)
    return []) w = _
  unfold Host.inspect
  rw [toNat_ofNat hlt, hget]
  dsimp only
  rw [hkind]
  dsimp only
  rw [Format.toValue_ofBase hv]
  rfl

theorem emulates_deferLate (hlate : y.program.IsLate id) :
    y.Emulates lo hi [Compiler.id id, callImport .deferLate] []
      (Interpreter.onWorld (World.queue id)) Quiet := by
  have hlt : id < 4294967296 := by
    obtain ⟨n, hget, -⟩ := hlate
    exact Nat.lt_of_lt_of_le (Array.getElem?_eq_some_iff.mp hget).1 y.addressable.nodes
  refine emulates_const (.i32 (Int32.ofNat id)) ?_
  refine emulates_import (by decide) rfl fun s u s' hs hrun => ?_
  cases hrun
  have hhost : Host.run y.engine y.program .deferLate [.i32 (Int32.ofNat id)] s.world =
      ([], World.queue (Host.idOf (Int32.ofNat id)) s.world) := rfl
  rw [List.nil_append, hhost, toNat_ofNat hlt]
  exact ⟨rfl, typed_queue hs hlate, rfl⟩

/-- A truth that the engine tells decides about a branch. -/
theorem emulates_condition {i : Import} {action : StateM σ Bool} {round : Run σ Unit}
    (hmem : i ∈ Import.table) (hlen : lanes.length = i.type.params.length)
    (hhost : ∀ w, Host.run y.engine y.program i lanes w =
      (Host.truth (World.ask action w).1, (World.ask action w).2))
    (hb : y.Emulates lo hi b [] round Quiet) (hhi : lo ≤ hi) :
    y.Emulates lo hi [callImport i, .when b] lanes
      (inWorld (World.ask action) >>= fun t => if t then round else pure ()) Quiet := by
  have hask : y.Emulates lo lo [callImport i] lanes (inWorld (World.ask action))
      fun t outs => outs = Host.truth t :=
    emulates_ask Host.truth hmem hlen hhost fun _ => rfl
  refine emulates_bind (a := [callImport i]) hask (fun t outs houts => ?_) (Nat.le_refl lo) hhi
  rw [houts]
  cases t with
  | true => exact emulates_when (fun _ => hb) fun h => nomatch h
  | false => exact emulates_when (fun h => absurd rfl h) fun _ => rfl

theorem imitates_ifThen (hn : n.Fits y.program id) (hs : y.Sourced emitted produce n)
    (hc : y.Continues chain follow n) (hkind : n.kind = .statement .ifThen) :
    y.Imitates (statement emitted chain id n .ifThen) []
      (execute y.engine y.program.vars produce follow id n .ifThen) Quiet := by
  have hpin : n.kind.shape.inputs[0]? = some (.data .bool "Condition") := by rw [hkind]; rfl
  have hbranch : ∀ i < 2, y.Imitates (branch chain n i) [] (runBranch follow n i) Quiet :=
    fun i hi => imitates_branch hn hc (by rw [hkind]; exact hi)
  refine gives_bind (imitates_operand hn hs hpin fun h => nomatch h) fun condition => ?_
  refine gives_bind (hbranch 0 Nat.zero_lt_two) fun onTrue => ?_
  refine gives_bind (hbranch 1 Nat.one_lt_two) fun onFalse => ?_
  refine gives_pure fun l₃ l₂ hext₂ _ hfalse l₁ hext₁ _ htrue l₀ hext₀ _ hcondition => ?_
  have hle := Locals.count_le hext₁
  have hle' := Locals.count_le hext₂
  refine emulates_bind hcondition (fun v outs hv => ?_) (Locals.count_le hext₀) (by omega)
  obtain ⟨⟨t, rfl⟩, rfl⟩ := And.intro hv.1.bool hv.2
  refine emulates_test (fun ht => ?_) fun ht => ?_
  · rw [ht]
    exact emulates_locals htrue (Nat.le_refl _) hle'
  · rw [ht]
    exact emulates_locals hfalse hle (Nat.le_refl _)

/-- The first frame is the one whose number is zero. -/
theorem emulates_firstFrame {round : Run σ Unit} (hb : y.Emulates lo hi b [] round Quiet)
    (hhi : lo ≤ hi) :
    y.Emulates lo hi [callImport .currentFrame, .numeric .i32Eqz, .when b] []
      (inWorld (World.ask (y.engine.ask .currentFrame)) >>= fun frame =>
        if frame = 0 then round else pure ()) Quiet := by
  refine emulates_bind (a := [callImport .currentFrame]) emulates_currentFrame
    (fun frame outs houts => ?_) (Nat.le_refl _) hhi
  rw [houts]
  refine emulates_after (a := [.numeric .i32Eqz]) [ofBool (frame.toInt32 == 0)]
    (fun _ _ => runs_numeric rfl) ?_
  by_cases hzero : frame = 0
  · rw [if_pos hzero, hzero]
    exact emulates_when (fun _ => hb) fun h => nomatch h
  · have hne : (frame.toInt32 == 0) = false := by
      refine beq_false_of_ne fun h => hzero ?_
      rw [← UInt32.toUInt32_toInt32 frame, h]
      rfl
    rw [if_neg hzero, hne]
    exact emulates_when (fun h => absurd rfl h) fun _ => rfl

theorem imitates_setVariable (hn : n.Fits y.program id) (hs : y.Sourced emitted produce n)
    {t : Base} (hkind : n.kind = .statement (.setVariable (.value t))) :
    y.Imitates (statement emitted chain id n (.setVariable (.value t))) []
      (execute y.engine y.program.vars produce follow id n (.setVariable (.value t))) Quiet := by
  obtain ⟨var, decl, hvar, hdecl, htype⟩ := hn.named (.value t) (by rw [hkind]; rfl)
  cases htype
  have hpin : n.kind.shape.inputs[0]? = some { type := .value decl.type, name := "Value" } := by
    rw [hkind]
    rfl
  have hpointer : Value.InLanes y.program.vars (.pointer decl.type) (.ptr { var, index := 0 })
      (Lanes.pointer { var, index := 0 }) := .inr ⟨_, decl, rfl, hdecl, rfl, rfl⟩
  have hcode : variablePointer n.constant = (Lanes.pointer { var, index := 0 }).map .const := by
    unfold variablePointer
    rw [hvar]
    rfl
  have hrun : execute y.engine y.program.vars produce follow id n
    (.setVariable (.value decl.type)) =
      (input produce n 0 >>= fun v => store (.ptr { var, index := 0 }) v) := by
    unfold execute
    rw [hvar]
    rfl
  rw [hrun]
  unfold statement
  rw [hcode]
  refine gives_bind (imitates_operand hn hs hpin fun h => nomatch h) fun written => ?_
  refine gives_pure fun l₁ l₀ hext _ hwritten => ?_
  rw [List.append_assoc]
  refine emulates_after _ (fun _ _ => runs_consts) ?_
  have hframe := emulates_frame (Lanes.pointer { var, index := 0 }) hwritten
  rw [List.append_nil] at hframe
  refine emulates_bind hframe (fun v outs houts => ?_) (Locals.count_le hext) (Nat.le_refl _)
  obtain ⟨top, rfl, hv, rfl⟩ := houts
  exact emulates_setVariable hpointer hv

theorem imitates_setPointer (hn : n.Fits y.program id) (hs : y.Sourced emitted produce n)
    {t : Base} (hkind : n.kind = .statement (.setPointer (.value t))) :
    y.Imitates (statement emitted chain id n (.setPointer (.value t))) []
      (execute y.engine y.program.vars produce follow id n (.setPointer (.value t))) Quiet := by
  have hrequired : ∀ pin ∈ n.kind.shape.inputs, pin.optional = true →
      pin.type.isPointer = true := by
    rw [hkind]
    rintro pin (_ | ⟨_, _ | ⟨_, hpin⟩⟩) hoptional
    · rfl
    · exact nomatch hoptional
    · exact nomatch hpin
  have hoperands := imitates_operands hn hs hrequired
  rw [hkind] at hoperands
  have hrun : execute y.engine y.program.vars produce follow id n (.setPointer (.value t)) =
      (inputs produce n 2 >>= fun vs => store (vs.getD 0 .void) (vs.getD 1 .void)) := by
    refine Eq.trans ?_ (bind_inputs fun pointer v => store pointer v)
    refine congrArg (input produce n 0 >>= ·) (funext fun pointer => ?_)
    refine congrArg (input produce n 1 >>= ·) (funext fun v => ?_)
    unfold store
    cases pointer.asPtr <;> rfl
  rw [hrun]
  refine gives_bind hoperands fun arguments => gives_pure fun l₁ l₀ hext _ harguments => ?_
  refine emulates_bind harguments (fun vs outs hvs => ?_) (Locals.count_le hext) (Nat.le_refl _)
  obtain ⟨u, v, first, second, rfl, rfl, hu, hv⟩ := filled_two hvs
  obtain ⟨hbase, rfl⟩ := hv
  exact emulates_setVariable hu hbase

theorem imitates_statement (hget : y.program.nodes[id]? = some n) (hs : y.Sourced emitted produce n)
    (hc : y.Continues chain follow n) {st : Statement} (hkind : n.kind = .statement st) :
    y.Imitates (statement emitted chain id n st) []
      (execute y.engine y.program.vars produce follow id n st) Quiet := by
  have hn := y.wellFormed.nodes id n hget
  have hplain := hn.plain
  have hbranch : 0 < st.shape.branches.length →
      y.Imitates (branch chain n 0) [] (runBranch follow n 0) Quiet := by
    intro hi
    rw [← Node.shape_of_statement hkind] at hi
    exact imitates_branch hn hc hi
  rw [hkind] at hplain
  cases st with
  | effect e => exact imitates_effect hn hs hkind
  | menuItem => exact imitates_menuItem hget hs hkind
  | touchSensor => exact imitates_touchSensor hn hc hkind
  | swipeSensor => exact imitates_swipeSensor hn hc hkind
  | collision => exact imitates_collision hn hs hc hkind
  | loop => exact imitates_loop hn hs hc hkind
  | increment => exact imitates_adjust hn hs (by rw [hkind]; rfl) rfl 1
  | decrement => exact imitates_adjust hn hs (by rw [hkind]; rfl) rfl (-1)
  | lateUpdate => exact imitates_pure fun _ => emulates_deferLate ⟨n, hget, hkind⟩
  | ifThen => exact imitates_ifThen hn hs hc hkind
  | playSensor =>
    refine gives_bind (hbranch Nat.zero_lt_one) fun body => ?_
    refine gives_pure fun l₁ l₀ hext _ hbody => ?_
    exact emulates_firstFrame hbody (Locals.count_le hext)
  | boxArtSensor =>
    refine gives_bind (hbranch Nat.zero_lt_one) fun body => ?_
    refine gives_pure fun l₁ l₀ hext _ hbody => ?_
    exact emulates_condition (by decide) rfl (fun _ => rfl) hbody (Locals.count_le hext)
  | button =>
    refine gives_bind (hbranch Nat.zero_lt_one) fun body => ?_
    refine gives_pure fun l₁ l₀ hext _ hbody => ?_
    refine emulates_const (.i32 n.constant.asInt) ?_
    exact emulates_condition (by decide) rfl (fun _ => rfl) hbody (Locals.count_le hext)
  | inspect type =>
    obtain ⟨t, rfl⟩ := WireType.isValue_iff.mp hplain
    have hpin : n.kind.shape.inputs[0]? =
        some { type := .value t, name := (WireType.value t).word } := by
      rw [hkind]
      rfl
    refine gives_bind (imitates_operand hn hs hpin fun h => nomatch h) fun shown => ?_
    refine gives_pure fun l₁ l₀ hext _ hshown => ?_
    refine emulates_const (.i32 (Int32.ofNat id)) ?_
    refine emulates_bind (emulates_frame [.i32 (Int32.ofNat id)] hshown) (fun v outs houts => ?_)
      (Locals.count_le hext) (Nat.le_refl _)
    obtain ⟨top, rfl, hv, rfl⟩ := houts
    exact emulates_inspect hget hkind hv
  | setVariable type =>
    obtain ⟨t, rfl⟩ := WireType.isValue_iff.mp hplain
    exact imitates_setVariable hn hs hkind
  | setPointer type =>
    obtain ⟨t, rfl⟩ := WireType.isValue_iff.mp hplain
    exact imitates_setPointer hn hs hkind

/-- The codes of statements in a row, next to locals that none of them changes. -/
theorem gives_forM_given {is : List Nat} {held : List Lane} {f : β → Emit Code}
    {g : β → Run σ Unit} :
    ∀ {l : List β}, (∀ i ∈ l, Gives (f i) fun l₀ l' code => (∀ j ∈ is, j < l₀.count) →
      y.EmulatesGiven is held l₀.count l'.count code [] (g i) Quiet) →
    Gives (l.mapM f) fun l₀ l' codes => (∀ j ∈ is, j < l₀.count) →
      y.EmulatesGiven is held l₀.count l'.count codes.flatten [] (l.forM g) Quiet
  | [], _ => gives_pure fun _ _ => given_of_emulates (emulates_nil rfl)
  | i :: rest, h => by
    rw [List.mapM_cons]
    have hrest := gives_forM_given (l := rest) fun j hj => h j (List.mem_cons_of_mem i hj)
    refine gives_bind (h i List.mem_cons_self) fun code => gives_bind hrest fun codes => ?_
    refine gives_pure fun l₂ l₁ hext₁ _ hcodes l₀ hext₀ _ hcode his => ?_
    have hle := Locals.count_le hext₀
    rw [List.flatten_cons]
    refine given_bind (hcode his) (fun _ outs houts => ?_) his hle (Locals.count_le hext₁)
    rw [houts]
    exact hcodes fun j hj => Nat.lt_of_lt_of_le (his j hj) hle

theorem gives_forM {f : β → Emit Code} {g : β → Run σ Unit} {l : List β}
    (h : ∀ i ∈ l, y.Imitates (f i) [] (g i) Quiet) :
    Gives (l.mapM f) fun l₀ l' codes =>
      y.Emulates l₀.count l'.count codes.flatten [] (l.forM g) Quiet := by
  have hgiven : ∀ i ∈ l, Gives (f i) fun l₀ l' code => (∀ j ∈ ([] : List Nat), j < l₀.count) →
      y.EmulatesGiven [] [] l₀.count l'.count code [] (g i) Quiet :=
    fun i hi => gives_mono (h i hi) fun _ _ _ hcode _ => given_of_emulates hcode
  refine gives_mono (gives_forM_given hgiven) fun _ _ _ hcodes => ?_
  exact emulates_of_given (hcodes fun _ hj => absurd hj List.not_mem_nil)

theorem imitates_forM {f : β → Emit Code} {g : β → Run σ Unit} {l : List β}
    (h : ∀ i ∈ l, y.Imitates (f i) [] (g i) Quiet) :
    y.Imitates (do return (← l.mapM f).flatten) [] (l.forM g) Quiet :=
  gives_bind (gives_forM h) fun _ => gives_pure fun _ _ _ _ hcodes => hcodes

theorem imitates_then {first second : Emit Code} {f g : Run σ Unit}
    (hf : y.Imitates first [] f Quiet) (hg : y.Imitates second [] g Quiet) :
    y.Imitates (do return (← first) ++ (← second)) [] (do f; g) Quiet := by
  refine imitates_append hf hg fun _ outs houts => ?_
  rw [houts]
  exact hg

abbrev Setting.value (y : Setting σ) : Producer → Run σ Value :=
  Interpreter.value y.engine y.program

abbrev Setting.run (y : Setting σ) : List NodeId → Run σ Unit := Interpreter.run y.engine y.program

abbrev Setting.step (y : Setting σ) : NodeId → Run σ Unit :=
  Interpreter.step y.engine y.program y.run

/-- The functions of outlined statements below a rank do what the statements do. -/
def Setting.Outlines (y : Setting σ) (rank : NodeId → Nat) (bound : Nat) : Prop :=
  ∀ (i : Nat) (id : NodeId), (target y.program).outlined[i]? = some id → rank id < bound →
    ∀ lo hi, y.Emulates lo hi [.call ((target y.program).outlinedFunction i)] [] (y.step id) Quiet

def Setting.Supplies (y : Setting σ) : Prop :=
  ∀ (id : NodeId) (n : Node), y.program.nodes[id]? = some n →
    y.Sourced (Compiler.produce y.program (y.program.nodes.size + 1)) y.value n

variable {rank : NodeId → Nat} {bound : Nat}

theorem supplies_of_memoizes (hrank : y.program.Falls y.program.Reads rank)
    (hmemo : y.Memoizes rank y.program.nodes.size) : y.Supplies := by
  intro id n hget w hw
  have hn := y.wellFormed.nodes id n hget
  obtain ⟨type, hfits⟩ := hn.fits_of_wire hw
  obtain ⟨m, hm, -⟩ := hfits.source
  have hlt := hrank.bounded _ (Array.getElem?_eq_some_iff.mp hm).1
  refine imitates_fetch hmemo hfits hlt ?_
  exact imitates_produce hrank hmemo hfits.source (Nat.lt_succ_of_lt hlt) (Nat.le_of_lt hlt)

theorem imitates_step (hs : y.Supplies) (hget : y.program.nodes[id]? = some n)
    (hst : n.statement = true) (hc : y.Continues chain y.run n) :
    y.Imitates (do return (← node (target y.program) chain id n) ++ (← chain n.after))
      [] (y.step id)
      Quiet := by
  have hn := y.wellFormed.nodes id n hget
  obtain ⟨st, hkind⟩ := hn.statementKind hst
  have hnode : node (target y.program) chain id n =
      statement (Compiler.produce y.program (y.program.nodes.size + 1)) chain id n st := by
    unfold node
    rw [hkind]
    rfl
  rw [hnode, Setting.step, step_eq hget hkind]
  exact imitates_then (imitates_statement hget (hs id n hget) hc hkind) (hc _ (hn.after hst))

theorem imitates_chain (hs : y.Supplies) (hrank : y.program.Falls y.program.Leads rank)
    (hout : y.Outlines rank bound) : ∀ {depth : Nat} {ids : List NodeId},
    (∀ id ∈ ids, y.program.IsStatement id) → (∀ id ∈ ids, rank id < depth) →
    (∀ id ∈ ids, rank id < bound) →
    y.Imitates (Compiler.chain (target y.program) depth ids) [] (y.run ids) Quiet
  | 0, [], _, _, _ => by
    rw [Setting.run, run_eq y.wellFormed fun _ h => absurd h List.not_mem_nil]
    exact imitates_pure fun _ => emulates_nil rfl
  | 0, id :: _, _, hdepth, _ => absurd (hdepth id List.mem_cons_self) (Nat.not_lt_zero _)
  | depth + 1, ids, hids, hdepth, hbound => by
    rw [Setting.run, run_eq y.wellFormed hids]
    refine imitates_forM fun id hid => ?_
    obtain ⟨n, hget, hst⟩ := hids id hid
    have hn := y.wellFormed.nodes id n hget
    have hlt := hdepth id hid
    have hlt' := hbound id hid
    have hcontinues : y.Continues (Compiler.chain (target y.program) depth) y.run n := by
      intro targets htargets
      have hfall : ∀ t ∈ targets, rank t < rank id := fun t ht =>
        hrank.falls id t ⟨n, targets, hget, htargets, ht⟩
      refine imitates_chain hs hrank hout (hn.targets targets htargets) (fun t ht => ?_)
        fun t ht => ?_
      · have := hfall t ht
        omega
      · have := hfall t ht
        omega
    by_cases hcontains : (target y.program).outlined.contains id = true
    · have hidx := List.getElem?_idxOf (List.contains_iff_mem.mp hcontains)
      simp only [hcontains, if_true]
      exact imitates_pure fun lo => hout _ id hidx hlt' lo lo
    · simp only [hcontains]
      refine gives_lift (Program.node_eq_ok hget) ?_
      exact imitates_step hs hget hst hcontinues

end Compiler
end SignalGraph
