import SignalGraph.Proofs.Execution.Inputs

/-!
# Execution

A statement of a well-formed program leaves a typed state typed, and its chains are run on
statements of lower rank, so that a depth of one more than there are nodes is never used up.
-/

namespace SignalGraph
namespace Interpreter

variable {σ : Type} {p : Program} {E : State σ → Prop} {id : NodeId} {n : Node}

theorem typed_setSlot {s : State σ} (hs : s.Typed p) {slot : SlotId} {decl : Slot} {v : Value}
    (hdecl : p.slots[slot]? = some decl) (hv : v.HasBase decl.type) :
    State.Typed p ⟨s.world.setSlot slot v, s.memo⟩ :=
  ⟨SlotStore.typed_set hs.slots hdecl hv, hs.vars, hs.memoSize, hs.memo, hs.late⟩

theorem typed_setVariable {s : State σ} (hs : s.Typed p) {q : Pointer} {v : Value}
    (hv : ∀ decl, p.vars[q.var]? = some decl → v.HasBase decl.type) :
    State.Typed p ⟨s.world.setVariable q v, s.memo⟩ :=
  ⟨hs.slots, VariableStore.typed_set hs.vars hv, hs.memoSize, hs.memo, hs.late⟩

theorem typed_queue {s : State σ} (hs : s.Typed p) {task : NodeId} (htask : p.IsLate task) :
    State.Typed p ⟨s.world.queue task, s.memo⟩ := by
  refine ⟨hs.slots, hs.vars, hs.memoSize, hs.memo, fun i hi => ?_⟩
  rcases Array.mem_push.mp hi with hi | rfl
  · exact hs.late i hi
  · exact htask

theorem meets_writeSlot (hn : n.Fits p id) {i : Nat} {purpose : String} {b : Base} {v : Value}
    (hslot : n.kind.slots[i]? = some (purpose, b)) (hv : v.HasBase b) :
    Meets (State.Typed p) E (writeSlot n i v : Run σ Unit) fun _ => True := by
  obtain ⟨slot, hget, hdecl⟩ := hn.slots i purpose b hslot
  refine meets_check (Node.slot_eq_ok hget) ?_
  exact meets_onWorld fun s hs => typed_setSlot hs hdecl hv

theorem meets_setVariable {b : Base} {q : Pointer} {v : Value}
    (hq : (Value.ptr q).Fits p.vars (.pointer b)) (hv : v.HasBase b) :
    Meets (State.Typed p) E (onWorld (World.setVariable q v) : Run σ Unit) fun _ => True := by
  refine meets_onWorld fun s hs => typed_setVariable hs fun decl hdecl => ?_
  rcases hq with hvoid | ⟨q', decl', hq', hdecl', htype⟩
  · exact nomatch hvoid
  · cases hq'
    rw [hdecl] at hdecl'
    cases hdecl'
    rw [htype]
    exact hv

variable {produce : Producer → Run σ Value} {chain : List NodeId → Run σ Unit}

def Continued (p : Program) (E : State σ → Prop) (chain : List NodeId → Run σ Unit) (n : Node) :
    Prop :=
  ∀ ids ∈ n.controls, Meets (State.Typed p) E (chain ids) fun _ => True

theorem meets_runBranch (hn : n.Fits p id) (hc : Continued p E chain n) {i : Nat}
    (hi : i < n.kind.shape.branches.length) :
    Meets (State.Typed p) E (runBranch chain n i) fun _ => True := by
  obtain ⟨ids, hids, hbranch⟩ := hn.branch hi
  refine meets_check hbranch ?_
  exact hc _ hids

theorem meets_repeatFrom {I : State σ → Prop} {body : UInt32 → Run σ Unit}
    (hbody : ∀ k, Meets I E (body k) fun _ => True) :
    ∀ (count : Nat) (k : UInt32), Meets I E (repeatFrom body count k) fun _ => True
  | 0, _ => meets_pure trivial
  | count + 1, k => meets_bind (hbody k) fun _ _ => meets_repeatFrom hbody count (k + 1)

theorem meets_runEffect (e : Engine σ) (hp : p.WellFormed) (hn : n.Fits p id)
    (hs : Supplied p E produce n) {effect : Effect} (hkind : n.kind = .effect effect) :
    Meets (State.Typed p) E (runEffect e produce n effect) fun _ => True := by
  have hinputs : Meets (State.Typed p) E (effectInputs produce n effect.shape.inputs)
      fun _ => True := by
    refine meets_mono (meets_mapM (R := fun _ _ => True) ?_) fun _ _ => trivial
    rintro ⟨pin, i⟩ hmem
    have hpin : n.kind.shape.inputs[i]? = some pin := by
      rw [hkind]
      exact List.mem_zipIdx_iff_getElem?.mp hmem
    dsimp only
    split
    · exact meets_mono (meets_optionalInput hp hn hs hpin) fun _ _ => trivial
    · exact meets_map (meets_input hp hn hs hpin) fun _ _ => trivial
  refine meets_bind hinputs fun arguments _ => ?_
  refine meets_bind (meets_ask (Q := fun o => ∀ v, o = some v →
    ∃ purpose b, effect.slots = [(purpose, b)] ∧ v.HasBase b) fun s v hv =>
      Effect.keeps_perform e hv) fun o ho => ?_
  cases o with
  | none => exact meets_pure trivial
  | some v =>
    obtain ⟨purpose, b, hslots, hv⟩ := ho v rfl
    have hslot : n.kind.slots[0]? = some (purpose, b) := by
      rw [hkind, show (Kind.effect effect).slots = effect.slots from rfl, hslots]
      rfl
    exact meets_writeSlot hn hslot hv

theorem meets_anyInput (hp : p.WellFormed) (hn : n.Fits p id) (hs : Supplied p E produce n)
    {i : Nat} (hi : i < n.kind.shape.inputs.length) :
    Meets (State.Typed p) E (input produce n i) fun _ => True :=
  meets_mono (meets_input hp hn hs (List.getElem?_eq_getElem hi)) fun _ _ => trivial

theorem meets_runMenuItem (e : Engine σ) (hp : p.WellFormed) (hn : n.Fits p id)
    (hs : Supplied p E produce n) (hkind : n.kind = .statement .menuItem) :
    Meets (State.Typed p) E (runMenuItem e p.vars produce n) fun _ => True := by
  have hinputs : n.kind.shape.inputs.length = 2 := by
    rw [hkind]
    rfl
  obtain ⟨slot, hget, hdecl⟩ := hn.slots 0 "registered" .bool (by rw [hkind]; rfl)
  refine meets_check (Node.slot_eq_ok hget) ?_
  refine meets_bind meets_get fun s _ => ?_
  split
  · exact meets_pure trivial
  refine meets_bind (meets_anyInput hp hn hs (i := 0) (by omega)) fun pointer _ => ?_
  refine meets_bind (meets_anyInput hp hn hs (i := 1) (by omega)) fun picture _ => ?_
  have hset : Meets (State.Typed p) E (onWorld (World.setSlot slot (.bool true)) : Run σ Unit)
      fun _ => True := meets_onWorld fun s hs => typed_setSlot hs hdecl trivial
  split
  · exact meets_bind (meets_ask (Q := fun _ => True) fun _ => trivial) fun _ _ => hset
  · exact hset

theorem meets_runLoop (hp : p.WellFormed) (hn : n.Fits p id) (hs : Supplied p E produce n)
    (hc : Continued p E chain n) (hkind : n.kind = .statement .loop) :
    Meets (State.Typed p) E (runLoop produce chain n) fun _ => True := by
  have hinputs : n.kind.shape.inputs.length = 2 := by
    rw [hkind]
    rfl
  obtain ⟨slot, hget, hdecl⟩ := hn.slots 0 "counter" .float (by rw [hkind]; rfl)
  refine meets_bind (meets_anyInput hp hn hs (i := 0) (by omega)) fun start _ => ?_
  refine meets_bind (meets_anyInput hp hn hs (i := 1) (by omega)) fun stop _ => ?_
  refine meets_check (Node.slot_eq_ok hget) ?_
  refine meets_repeatFrom (fun k => ?_) _ _
  refine meets_bind (meets_onWorld fun s hs => typed_setSlot hs hdecl trivial) fun _ _ => ?_
  exact meets_runBranch hn hc (by rw [hkind]; exact Nat.zero_lt_one)

theorem meets_adjust (hp : p.WellFormed) (hn : n.Fits p id) (hs : Supplied p E produce n)
    (delta : Binary32)
    (hpin : n.kind.shape.inputs[0]? = some { type := .pointer .float, name := "Variable" }) :
    Meets (State.Typed p) E (adjust produce n delta) fun _ => True := by
  refine meets_bind (meets_required hp hn hs hpin rfl) fun v hv => ?_
  rcases hv with rfl | ⟨q, decl, rfl, hdecl, htype⟩
  · exact meets_pure trivial
  · refine meets_onWorld fun s hs => typed_setVariable hs fun decl' hdecl' => ?_
    rw [hdecl] at hdecl'
    cases hdecl'
    rw [htype]
    trivial

theorem meets_assign (hp : p.WellFormed) (hn : n.Fits p id) (hs : Supplied p E produce n)
    {b : Base} (hkind : n.kind = .statement (.setVariable (.value b))) (e : Engine σ) :
    Meets (State.Typed p) E (execute e p.vars produce chain id n (.setVariable (.value b)))
      fun _ => True := by
  obtain ⟨var, decl, hvar, hdecl, htype⟩ := hn.named (.value b) (by rw [hkind]; rfl)
  have hpin : n.kind.shape.inputs[0]? = some { type := .value b, name := "Value" } := by
    rw [hkind]
    rfl
  refine meets_bind (meets_required hp hn hs hpin rfl) fun v hv => ?_
  cases htype
  rw [hvar]
  exact meets_setVariable (.inr ⟨_, decl, rfl, hdecl, rfl⟩) hv

theorem meets_assignThrough (hp : p.WellFormed) (hn : n.Fits p id) (hs : Supplied p E produce n)
    {b : Base} (hkind : n.kind = .statement (.setPointer (.value b))) (e : Engine σ) :
    Meets (State.Typed p) E (execute e p.vars produce chain id n (.setPointer (.value b)))
      fun _ => True := by
  have hpointer : n.kind.shape.inputs[0]? = some { type := .pointer b, name := "Variable" } := by
    rw [hkind]
    rfl
  have hvalue : n.kind.shape.inputs[1]? = some { type := .value b, name := "Value" } := by
    rw [hkind]
    rfl
  refine meets_bind (meets_required hp hn hs hpointer rfl) fun target htarget => ?_
  refine meets_bind (meets_required hp hn hs hvalue rfl) fun v hv => ?_
  cases target with
  | ptr q => exact meets_setVariable htarget hv
  | _ => exact meets_pure trivial

theorem meets_when {I : State σ → Prop} {c : Prop} [Decidable c] {run : Run σ Unit}
    (h : Meets I E run fun _ => True) : Meets I E (if c then run else pure ()) fun _ => True := by
  split
  · exact h
  · exact meets_pure trivial

theorem meets_execute (e : Engine σ) (hp : p.WellFormed) (hget : p.nodes[id]? = some n)
    (hs : Supplied p E produce n) (hc : Continued p E chain n) {st : Statement}
    (hkind : n.kind = .statement st) :
    Meets (State.Typed p) E (execute e p.vars produce chain id n st) fun _ => True := by
  have hn := hp.nodes id n hget
  have hplain := hn.plain
  rw [hkind] at hplain
  have hbranch : ∀ i, i < st.shape.branches.length →
      Meets (State.Typed p) E (runBranch chain n i) fun _ => True := by
    intro i hi
    rw [← Node.shape_of_statement hkind] at hi
    exact meets_runBranch hn hc hi
  have hinput : ∀ i pin, st.shape.inputs[i]? = some pin → pin.optional = false →
      Meets (State.Typed p) E (input produce n i) (Value.Fits p.vars pin.type) := by
    intro i pin hpin hoptional
    rw [← Node.shape_of_statement hkind] at hpin
    exact meets_required hp hn hs hpin hoptional
  have hslot : ∀ i purpose b v, st.slots[i]? = some (purpose, b) → v.HasBase b →
      Meets (State.Typed p) E (writeSlot n i v) fun _ => True := by
    intro i purpose b v hget hv
    have hslot : n.kind.slots[i]? = some (purpose, b) := by
      rw [hkind]
      exact hget
    exact meets_writeSlot hn hslot hv
  have hask : ∀ {α : Type} (action : StateM σ α),
      Meets (State.Typed p) E (inWorld (World.ask action)) fun _ => True :=
    fun action => meets_ask fun _ => trivial
  cases st with
  | effect effect => exact meets_runEffect e hp hn hs hkind
  | menuItem => exact meets_runMenuItem e hp hn hs hkind
  | loop => exact meets_runLoop hp hn hs hc hkind
  | increment => exact meets_adjust hp hn hs _ (by rw [hkind]; rfl)
  | decrement => exact meets_adjust hp hn hs _ (by rw [hkind]; rfl)
  | lateUpdate => exact meets_onWorld fun s hs => typed_queue hs ⟨n, hget, hkind⟩
  | ifThen =>
    refine meets_bind (hinput 0 (Pin.data .bool "Condition") rfl rfl) fun v _ => ?_
    cases v.asBool
    · exact hbranch 1 Nat.one_lt_two
    · exact hbranch 0 Nat.zero_lt_two
  | playSensor => exact meets_bind (hask _) fun _ _ => meets_when (hbranch 0 Nat.zero_lt_one)
  | boxArtSensor => exact meets_bind (hask _) fun _ _ => meets_when (hbranch 0 Nat.zero_lt_one)
  | button => exact meets_bind (hask _) fun _ _ => meets_when (hbranch 0 Nat.zero_lt_one)
  | touchSensor =>
    refine meets_bind (hask _) fun touched _ => ?_
    split
    · refine meets_bind (hslot 0 "touch" .vec3 _ rfl trivial) fun _ _ => ?_
      exact hbranch 0 Nat.zero_lt_one
    · exact meets_pure trivial
  | swipeSensor =>
    refine meets_bind (hask _) fun direction _ => ?_
    split
    · refine meets_bind (hslot 0 "swipe" .vec3 _ rfl trivial) fun _ _ => ?_
      exact hbranch 0 Nat.zero_lt_one
    · exact meets_pure trivial
  | collision =>
    refine meets_bind (hinput 0 (Pin.data .obj "1st Object") rfl rfl) fun object _ => ?_
    refine meets_bind (hask _) fun contact _ => ?_
    split
    · refine meets_bind (hslot 0 "other" .obj _ rfl trivial) fun _ _ => ?_
      refine meets_bind (hslot 1 "impulse" .float _ rfl trivial) fun _ _ => ?_
      refine meets_bind (hslot 2 "normal" .vec3 _ rfl trivial) fun _ _ => ?_
      exact hbranch 0 Nat.zero_lt_one
    · exact meets_pure trivial
  | inspect type =>
    obtain ⟨b, rfl⟩ := WireType.isValue_iff.mp hplain
    refine meets_bind (hinput 0 { type := .value b, name := b.word } rfl rfl) fun v _ => ?_
    exact hask _
  | setVariable type =>
    obtain ⟨b, rfl⟩ := WireType.isValue_iff.mp hplain
    exact meets_assign hp hn hs hkind e
  | setPointer type =>
    obtain ⟨b, rfl⟩ := WireType.isValue_iff.mp hplain
    exact meets_assignThrough hp hn hs hkind e

/-- A chain of statements.  A run that may fail need not be given a depth beyond the ranks of the
statements. -/
theorem meets_runChain (e : Engine σ) (hp : p.WellFormed) {rank : NodeId → Nat}
    (hrank : p.Falls p.Leads rank) : ∀ {depth : Nat} {ids : List NodeId},
    (∀ id ∈ ids, p.IsStatement id) →
    ((∀ s, State.Typed p s → E s) ∨ ∀ id ∈ ids, rank id < depth) →
    Meets (State.Typed p) E (runChain e p depth ids) fun _ => True
  | 0, ids, _, hdepth => by
    refine meets_forM fun id hid => meets_throw ?_
    exact hdepth.resolve_right fun hlt => Nat.not_lt_zero _ (hlt id hid)
  | depth + 1, ids, hids, hdepth => by
    refine meets_forM fun id hid => ?_
    obtain ⟨n, hget, hstatement⟩ := hids id hid
    have hn := hp.nodes id n hget
    have hchain : ∀ targets ∈ n.controls,
        Meets (State.Typed p) E (runChain e p depth targets) fun _ => True := by
      intro targets htargets
      refine meets_runChain e hp hrank (hn.targets targets htargets)
        (hdepth.imp_right fun hlt => ?_)
      intro target htarget
      have hfall := hrank.falls id target ⟨n, targets, hget, htargets, htarget⟩
      have hid := hlt id hid
      omega
    refine meets_check (Program.node_eq_ok hget) ?_
    obtain ⟨st, hkind⟩ := hn.statementKind hstatement
    rw [hkind]
    refine meets_bind (meets_execute e hp hget (fun w hw => ?_) hchain hkind) fun _ _ =>
      hchain _ (hn.after hstatement)
    obtain ⟨type, hfits⟩ := hn.fits_of_wire hw
    obtain ⟨rank', hrank'⟩ := hp.reads
    refine meets_produce e hp hrank' hfits.source (.inr ?_)
    obtain ⟨source, hsource, -⟩ := hfits.source
    exact Nat.lt_succ_of_lt (hrank'.bounded _ (Array.getElem?_eq_some_iff.mp hsource).1)

end Interpreter
end SignalGraph
