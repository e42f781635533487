import SignalGraph.Interpreter.Session
import SignalGraph.Proofs.Execution.Reached
import SignalGraph.Proofs.Instrumentation.Chronicle.Growth
import SignalGraph.Proofs.Instrumentation.Mirrors

/-!
# Echoes

When an interpreted run with something extra next to the engine's state does what a run without it
does. What is kept on the way may concern the slots; a statement changes only its own.
-/

namespace SignalGraph

def Statement.assigns : Statement → Bool
  | setVariable _ => true
  | setPointer _ => true
  | increment => true
  | decrement => true
  | _ => false

namespace Interpreter

variable {σ L α β : Type}

def State.beside (s : State σ) (l : L) : State (σ × L) := ⟨s.world.joined l, s.memo⟩

/-- A run with something extra that does what the other run does and keeps `I`, unless both fail. -/
abbrev Echoes (I : State σ → L → Prop) (run' : Run (σ × L) α) (run : Run σ α) : Prop :=
  Mirrors State.beside I (fun _ => I) (fun _ _ => True) run' run

/-- What is kept depends on nothing in the world but the slots. -/
def Steady (I : State σ → L → Prop) : Prop :=
  ∀ s w l, w.slots = s.world.slots → I s l → I ⟨w, s.memo⟩ l

/-- What is kept depends neither on the engine nor on what grows with its answers. -/
def Bears (G : L → L → Prop) (I : State σ → L → Prop) : Prop :=
  ∀ s l engine l', G l l' → I s l → I ⟨{ s.world with engine }, s.memo⟩ l'

variable {I F : State σ → L → Prop} {G : L → L → Prop} {e' : Engine (σ × L)} {e : Engine σ}

theorem Steady.bears (hI : Steady I) : Bears Eq I := fun s l _ _ heq hs => heq ▸ hI s _ l rfl hs

theorem echoes_check {J : α → State σ → L → Prop} {r : Except Fault β} {f' : β → Run (σ × L) α}
    {f : β → Run σ α}
    (h : ∀ b, r = .ok b → Mirrors State.beside I J (fun _ _ => True) (f' b) (f b)) :
    Mirrors State.beside I J (fun _ _ => True) (check r >>= f') (check r >>= f) := by
  intro s l hs
  cases r with
  | ok b => exact h b rfl s l hs
  | error fault => exact ⟨l, rfl, trivial⟩

theorem echoes_inWorld {J : State σ → L → Prop} {f' : World (σ × L) → α × World (σ × L)}
    {f : World σ → α × World σ} (h : World.Beside f' f)
    (hJ : ∀ s l, I s l → J ⟨(f s.world).2, s.memo⟩ l) :
    Mirrors State.beside I (fun _ => J) (fun _ _ => True) (inWorld f') (inWorld f) := by
  intro s l hs
  refine ⟨l, ?_, hJ s l hs⟩
  show (let (a, world) := f' (s.world.joined l)
    EStateM.Result.ok a (⟨world, s.memo⟩ : State (σ × L))) = _
  rw [h s.world l]
  rfl

theorem echoes_onWorld {J : State σ → L → Prop} {f' : World (σ × L) → World (σ × L)}
    {f : World σ → World σ} (h : ∀ w l, f' (w.joined l) = (f w).joined l)
    (hJ : ∀ s l, I s l → J ⟨f s.world, s.memo⟩ l) :
    Mirrors State.beside I (fun _ => J) (fun _ _ => True) (onWorld f') (onWorld f) :=
  echoes_inWorld (fun w l => congrArg (Prod.mk ()) (h w l)) hJ

theorem echoes_ask (hI : Bears G I) {f' : StateM (σ × L) α} {f : StateM σ α} (h : Grows G f' f) :
    Echoes I (inWorld (World.ask f')) (inWorld (World.ask f)) := by
  intro s l hs
  obtain ⟨l', hrun, hl'⟩ := World.grows_ask h s.world l
  refine ⟨l', ?_, hI s l _ l' hl' hs⟩
  show (let (a, world) := World.ask f' (s.world.joined l)
    EStateM.Result.ok a (⟨world, s.memo⟩ : State (σ × L))) = _
  rw [hrun]
  rfl

variable {heard : Producer → Run (σ × L) Value} {produce : Producer → Run σ Value} {n n' : Node}

theorem echoes_load (type : WireType) (v : Value) :
    Echoes I (load type v : Run (σ × L) Value) (load type v) := by
  unfold load
  split
  · exact mirrors_done
  · next q _ =>
    refine mirrors_get fun s l => ?_
    have hvars : (s.beside l).world.vars = s.world.vars := rfl
    rw [hvars]
    generalize s.world.vars.get q = held
    cases held <;> exact mirrors_done

/-- Two nodes that differ at most in their inputs, which are read alike. -/
structure Hears (I : State σ → L → Prop) (heard : Producer → Run (σ × L) Value) (n' : Node)
    (produce : Producer → Run σ Value) (n : Node) : Prop where
  input : ∀ i, Echoes I (Interpreter.input heard n' i) (Interpreter.input produce n i)
  optional : ∀ i, Echoes I (optionalInput heard n' i) (optionalInput produce n i)
  same : n' = { n with inputs := n'.inputs }

namespace Hears

variable (h : Hears I heard n' produce n)
include h

theorem constant : n'.constant = n.constant := by rw [h.same]

theorem block : n'.block = n.block := by rw [h.same]

theorem pos : n'.pos = n.pos := by rw [h.same]

theorem slot (i : Nat) : n'.slot i = n.slot i := by
  rw [h.same]
  rfl

theorem branch (i : Nat) : n'.branch i = n.branch i := by
  rw [h.same]
  rfl

theorem inputs (count : Nat) :
    Echoes I (Interpreter.inputs heard n' count) (Interpreter.inputs produce n count) :=
  mirrors_mapM fun i _ => h.input i

theorem effectInputs (pins : List Pin) :
    Echoes I (Interpreter.effectInputs heard n' pins)
      (Interpreter.effectInputs produce n pins) := by
  refine mirrors_mapM fun r _ => ?_
  dsimp only
  split
  · exact h.optional r.2
  · exact mirrors_map (h.input r.2)

end Hears

theorem echoes_readSlot (n : Node) (output : Nat) :
    Echoes I (readSlot n output : Run (σ × L) Value) (readSlot n output) := by
  refine echoes_check fun r _ => mirrors_get fun s l => ?_
  split <;> exact mirrors_done

theorem echoes_expression (hG : Growth G) (he : Answering G e' e) (hI : Bears G I)
    (h : Hears I heard n' produce n) (output : Nat) (x : Expression) :
    Echoes I (evaluate e' heard n' output x) (evaluate e produce n output x) := by
  have hpure : ∀ v : Value, Echoes I (pure v : Run (σ × L) Value) (pure v) :=
    fun _ => mirrors_done
  unfold evaluate
  rw [h.constant]
  cases x with
  | literal l => exact hpure _
  | operation op => exact mirrors_bind (h.inputs _) fun _ => hpure _
  | routine r => exact mirrors_bind (h.inputs _) fun _ => hpure _
  | query q =>
    refine mirrors_bind (h.inputs _) fun arguments => ?_
    exact mirrors_bind (echoes_ask hI (Query.grows_ask hG he q arguments)) fun _ => hpure _
  | currentFrame => exact mirrors_bind (echoes_ask hI (he _ rfl)) fun _ => hpure _
  | and =>
    refine mirrors_bind (h.input 0) fun v => ?_
    split
    · exact mirrors_bind (h.input 1) fun _ => hpure _
    · exact hpure _
  | or =>
    refine mirrors_bind (h.input 0) fun v => ?_
    split
    · exact hpure _
    · exact mirrors_bind (h.input 1) fun _ => hpure _
  | getVariable t => cases n.constant.var? <;> exact hpure _
  | list t => exact mirrors_bind (h.input 0) fun _ => mirrors_bind (h.input 1) fun _ => hpure _

theorem echoes_evaluate (hI : Steady I) (e : Engine σ) (h : Hears I heard n' produce n)
    (output : Nat) (x : Expression) :
    Echoes I (evaluate (e.beside L) heard n' output x) (evaluate e produce n output x) :=
  echoes_expression growth_eq (answering_beside e) hI.bears h output x

/-! ## Statements -/

variable {branch : List NodeId → Run (σ × L) Unit} {chain : List NodeId → Run σ Unit}

/-- What a statement keeps.  It begins and ends with `I`, and has `F` from when it changes a slot of
its own until it runs a branch or ends. -/
structure Minds (I F : State σ → L → Prop) (n : Node) : Prop where
  steady : Steady I
  stored : ∀ s l, I s l → F s l
  store : ∀ slot ∈ n.slots, ∀ v s l, F s l → F ⟨s.world.setSlot slot v, s.memo⟩ l
  ended : n.kind.shape.branches = [] → ∀ s l, F s l → I s l

/-- What a statement keeps that may write to variables and to the queue as well.  It begins and ends
with `I`, and has `F` from when it changes a slot of its own until it runs a branch or ends. -/
structure Abides (G : L → L → Prop) (I F : State σ → L → Prop) (n : Node) : Prop where
  bears : Bears G I
  stored : ∀ s l, I s l → F s l
  store : ∀ slot ∈ n.slots, ∀ v s l, F s l → F ⟨s.world.setSlot slot v, s.memo⟩ l
  ended : n.kind.shape.branches = [] → ∀ s l, F s l → I s l
  assign : ∀ st, n.kind = .statement st → st.assigns = true →
    ∀ q v s l, I s l → I ⟨s.world.setVariable q v, s.memo⟩ l
  queue : n.kind = .statement .lateUpdate →
    ∀ id s l, I s l → I ⟨s.world.queue id, s.memo⟩ l

theorem Minds.abides {n : Node} (hn : Minds I F n) : Abides Eq I F n :=
  ⟨hn.steady.bears, hn.stored, hn.store, hn.ended, fun _ _ _ _ _ s l hs => hn.steady s _ l rfl hs,
    fun _ _ s l hs => hn.steady s _ l rfl hs⟩

def Follows (I F : State σ → L → Prop) (branch : List NodeId → Run (σ × L) Unit)
    (chain : List NodeId → Run σ Unit) (n : Node) : Prop :=
  ∀ ids ∈ n.controls,
    Mirrors State.beside F (fun _ => I) (fun _ _ => True) (branch ids) (chain ids)

theorem mem_of_slot {i : Nat} {slot : SlotId} (h : n.slot i = .ok slot) : slot ∈ n.slots := by
  unfold Node.slot at h
  cases hget : n.slots[i]? with
  | none =>
    rw [hget] at h
    cases h
  | some k =>
    rw [hget] at h
    cases h
    exact List.mem_of_getElem? hget

section

variable (hn : Abides G I F n)
include hn

theorem Abides.setSlot {slot : SlotId} (hslot : slot ∈ n.slots) (v : Value) :
    Mirrors State.beside F (fun _ => F) (fun _ _ => True)
      (onWorld (World.setSlot slot v) : Run (σ × L) Unit) (onWorld (World.setSlot slot v)) :=
  echoes_onWorld (fun _ _ => rfl) (hn.store slot hslot v)

theorem Abides.end (hbranches : n.kind.shape.branches = []) {run' : Run (σ × L) α} {run : Run σ α}
    (h : Mirrors State.beside F (fun _ => F) (fun _ _ => True) run' run) : Echoes I run' run :=
  mirrors_weaken hn.stored (mirrors_mono h fun _ => hn.ended hbranches)

theorem echoes_writeSlot (h : Hears I heard n' produce n) (i : Nat) (v : Value) :
    Mirrors State.beside F (fun _ => F) (fun _ _ => True)
      (writeSlot n' i v : Run (σ × L) Unit) (writeSlot n i v) := by
  unfold writeSlot
  rw [h.slot]
  exact echoes_check fun slot hslot => hn.setSlot (mem_of_slot hslot) v

omit hn in
theorem echoes_runBranch (h : Hears I heard n' produce n)
    (hc : Follows I F branch chain n) (i : Nat) :
    Mirrors State.beside F (fun _ => I) (fun _ _ => True)
      (runBranch branch n' i) (runBranch chain n i) := by
  unfold runBranch
  rw [h.branch]
  exact echoes_check fun ids hids => hc ids (branch_mem hids)

omit hn in
theorem echoes_repeatFrom {body' : UInt32 → Run (σ × L) Unit} {body : UInt32 → Run σ Unit}
    (h : ∀ k, Echoes I (body' k) (body k)) :
    ∀ (count : Nat) (k : UInt32),
      Echoes I (repeatFrom body' count k) (repeatFrom body count k)
  | 0, _ => mirrors_done
  | count + 1, k => mirrors_bind (h k) fun _ => echoes_repeatFrom h count (k + 1)

theorem echoes_runEffect (hG : Growth G) (he : Answering G e' e) (h : Hears I heard n' produce n)
    {effect : Effect} (hbranches : n.kind.shape.branches = []) :
    Echoes I (runEffect e' heard n' effect) (runEffect e produce n effect) := by
  unfold runEffect
  rw [h.constant]
  refine mirrors_bind (h.effectInputs _) fun arguments => ?_
  refine mirrors_bind (echoes_ask hn.bears (Effect.grows_perform hG he effect _ arguments))
    fun kept => ?_
  cases kept with
  | none => exact mirrors_done
  | some v => exact hn.end hbranches (echoes_writeSlot hn h 0 v)

theorem echoes_runMenuItem (he : ∀ r : Request Unit, Grows G (e'.ask r) (e.ask r))
    (vars : List Variable) (h : Hears I heard n' produce n)
    (hbranches : n.kind.shape.branches = []) :
    Echoes I (runMenuItem e' vars heard n') (runMenuItem e vars produce n) := by
  unfold runMenuItem
  rw [h.slot, h.constant]
  refine echoes_check fun slot hslot => mirrors_get fun s l => ?_
  have hslots : (s.beside l).world.slots = s.world.slots := rfl
  rw [hslots]
  split
  · exact mirrors_done
  refine mirrors_bind (h.input 0) fun pointer => ?_
  refine mirrors_bind (h.input 1) fun picture => ?_
  have hset := hn.end hbranches (hn.setSlot (mem_of_slot hslot) (.bool true))
  split
  · exact mirrors_bind (echoes_ask hn.bears (he _)) fun _ => hset
  · exact hset

theorem echoes_runLoop (h : Hears I heard n' produce n) (hc : Follows I F branch chain n) :
    Echoes I (runLoop heard branch n') (runLoop produce chain n) := by
  unfold runLoop
  rw [h.slot]
  refine mirrors_bind (h.input 0) fun start => ?_
  refine mirrors_bind (h.input 1) fun stop => ?_
  refine echoes_check fun slot hslot => echoes_repeatFrom (fun k => ?_) _ 0
  refine mirrors_weaken hn.stored (mirrors_bind (hn.setSlot (mem_of_slot hslot) _) fun _ => ?_)
  exact echoes_runBranch h hc 0

theorem echoes_setVariable {st : Statement} (hkind : n.kind = .statement st)
    (hassigns : st.assigns = true) (q : Pointer) (f : World σ → Value) (f' : World (σ × L) → Value)
    (hf : ∀ w l, f' (w.joined l) = f w) :
    Echoes I (onWorld fun w => w.setVariable q (f' w) : Run (σ × L) Unit)
      (onWorld fun w => w.setVariable q (f w)) := by
  refine echoes_onWorld (fun w l => ?_) fun s l hs => hn.assign st hkind hassigns q _ s l hs
  rw [hf]
  rfl

theorem echoes_adjust (h : Hears I heard n' produce n) {st : Statement}
    (hkind : n.kind = .statement st) (hassigns : st.assigns = true) (delta : Binary32) :
    Echoes I (adjust heard n' delta) (adjust produce n delta) := by
  refine mirrors_bind (h.input 0) fun v => ?_
  split
  · exact mirrors_done
  · exact echoes_setVariable hn hkind hassigns _ _ _ fun _ _ => rfl

omit hn in
theorem echoes_when {c : Prop} [Decidable c] {run' : Run (σ × L) Unit} {run : Run σ Unit}
    (h : Echoes I run' run) :
    Echoes I (if c then run' else pure ()) (if c then run else pure ()) := by
  split
  · exact h
  · exact mirrors_done

theorem echoes_statement (hG : Growth G) (he : Answering G e' e)
    (hmenu : n.kind = .statement .menuItem → ∀ r : Request Unit, Grows G (e'.ask r) (e.ask r))
    (vars : List Variable) (h : Hears I heard n' produce n) (hc : Follows I F branch chain n)
    (id : NodeId) {st : Statement} (hkind : n.kind = .statement st) :
    Echoes I (execute e' vars heard branch id n' st) (execute e vars produce chain id n st) := by
  have hstored := hn.stored
  have hslot := fun i v => echoes_writeSlot hn h i v
  have hbranch : ∀ i, Echoes I (runBranch branch n' i) (runBranch chain n i) :=
    fun i => mirrors_weaken hstored (echoes_runBranch h hc i)
  have hdone : Echoes I (pure () : Run (σ × L) Unit) (pure ()) := mirrors_done
  have hask : ∀ {α : Type} (r : Request α), r.registers = false →
      Echoes I (inWorld (World.ask (e'.ask r))) (inWorld (World.ask (e.ask r))) :=
    fun r hr => echoes_ask hn.bears (he r hr)
  unfold execute
  rw [h.constant]
  cases st with
  | effect effect =>
    refine echoes_runEffect hn hG he h ?_
    rw [hkind]
    cases effect <;> rfl
  | menuItem =>
    refine echoes_runMenuItem hn (hmenu hkind) vars h ?_
    rw [hkind]
    rfl
  | loop => exact echoes_runLoop hn h hc
  | increment => exact echoes_adjust hn h hkind rfl _
  | decrement => exact echoes_adjust hn h hkind rfl _
  | lateUpdate => exact echoes_onWorld (fun _ _ => rfl) fun s l hs => hn.queue hkind id s l hs
  | ifThen => exact mirrors_bind (h.input 0) fun _ => hbranch _
  | playSensor => exact mirrors_bind (hask _ rfl) fun _ => echoes_when (hbranch 0)
  | boxArtSensor => exact mirrors_bind (hask _ rfl) fun _ => echoes_when (hbranch 0)
  | button => exact mirrors_bind (hask _ rfl) fun _ => echoes_when (hbranch 0)
  | touchSensor =>
    refine mirrors_bind (hask _ rfl) fun touched => ?_
    cases touched with
    | none => exact hdone
    | some _ =>
      refine mirrors_weaken hstored (mirrors_bind (hslot 0 _) fun _ => ?_)
      exact echoes_runBranch h hc 0
  | swipeSensor =>
    refine mirrors_bind (hask _ rfl) fun direction => ?_
    cases direction with
    | none => exact hdone
    | some _ =>
      refine mirrors_weaken hstored (mirrors_bind (hslot 0 _) fun _ => ?_)
      exact echoes_runBranch h hc 0
  | collision =>
    refine mirrors_bind (h.input 0) fun object => ?_
    refine mirrors_bind (hask _ rfl) fun contact => ?_
    cases contact with
    | none => exact hdone
    | some _ =>
      refine mirrors_weaken hstored (mirrors_bind (hslot 0 _) fun _ => ?_)
      refine mirrors_bind (hslot 1 _) fun _ => mirrors_bind (hslot 2 _) fun _ => ?_
      exact echoes_runBranch h hc 0
  | inspect type =>
    rw [h.block, h.pos]
    exact mirrors_bind (h.input 0) fun _ => hask _ rfl
  | setVariable type =>
    refine mirrors_bind (h.input 0) fun v => ?_
    cases n.constant.var? with
    | none => exact hdone
    | some _ => exact echoes_setVariable hn hkind rfl _ _ _ fun _ _ => rfl
  | setPointer type =>
    refine mirrors_bind (h.input 0) fun target => ?_
    refine mirrors_bind (h.input 1) fun v => ?_
    cases target.asPtr with
    | none => exact hdone
    | some _ => exact echoes_setVariable hn hkind rfl _ _ _ fun _ _ => rfl

end

theorem echoes_execute (hn : Minds I F n) (e : Engine σ) (vars : List Variable)
    (h : Hears I heard n' produce n) (hc : Follows I F branch chain n) (id : NodeId)
    {st : Statement}
    (hkind : n.kind = .statement st) :
    Echoes I (execute (e.beside L) vars heard branch id n' st)
      (execute e vars produce chain id n st) :=
  echoes_statement hn.abides growth_eq (answering_beside e)
    (fun _ r => grows_of_beside (e.beside_ask r)) vars h hc id hkind

/-! ## Calls -/

section

variable {p : Program} {follow : List NodeId → Run (σ × L) Unit} {task : NodeId}
  {I' J J' E : State σ → L → Prop}

def frameWith (follow : List NodeId → Run σ Unit) (p : Program) : Run σ (List NodeId) := do
  modify fun s =>
    { world := s.world.clearQueue, memo := Array.replicate p.memoPoints.length none }
  follow p.entryPoints
  return (← get).world.late.toList

def lateTaskWith (follow : List NodeId → Run σ Unit) (p : Program) (task : NodeId) : Run σ Unit :=
  do
  let n ← check (p.node task)
  if n.kind ≠ .statement .lateUpdate then throw (.breach (.notLate task n.kind))
  runBranch follow n 0

/-- The next frame begins, as far as the engine is concerned. -/
theorem echoes_advance (hI : Steady I) (e : Engine σ) (frames : Nat) :
    Echoes I (Session.advance (e.beside L) frames) (Session.advance e frames) := by
  unfold Session.advance
  split
  · exact mirrors_done
  · exact echoes_ask hI.bears (grows_of_beside (e.beside_ask .advanceFrame))

/-- A frame returns its queue.  What is kept may change when it begins, when its memo points are
emptied and when its chains run. -/
theorem mirrors_frameWith (e : Engine σ) (hp : p.WellFormed) {frames : Nat}
    {before : Run (σ × L) Unit}
    (hbefore : Mirrors State.beside I (fun _ => I') (fun _ _ => True) before
      (Session.advance e frames))
    (hclear : ∀ s l, I' s l → J ⟨s.world.clearQueue, Array.replicate p.memoPoints.length none⟩ l)
    (hfollow : Mirrors State.beside J (fun _ => J') (fun _ _ => True) (follow p.entryPoints)
      (run e p p.entryPoints)) :
    Mirrors State.beside (fun s l => s.Typed p ∧ I s l)
      (fun tasks s l => tasks = s.world.late.toList ∧ s.Typed p ∧ J' s l) E
      (do before; frameWith follow p) (do Session.advance e frames; frame e p) := by
  have hempty : Mirrors State.beside I' (fun _ => J) (fun _ _ => True)
      (modify fun s => ⟨s.world.clearQueue, Array.replicate p.memoPoints.length none⟩ :
        Run (σ × L) Unit)
      (modify fun s => ⟨s.world.clearQueue, Array.replicate p.memoPoints.length none⟩) :=
    fun s l hs => ⟨l, rfl, hclear s l hs⟩
  have hqueue : Mirrors State.beside J' (fun tasks s l => tasks = s.world.late.toList ∧ J' s l)
      (fun _ _ => True) (do return (← get).world.late.toList : Run (σ × L) (List NodeId))
      (do return (← get).world.late.toList) :=
    fun _ l hs => ⟨l, rfl, rfl, hs⟩
  have hframe : Mirrors State.beside I (fun tasks s l => tasks = s.world.late.toList ∧ J' s l)
      (fun _ _ => True) (do before; frameWith follow p) (do Session.advance e frames; frame e p) :=
    mirrors_bind hbefore fun _ => mirrors_bind hempty fun _ => mirrors_bind hfollow fun _ => hqueue
  have hmeets : Meets (State.Typed p) (fun _ => False)
      (do Session.advance e frames; frame e p) fun _ => True :=
    meets_bind (meets_advance e frames) fun _ _ =>
      meets_mono (meets_frame e hp) fun _ _ => trivial
  refine mirrors_ok (mirrors_weaken (fun _ _ h => h.2) hframe) fun s l h => ?_
  obtain ⟨tasks, s', hrun, -, hs'⟩ := ok_of_meets hmeets h.1
  exact ⟨tasks, s', hrun, fun l' ⟨htasks, hl'⟩ => ⟨htasks, hs', hl'⟩⟩

/-- A late task runs, or is none and changes nothing. -/
theorem mirrors_lateTaskWith (e : Engine σ) (hp : p.WellFormed)
    (hfollow : ∀ n ids, p.nodes[task]? = some n → n.kind = .statement .lateUpdate →
      n.branch 0 = .ok ids →
        Mirrors State.beside I (fun _ => J) (fun _ _ => True) (follow ids) (run e p ids))
    (hnone : ¬p.IsLate task → ∀ s l, I s l → E s l) :
    Mirrors State.beside (fun s l => s.Typed p ∧ I s l) (fun _ s l => s.Typed p ∧ J s l)
      (fun s l => s.Typed p ∧ E s l) (lateTaskWith follow p task) (lateTask e p task) := by
  by_cases hlate : p.IsLate task
  · obtain ⟨m, hm, hkind⟩ := id hlate
    have htask : Mirrors State.beside I (fun _ => J) (fun _ _ => True) (lateTaskWith follow p task)
        (lateTask e p task) := by
      refine echoes_check fun n hnode => ?_
      cases hm.symm.trans (Program.getElem?_of_node hnode)
      rw [if_neg (not_not.mpr hkind), if_neg (not_not.mpr hkind)]
      exact echoes_check fun ids hids => hfollow m ids hm hkind hids
    refine mirrors_ok (mirrors_weaken (fun _ _ h => h.2) htask) fun s l h => ?_
    obtain ⟨_, s', hrun, -, hs'⟩ := ok_of_meets (meets_lateTask e hp (.inr hlate)) h.1
    exact ⟨(), s', hrun, fun l' hl' => ⟨hs', hl'⟩⟩
  · unfold lateTaskWith lateTask
    intro s l h
    have hfailed := hnone hlate s l h.2
    cases hnode : p.node task with
    | error fault => exact ⟨l, rfl, h.1, hfailed⟩
    | ok n =>
      have hkind : n.kind ≠ .statement .lateUpdate := fun hkind =>
        hlate ⟨n, Program.getElem?_of_node hnode, hkind⟩
      rw [check_bind rfl, check_bind rfl, if_pos hkind, if_pos hkind]
      exact ⟨l, rfl, h.1, hfailed⟩

end

namespace Session

def beside (s : Session σ) (l : L) : Session (σ × L) := ⟨s.program, s.frames, s.state.beside l⟩

/-- What a session does with something extra and without, and how that ends. -/
theorem perform_outcome {E : State σ → L → Prop} {J : α → State σ → L → Prop} {run' : Run (σ × L) α}
    {run : Run σ α} (h : Mirrors State.beside I J E run' run) {s : Session σ} {l : L}
    (hs : I s.state l) : ∃ r state l',
      s.perform run = (r, ⟨s.program, s.frames, state⟩) ∧
      (s.beside l).perform run' = (r, Session.beside ⟨s.program, s.frames, state⟩ l') ∧
      match r with
      | .ok a => J a state l'
      | .error _ => E state l' := by
  obtain ⟨program, frames, state⟩ := s
  have hrun := h state l hs
  unfold perform beside
  dsimp only
  cases hresult : run state with
  | ok a state' | error fault state' =>
    rw [hresult] at hrun
    obtain ⟨l', hrun', hJ⟩ := hrun
    rw [hrun']
    exact ⟨_, state', l', rfl, rfl, hJ⟩

theorem perform_beside {J : State σ → L → Prop} {run' : Run (σ × L) α} {run : Run σ α}
    (h : Mirrors State.beside I (fun _ => J) J run' run) {s : Session σ} {l : L}
    (hs : I s.state l) :
    ∃ l', (s.beside l).perform run' = ((s.perform run).1, (s.perform run).2.beside l') ∧
      J (s.perform run).2.state l' := by
  obtain ⟨r, state, l', hrun, hrun', hJ⟩ := perform_outcome h hs
  rw [hrun]
  exact ⟨l', hrun', by cases r <;> exact hJ⟩

end Session
end Interpreter
end SignalGraph
