import SignalGraph.Engine.Headless
import SignalGraph.Proofs.Execution.Reached

/-!
# Soundness of runs

Whatever an interpreted run has done so far, its stores and memo points hold values of their
declared types, every input is read as a value of the type of its pin, and no call fails.
-/

namespace SignalGraph
namespace Interpreter

variable {σ : Type}

/-- Runs chains until `stop` says so, and breaks off there. -/
def interrupted (stop : List NodeId → State σ → Bool) (chain : List NodeId → Run σ Unit)
    (ids : List NodeId) : Run σ Unit := fun s =>
  if stop ids s then .error .malformed s else chain ids s

/-- The states that a run of a program passes through, and any that it would pass through if it read
inputs and ran statements in another order.  The start of a chain inside a statement is where the
statement ends if the chain is interrupted. -/
inductive Visited (p : Program) (e : Engine σ) : State σ → Prop
  | session {s : Session σ} :
    Backend.Reached .interpreter p e (.interpreted s) → Visited p e s.state
  | begun {s : State σ} : Visited p e s → Visited p e
    { world := s.world.clearQueue, memo := Array.replicate p.memoPoints.length none }
  | asked {s : State σ} {α : Type} (action : StateM σ α) :
    Visited p e s → Visited p e (after (inWorld (World.ask action)) s)
  | computed {s : State σ} {id : NodeId} {n : Node} (output depth : Nat) :
    Visited p e s → p.nodes[id]? = some n → output < n.outputs.length →
    Visited p e (after (produce e p depth ⟨id, output⟩) s)
  | read {s : State σ} {id : NodeId} {n : Node} (i depth : Nat) :
    Visited p e s → p.nodes[id]? = some n → Visited p e (after (input (produce e p depth) n i) s)
  | executed {s : State σ} {id : NodeId} {n : Node} {st : Statement}
    (stop : List NodeId → State σ → Bool) (depth depth' : Nat) :
    Visited p e s → p.nodes[id]? = some n → n.kind = .statement st →
    Visited p e (after (execute e p.vars (produce e p depth)
      (interrupted stop (runChain e p depth')) id n st) s)

variable {p : Program} {e : Engine σ}

/-- At any depth, whatever outputs there are have their types. -/
theorem supplied_produce (e : Engine σ) (hp : p.WellFormed) {id : NodeId} {n : Node}
    (hn : n.Fits p id) (depth : Nat) :
    Supplied p (State.Typed p) (produce e p depth) n := by
  intro w hw
  obtain ⟨rank, hrank⟩ := hp.reads
  obtain ⟨type, hfits⟩ := hn.fits_of_wire hw
  exact meets_produce e hp hrank hfits.source (.inl fun _ h => h)

theorem meets_interrupted {E : State σ → Prop} {chain : List NodeId → Run σ Unit}
    {ids : List NodeId}
    (hE : ∀ s, State.Typed p s → E s)
    (h : Meets (State.Typed p) E (chain ids) fun _ => True) (stop : List NodeId → State σ → Bool) :
    Meets (State.Typed p) E (interrupted stop chain ids) fun _ => True := by
  intro s hs
  unfold interrupted
  by_cases hstop : stop ids s = true
  · rw [if_pos hstop]
    exact hE s hs
  · rw [if_neg hstop]
    exact h s hs

/-- What one step of a run keeps, a whole run keeps. -/
theorem typed_of_visited (hp : p.WellFormed) {s : State σ} (h : Visited p e s) : s.Typed p := by
  induction h with
  | session hreached =>
    obtain ⟨s', heq, -, hs⟩ := typed_of_reached hp hreached
    cases heq
    exact hs
  | begun _ ih => exact typed_clear ih
  | asked action _ ih =>
    exact meets_after (Q := fun _ => True) (meets_ask fun _ => trivial) ih
  | computed output depth _ hget hlt ih =>
    obtain ⟨rank, hrank⟩ := hp.reads
    exact meets_after (meets_produce e hp hrank ⟨_, hget, List.getElem?_eq_getElem hlt⟩
      (.inl fun _ h => h)) ih
  | @read s id n i depth _ hget ih =>
    have hn := hp.nodes id n hget
    have hsupplied := supplied_produce e hp hn depth
    cases hpin : n.kind.shape.inputs[i]? with
    | some pin => exact meets_after (meets_input hp hn hsupplied hpin) ih
    | none =>
      have hnone : n.inputs[i]? = none := by
        rw [List.getElem?_eq_none_iff, hn.arity]
        exact List.getElem?_eq_none_iff.mp hpin
      unfold after input Node.input
      rw [hnone]
      exact ih
  | @executed s id n st stop depth depth' _ hget hkind ih =>
    have hn := hp.nodes id n hget
    obtain ⟨rank, hrank⟩ := hp.leads
    refine meets_after (meets_execute e hp hget (supplied_produce e hp hn depth) ?_ hkind) ih
    intro ids hids
    refine meets_interrupted (fun _ h => h) ?_ stop
    exact meets_runChain e hp hrank (hn.targets ids hids) (.inl fun _ h => h)

theorem value_of_meets {I E : State σ → Prop} {α : Type} {run : Run σ α} {Q : α → Prop}
    {s s' : State σ}
    {a : α} (h : Meets I E run Q) (hs : I s) (hrun : run s = .ok a s') : Q a := by
  have hmeets := h s hs
  rw [hrun] at hmeets
  exact hmeets.1

/-- Type soundness.  In every state of a run, slots, variables and memo points hold values of their
declared types, and an input is read as a value of the type of its pin.  Nothing is read only where
the operand is absent, or where a pointer is missing. -/
theorem typed_of_run {c : Catalog} {d : Document} (hc : c.Stocked) (h : Program.analyse c d = .ok p)
    {s : State σ} (hs : Visited p e s) :
    (∀ (id : SlotId) (slot : Slot), p.slots[id]? = some slot →
      ∃ v, s.world.slots.values[id]? = some v ∧ v.HasBase slot.type) ∧
    (∀ id : VarId, (s.world.vars.cells[id]?).map (·.decl) = p.vars[id]?) ∧
    (∀ (id : VarId) (cell : Cell), s.world.vars.cells[id]? = some cell →
      cell.values.size ≤ 65536 ∧ ∀ v ∈ cell.values, v.HasBase cell.decl.type) ∧
    (∀ (k : MemoId) (v : Value), s.memo[k]? = some (some v) →
      ∃ m, p.memoPoints[k]? = some m ∧ v.Fits p.vars m.type) ∧
    ∀ (id : NodeId) (n : Node) (i : Nat) (pin : Pin) (depth : Nat), p.nodes[id]? = some n →
      n.kind.shape.inputs[i]? = some pin →
      (∀ v s', input (produce e p depth) n i s = .ok v s' →
        (n.inputs[i]? = some .absent ∧ v = .void) ∨ v.Fits p.vars pin.type) ∧
      ∀ v s', optionalInput (produce e p depth) n i s = .ok (some v) s' →
        v.Fits p.vars pin.type := by
  have hp := Program.wellFormed_of_analyse hc h
  have htyped := typed_of_visited hp hs
  refine ⟨fun id slot hslot => ?_, htyped.vars.decls, fun id cell hcell => ?_, htyped.memo, ?_⟩
  · have hlt : id < s.world.slots.values.size := by
      rw [htyped.slots.size]
      exact (List.getElem?_eq_some_iff.mp hslot).1
    have hbase := htyped.slots.holds id slot hslot
    rw [SlotStore.get, Array.getD_eq_getD_getElem?, Array.getElem?_eq_getElem hlt] at hbase
    exact ⟨_, Array.getElem?_eq_getElem hlt, hbase⟩
  · have helements := htyped.vars.elements id cell hcell
    exact ⟨helements.size, helements.each⟩
  · intro id n i pin depth hget hpin
    have hn := hp.nodes id n hget
    have hsupplied := supplied_produce e hp hn depth
    refine ⟨fun v s' hrun => ?_, fun v s' hrun => ?_⟩
    · obtain ⟨o, ho, hv⟩ := value_of_meets (meets_input hp hn hsupplied hpin) htyped hrun
      rcases hv with ⟨habsent, hvoid⟩ | hv
      · rw [habsent] at ho
        exact .inl ⟨ho, hvoid⟩
      · exact .inr hv
    · exact value_of_meets (meets_optionalInput hp hn hsupplied hpin) htyped hrun v rfl

/-- A state within the second frame of `toggling`, when the flipped value has been read for the node
`m` and the object has been made by the node `n`. -/
def made (p : Program) (m n : Node) : State Headless :=
  let e := Headless.engine
  let s := (Session.start p (Headless.ofSeed 0)).runFrame e |>.2.runLate e [6] |>.2.state
  let begun : State Headless :=
    { world := s.world.clearQueue, memo := Array.replicate p.memoPoints.length none }
  after (execute e p.vars (produce e p 9) (interrupted (fun _ _ => false) (runChain e p 9)) 3 n
    (.effect .createObject)) (after (input (produce e p 9) m 1) begun)

theorem typed_of_run_toggling : ∃ c p s, c.Stocked ∧ Program.analyse c Program.toggling = .ok p ∧
    Visited p Headless.engine s ∧ s.world.slots.values = #[.obj 1] ∧
    s.world.vars.saved = [⟨"!lit", .value .bool, #[.bool true]⟩] ∧
    s.memo = #[some (.ptr ⟨0, 0⟩), some (.bool false)] ∧
    (∀ (id : SlotId) (slot : Slot), p.slots[id]? = some slot →
      ∃ v, s.world.slots.values[id]? = some v ∧ v.HasBase slot.type) ∧
    (∀ id : VarId, (s.world.vars.cells[id]?).map (·.decl) = p.vars[id]?) ∧
    (∀ (id : VarId) (cell : Cell), s.world.vars.cells[id]? = some cell →
      cell.values.size ≤ 65536 ∧ ∀ v ∈ cell.values, v.HasBase cell.decl.type) ∧
    (∀ (k : MemoId) (v : Value), s.memo[k]? = some (some v) →
      ∃ m, p.memoPoints[k]? = some m ∧ v.Fits p.vars m.type) ∧
    ∀ (id : NodeId) (n : Node) (i : Nat) (pin : Pin) (depth : Nat), p.nodes[id]? = some n →
      n.kind.shape.inputs[i]? = some pin →
      (∀ v s', input (produce Headless.engine p depth) n i s = .ok v s' →
        (n.inputs[i]? = some .absent ∧ v = .void) ∨ v.Fits p.vars pin.type) ∧
      ∀ v s', optionalInput (produce Headless.engine p depth) n i s = .ok (some v) s' →
        v.Fits p.vars pin.type := by
  have hsome : (Catalog.stock.bind fun c =>
      Program.analyse c Program.toggling).toOption.any (fun p =>
      (p.nodes[4]?).any fun m => (p.nodes[3]?).any fun n =>
        n.kind = .statement (.effect .createObject) ∧
        (made p m n).world.slots.values = #[.obj 1] ∧
        (made p m n).world.vars.saved = [⟨"!lit", .value .bool, #[.bool true]⟩] ∧
        (made p m n).memo = #[some (.ptr ⟨0, 0⟩), some (.bool false)]) = true := by
    decide +kernel
  obtain ⟨c, p, -, hc, hp, hnodes⟩ := Catalog.exists_stock hsome
  obtain ⟨m, hm, hnodes⟩ := (Option.any_eq_true _ _).mp hnodes
  obtain ⟨n, hn, hfacts⟩ := (Option.any_eq_true _ _).mp hnodes
  obtain ⟨hkind, hslots, hvars, hmemo⟩ := of_decide_eq_true hfacts
  have hstart : Backend.Reached .interpreter p Headless.engine
      (.interpreted (.start p (Headless.ofSeed 0))) := .start rfl
  have hvisited : Visited p Headless.engine (made p m n) :=
    .executed _ 9 9 (.read 1 9 (.begun (.session (hstart.frame.late [6]))) hm) hn hkind
  exact ⟨c, p, _, hc, hp, hvisited, hslots, hvars, hmemo, typed_of_run hc hp hvisited⟩

/-- Frames and the late tasks that they queue never fail, and they are no deeper than the program
has nodes: a greater depth makes no difference. -/
theorem calls_succeed {c : Catalog} {d : Document} (hc : c.Stocked)
    (h : Program.analyse c d = .ok p) {b : Backend σ} (hb : Backend.Reached .interpreter p e b) :
    ∃ tasks b', b.runFrame e = (.ok tasks, b') ∧
      (∀ b'', Backend.Reached .interpreter p e b'' → ∃ b₃, b''.runLate e tasks = (.ok (), b₃)) ∧
      ∀ depth, p.nodes.size < depth →
        runChain e p depth p.entryPoints = run e p p.entryPoints ∧
        (∀ task ∈ tasks, ∀ n ids, p.nodes[task]? = some n → n.branch 0 = .ok ids →
          runChain e p depth ids = run e p ids) ∧
        ∀ source type, p.Offers source type →
          produce e p depth source = produce e p (p.nodes.size + 1) source := by
  have hp := Program.wellFormed_of_analyse hc h
  have hdepth : ∀ {depth : Nat} {ids : List NodeId}, p.nodes.size < depth →
      (∀ id ∈ ids, p.IsStatement id) → runChain e p depth ids = run e p ids := by
    intro depth ids hlt hids
    obtain ⟨rank, hrank⟩ := hp.leads
    refine (run_eq_runChain hp hrank hids fun id hid => ?_).symm
    have := rank_lt_of_isStatement hrank hids id hid
    omega
  obtain ⟨s, rfl, rfl, hs⟩ := typed_of_reached hp hb
  have hframe : Meets (State.Typed s.program) (fun _ => False)
      (do Session.advance e s.frames; frame e s.program)
      fun tasks => ∀ task ∈ tasks, s.program.IsLate task :=
    meets_bind (meets_advance e _) fun _ _ => meets_frame e hp
  obtain ⟨tasks, s', hrun, hlate, -⟩ := ok_of_meets hframe hs
  refine ⟨tasks, _, runFrame_of_ok hrun, fun b'' hb'' => ?_, fun depth hlt => ⟨?_, ?_, ?_⟩⟩
  · obtain ⟨t, rfl, hprogram, ht⟩ := typed_of_reached hp hb''
    obtain ⟨_, t', hrun', -, -⟩ :=
      ok_of_meets (meets_late e hp fun task htask => .inr (hlate task htask)) ht
    rw [← hprogram] at hrun'
    exact ⟨_, runLate_of_ok hrun'⟩
  · exact hdepth hlt hp.entryPoints
  · intro task _ n ids hget hbranch
    exact hdepth hlt ((hp.nodes task n hget).targets ids (branch_mem hbranch))
  · intro source type hsource
    obtain ⟨rank, hrank⟩ := hp.reads
    obtain ⟨n, hn, -⟩ := hsource
    have hbound := hrank.bounded source.node (Array.getElem?_eq_some_iff.mp hn).1
    exact produce_depth hrank (by omega) (by omega)

/-- The second frame of `toggling`, which makes the object and queues the late update again. -/
theorem calls_succeed_toggling : ∃ c p b b', c.Stocked ∧
    Program.analyse c Program.toggling = .ok p ∧ Backend.Reached .interpreter p Headless.engine b ∧
    b.runFrame Headless.engine = (.ok [6], b') ∧ b'.world.slots.values = #[.obj 1] ∧
    (∀ b'', Backend.Reached .interpreter p Headless.engine b'' →
      ∃ b₃, b''.runLate Headless.engine [6] = (.ok (), b₃)) ∧
    ∀ depth, p.nodes.size < depth →
      runChain Headless.engine p depth p.entryPoints = run Headless.engine p p.entryPoints ∧
      (∀ task ∈ [6], ∀ n ids, p.nodes[task]? = some n → n.branch 0 = .ok ids →
        runChain Headless.engine p depth ids = run Headless.engine p ids) ∧
      ∀ source type, p.Offers source type →
        produce Headless.engine p depth source =
          produce Headless.engine p (p.nodes.size + 1) source := by
  let b p := ((Backend.interpreted (.start p (Headless.ofSeed 0))).runFrame Headless.engine).2
    |>.runLate Headless.engine [6] |>.2
  have hsome : (Catalog.stock.bind fun c =>
      Program.analyse c Program.toggling).toOption.any (fun p =>
      ((b p).runFrame Headless.engine).1.toOption = some [6] ∧
      ((b p).runFrame Headless.engine).2.world.slots.values = #[.obj 1]) = true := by
    decide +kernel
  obtain ⟨c, p, -, hc, hp, hfacts⟩ := Catalog.exists_stock hsome
  obtain ⟨htasks, hslots⟩ := of_decide_eq_true hfacts
  have hstart : Backend.Reached .interpreter p Headless.engine
      (.interpreted (.start p (Headless.ofSeed 0))) := .start rfl
  have hreached : Backend.Reached .interpreter p Headless.engine (b p) := hstart.frame.late [6]
  obtain ⟨tasks, b', hrun, hall⟩ := calls_succeed hc hp hreached
  rw [hrun] at htasks hslots
  cases htasks
  exact ⟨c, p, b p, b', hc, hp, hreached, hrun, hslots, hall⟩

end Interpreter
end SignalGraph
