import SignalGraph.Backend
import SignalGraph.Proofs.Emulation.Frames
import SignalGraph.Proofs.Execution.Soundness

/-!
# Equivalence of the backends

An interpreted and a compiled session of one program agree after every call.  Each call keeps the
agreement, and what an agreeing pair shows of itself is the same.
-/

namespace SignalGraph

variable {σ τ : Type}

/-- The engine that also writes down what it is asked, in order. -/
def Engine.recording (e : Engine σ) (note : {α : Type} → Request α → τ) : Engine (σ × List τ) where
  respond := fun r s =>
    let (answer, engine) := e.respond r s.1
    (answer, (engine, s.2 ++ [note r]))

namespace Backend

inductive Call where
  | frame
  | late (tasks : List NodeId)
  deriving DecidableEq

inductive Report where
  | frame (result : Except Fault (List NodeId))
  | late (result : Except Fault Unit)

def play (e : Engine σ) (b : Backend σ) : Call → Report × Backend σ
  | .frame => (b.runFrame e).map .frame id
  | .late tasks => (b.runLate e tasks).map .late id

def playAll (e : Engine σ) (b : Backend σ) (calls : List Call) : Backend σ :=
  calls.foldl (fun b c => (b.play e c).2) b

/-- What each call returns, with the world after it. -/
def observe (e : Engine σ) : Backend σ → List Call → List (Report × World σ)
  | _, [] => []
  | b, c :: rest =>
    let (report, b) := b.play e c
    (report, b.world) :: observe e b rest

def frameCalls (calls : List Call) : Nat := calls.count .frame

/-- What a run of a program has saved, itself fresh or begun with what an earlier run has saved. -/
inductive Kept (p : Program) : List SavedVariable → Prop
  | none : Kept p []
  | saved {σ : Type} {e : Engine σ} {engine : σ} {strategy : Strategy} {b : Backend σ}
    {entries : List SavedVariable} {calls : List Call} :
    Kept p entries → Backend.start strategy p engine = .ok b → frameCalls calls < 4294967295 →
    Kept p ((b.restore entries).playAll e calls).vars.saved

end Backend

namespace Compiler

open Wasm Interpreter

variable {p : Program} {frames : Nat} {e : Engine σ} {b b' : Backend σ}

/-- An interpreted and a compiled session of a program that hold the same after a number of
frames. -/
inductive Twins (p : Program) (frames : Nat) : Backend σ → Backend σ → Prop
  | mk {m : Wasm.Module} {s : Interpreter.State σ} {t : Machine (World σ)} :
    Compiled p m → Agrees p frames s t →
    Twins p frames (.interpreted ⟨p, frames, s⟩) (.compiled ⟨p, m, frames, t⟩)

theorem Twins.world (h : Twins p frames b b') : b'.world = b.world := by
  obtain ⟨-, hst⟩ := h
  exact hst.host

theorem Twins.typed (h : Twins p frames b b') : VariableStore.Typed p.vars b.vars := by
  obtain ⟨-, hst⟩ := h
  exact hst.typed.vars

theorem agrees_start (engine : σ) (p : Program) :
    Agrees p 0 (Interpreter.Session.start p engine).state
      { host := .start p engine, globals := (globals p).toArray, locals := #[] } := by
  refine ⟨typed_start p engine, rfl, List.size_toArray, rfl, fun k point hk => ?_⟩
  have hnone : ((Array.replicate p.memoPoints.length (none : Option Value))[k]?).join = none := by
    rw [Array.getElem?_replicate]
    split <;> rfl
  show Cached p 0 k point (globals p).toArray
    ((Array.replicate p.memoPoints.length (none : Option Value))[k]?).join
  rw [hnone]
  refine .empty (g := -1) ?_ (.inl rfl)
  rw [List.getElem?_toArray]
  exact globals_getElem? (x := target p) hk (j := 0) (by omega)

theorem twins_start (hp : p.WellFormed) (engine : σ) : ∃ b',
    Backend.start .compiled p engine = .ok b' ∧
      Twins p 0 (.interpreted (.start p engine)) b' := by
  obtain ⟨m, hcompile⟩ := exists_compile hp
  have hm := compiled_of_ok hcompile
  have hvalid := isValid_of_compiled hp hm
  refine ⟨.compiled ⟨p, m, 0, ⟨.start p engine, (globals p).toArray, #[]⟩⟩, ?_,
    .mk hm (agrees_start engine p)⟩
  have hstart : Session.start p engine = .ok ⟨p, m, 0,
    ⟨.start p engine, (globals p).toArray, #[]⟩⟩ := by
    unfold Session.start
    rw [hcompile, ← hm.globals]
    show (if ¬m.isValid = true then _ else _ : Except Fault (Session σ)) = _
    rw [if_neg (not_not_intro hvalid)]
    rfl
  rw [Backend.start, hstart]
  rfl

theorem twins_restore (h : Twins p frames b b') {entries : List SavedVariable}
    (hentries : ∀ entry ∈ entries, VariableStore.EntryTyped entry) :
    Twins p frames (b.restore entries) (b'.restore entries) := by
  obtain ⟨hm, hst⟩ := h
  refine .mk hm ⟨hst.typed.restore hentries, ?_, hst.size, hst.frame, hst.memo⟩
  exact congrArg (fun w => { w with vars := w.vars.restore entries }) hst.host

variable {m : Wasm.Module} {s : Interpreter.State σ} {t : Machine (World σ)}

/-- Actions that are alike leave the sessions that perform them alike. -/
theorem twins_perform {α : Type} {x : Run σ α} {x' : EStateM Fault (Machine (World σ)) α}
    (hm : Compiled p m) (h : Alike p frames (x s) (x' t)) :
    (Session.perform ⟨p, m, frames, t⟩ x').1 = (Interpreter.Session.perform ⟨p, frames, s⟩ x).1 ∧
      Twins p frames (.interpreted (Interpreter.Session.perform ⟨p, frames, s⟩ x).2)
        (.compiled (Session.perform ⟨p, m, frames, t⟩ x').2) := by
  unfold Session.perform Interpreter.Session.perform
  dsimp only
  revert h
  generalize x s = r, x' t = r'
  intro h
  cases h with
  | ok a hst => exact ⟨rfl, .mk hm hst⟩
  | error fault hst => exact ⟨rfl, .mk hm hst⟩

/-- Nothing but the engine notices that a frame is about to begin. -/
theorem advance_ok (hst : Agrees p frames s t) (e : Engine σ) (count : Nat) : ∃ s₁ t₁,
    Interpreter.Session.advance e count s = .ok () s₁ ∧ Session.advance e count t = .ok () t₁ ∧
      Agrees p frames s₁ t₁ := by
  unfold Interpreter.Session.advance Session.advance
  by_cases hcount : count = 0
  · rw [if_pos hcount, if_pos hcount]
    exact ⟨s, t, rfl, rfl, hst⟩
  · rw [if_neg hcount, if_neg hcount]
    have hright : onWorld (fun w => (World.ask (e.ask .advanceFrame) w).2) t =
        .ok () { t with host := (World.ask (e.ask .advanceFrame) s.world).2 } := by
      rw [← hst.host]
      rfl
    exact ⟨_, _, rfl, hright, hst.of_world (hst.typed.ask _)⟩

theorem twins_frame (hp : p.WellFormed) (haddressable : p.Addressable) (h : Twins p frames b b')
    (hlt : frames + 1 < 4294967295) :
    (b'.runFrame e).1 = (b.runFrame e).1 ∧
      Twins p (frames + 1) (b.runFrame e).2 (b'.runFrame e).2 := by
  obtain @⟨m, s, t, hm, hst⟩ := h
  obtain ⟨s₁, t₁, hleft, hright, hst₁⟩ := advance_ok hst e frames
  let z : Running σ := ⟨p, m, hp, haddressable, hm, e, frames + 1, hlt⟩
  have hframe : Alike p (frames + 1)
      ((do Interpreter.Session.advance e frames; Interpreter.frame e p) s)
      ((do Session.advance e frames; frame e p m) t) := by
    show Alike p (frames + 1) (EStateM.bind (Interpreter.Session.advance e frames) _ s)
      (EStateM.bind (Session.advance e frames) _ t)
    rw [EStateM.bind, hleft, EStateM.bind, hright]
    exact frame_alike (z := z) rfl hst₁
  exact twins_perform hm hframe

theorem twins_late (hp : p.WellFormed) (haddressable : p.Addressable) (h : Twins p frames b b')
    (hlt : frames < 4294967295) (tasks : List NodeId) :
    (b'.runLate e tasks).1 = (b.runLate e tasks).1 ∧
      Twins p frames (b.runLate e tasks).2 (b'.runLate e tasks).2 := by
  obtain ⟨hm, hst⟩ := h
  let z : Running σ := ⟨p, _, hp, haddressable, hm, e, frames, hlt⟩
  exact twins_perform hm (late_alike (z := z) tasks hst)

theorem twins_play (hp : p.WellFormed) (haddressable : p.Addressable) (h : Twins p frames b b')
    (c : Backend.Call) (hlt : frames + Backend.frameCalls [c] < 4294967295) :
    (b'.play e c).1 = (b.play e c).1 ∧
      Twins p (frames + Backend.frameCalls [c]) (b.play e c).2 (b'.play e c).2 := by
  cases c with
  | frame =>
    obtain ⟨hresult, htwins⟩ := twins_frame (e := e) hp haddressable h hlt
    exact ⟨congrArg Backend.Report.frame hresult, htwins⟩
  | late tasks =>
    obtain ⟨hresult, htwins⟩ := twins_late (e := e) hp haddressable h hlt tasks
    exact ⟨congrArg Backend.Report.late hresult, htwins⟩

theorem frameCalls_cons (c : Backend.Call) (rest : List Backend.Call) :
    Backend.frameCalls (c :: rest) = Backend.frameCalls [c] + Backend.frameCalls rest := by
  show ([c] ++ rest).count .frame = _
  exact List.count_append

theorem twins_playAll (hp : p.WellFormed) (haddressable : p.Addressable) (h : Twins p frames b b')
    (calls : List Backend.Call) (hlt : frames + Backend.frameCalls calls < 4294967295) :
    Twins p (frames + Backend.frameCalls calls) (b.playAll e calls) (b'.playAll e calls) := by
  induction calls generalizing frames b b' with
  | nil => exact h
  | cons c rest ih =>
    rw [frameCalls_cons, ← Nat.add_assoc] at hlt ⊢
    obtain ⟨-, htwins⟩ := twins_play (e := e) hp haddressable h c (by omega)
    exact ih htwins hlt

theorem observe_of_twins (hp : p.WellFormed) (haddressable : p.Addressable)
    {calls : List Backend.Call} (h : Twins p frames b b')
    (hlt : frames + Backend.frameCalls calls < 4294967295) :
    b'.observe e calls = b.observe e calls := by
  induction calls generalizing frames b b' with
  | nil => rfl
  | cons c rest ih =>
    rw [frameCalls_cons, ← Nat.add_assoc] at hlt
    obtain ⟨hreport, htwins⟩ := twins_play (e := e) hp haddressable h c (by omega)
    show ((b'.play e c).1, (b'.play e c).2.world) :: (b'.play e c).2.observe e rest = _
    rw [hreport, htwins.world, ih htwins hlt]
    rfl

/-- Whatever runs of a program have saved can be restored. -/
theorem entryTyped_of_kept (hp : p.WellFormed) (haddressable : p.Addressable)
    {entries : List SavedVariable} (h : Backend.Kept p entries) :
    ∀ entry ∈ entries, VariableStore.EntryTyped entry := by
  induction h with
  | none => exact fun _ hentry => absurd hentry List.not_mem_nil
  | @saved σ e engine strategy b entries calls _ hstart hlt ih =>
    obtain ⟨b', hcompiled, hstarted⟩ := twins_start hp engine
    have htwins := twins_playAll (e := e) hp haddressable
      (twins_restore hstarted ih) calls (by omega)
    have htyped := htwins.typed
    cases strategy with
    | interpreter =>
      cases hstart
      exact VariableStore.entryTyped_of_saved htyped
    | compiled =>
      rw [hcompiled] at hstart
      cases hstart
      rw [Backend.vars, htwins.world]
      exact VariableStore.entryTyped_of_saved htyped

/-- An interpreted and a compiled run of an analysed program return the same from every call and
hold the same after it, with the same requests before: whatever the engine, what was kept from
earlier runs, which tasks the calls name, and what is written down of a request.  The limits on the
program and on the number of frames are those of the words in which code keeps ids and counts
frames, of which one value stands for no frame. -/
theorem observe_compiled {c : Catalog} {d : Document} (hc : c.Stocked)
    (h : Program.analyse c d = .ok p) (haddressable : p.Addressable) {entries : List SavedVariable}
    (hkept : Backend.Kept p entries) (e : Engine σ) (engine : σ)
    (note : {α : Type} → Request α → τ) {calls : List Backend.Call}
    (hlt : Backend.frameCalls calls < 4294967295) :
    ∃ b b', Backend.start .interpreter p (engine, []) = .ok b ∧
      Backend.start .compiled p (engine, []) = .ok b' ∧
      (b'.restore entries).observe (e.recording note) calls =
        (b.restore entries).observe (e.recording note) calls := by
  have hp := Program.wellFormed_of_analyse hc h
  obtain ⟨b', hcompiled, htwins⟩ := twins_start (σ := σ × List τ) hp (engine, [])
  have hrestored := twins_restore htwins (entryTyped_of_kept hp haddressable hkept)
  refine ⟨_, b', rfl, hcompiled, ?_⟩
  exact observe_of_twins hp haddressable hrestored (by omega)

/-- The line that a request adds to the log of a new engine. -/
def line {α : Type} (r : Request α) : Array String := (Headless.answer r (.ofSeed 0)).2.log

/-- The variable of `toggling` is kept from a first run, and so the second one takes the other
branch. -/
theorem observe_compiled_toggling : ∃ c p entries b b', c.Stocked ∧
    Program.analyse c Program.toggling = .ok p ∧ p.Addressable ∧ Backend.Kept p entries ∧
    entries = [⟨"!lit", .value .bool, #[.bool true]⟩] ∧
    Backend.start .interpreter p (Headless.ofSeed 0, []) = .ok b ∧
    Backend.start .compiled p (Headless.ofSeed 0, []) = .ok b' ∧
    ((b.restore entries).playAll (Headless.engine.recording line)
      [.frame, .late [6], .frame]).world.engine.2 =
        [#["create_object(0) -> 1"],
          #["inspect_value(Obj(ObjectId(1)), obj, None, 32, (20, 0, 20))"],
          #["inspect_value(Bool(false), bool, None, 28, (28, 0, 28))"], #[],
          #["create_object(0) -> 1"],
          #["inspect_value(Obj(ObjectId(2)), obj, None, 32, (20, 0, 20))"]] ∧
    (b'.restore entries).observe (Headless.engine.recording line) [.frame, .late [6], .frame] =
      (b.restore entries).observe (Headless.engine.recording line)
        [.frame, .late [6], .frame] := by
  have hsome : (Catalog.stock.bind fun c =>
      Program.analyse c Program.toggling).toOption.any (fun p =>
      (p.vars.length = 1 ∧ p.slots.length = 1 ∧ p.nodes.size = 8) ∧
      (((Backend.interpreted (.start p (Headless.ofSeed 0))).restore []).playAll
        Headless.engine [.frame]).vars.saved = [⟨"!lit", .value .bool, #[.bool true]⟩] ∧
      (((Backend.interpreted (.start p (Headless.ofSeed 0, []))).restore
        [⟨"!lit", .value .bool, #[.bool true]⟩]).playAll (Headless.engine.recording line)
          [.frame, .late [6], .frame]).world.engine.2 =
        [#["create_object(0) -> 1"],
          #["inspect_value(Obj(ObjectId(1)), obj, None, 32, (20, 0, 20))"],
          #["inspect_value(Bool(false), bool, None, 28, (28, 0, 28))"], #[],
          #["create_object(0) -> 1"],
          #["inspect_value(Obj(ObjectId(2)), obj, None, 32, (20, 0, 20))"]]) = true := by
    decide +kernel
  obtain ⟨c, p, -, hc, hp, hfacts⟩ := Catalog.exists_stock hsome
  obtain ⟨⟨hvars, hslots, hnodes⟩, hsaved, hlines⟩ := of_decide_eq_true hfacts
  have haddressable : p.Addressable := ⟨by omega, by omega, by omega⟩
  have hstart : Backend.start .interpreter p (Headless.ofSeed 0) =
      .ok (.interpreted (.start p (Headless.ofSeed 0))) := rfl
  have hkept : Backend.Kept p [⟨"!lit", .value .bool, #[.bool true]⟩] :=
    hsaved ▸ .saved .none hstart (by decide)
  obtain ⟨b, b', hb, hb', hsame⟩ := observe_compiled hc hp haddressable hkept Headless.engine
    (Headless.ofSeed 0) line (by decide : Backend.frameCalls [.frame, .late [6], .frame] < _)
  cases hb
  exact ⟨c, p, _, _, b', hc, hp, haddressable, hkept, rfl, rfl, hb', hlines, hsame⟩

end Compiler
end SignalGraph
