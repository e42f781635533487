import Mathlib
import SignalGraph.Proofs.Instrumentation.Chronicle.Backends

/-!
# Reads of memo points

What an input receives from a memo point has been computed since the frame began.
-/

namespace SignalGraph

variable {σ : Type} {p : Program}

/-- Whatever an input receives from a memo point has been computed since the frame began, from the
output that the input is connected to. -/
def Chronicle.Recent (p : Program) (l : Chronicle) : Prop :=
  ∀ (before : Chronicle) (id : NodeId) (i : Nat) (r : Reading) (after : Chronicle)
    (n : Node) (w : Wire) (k : MemoId), l = before ++ .read id i r :: after →
    p.nodes[id]? = some n → n.inputs[i]? = some (.wire w) → w.memo = some k →
    (∃ m, p.memoPoints[k]? = some m ∧ m.source = w.source) ∧ .computed k r ∈ before.current

theorem Chronicle.Lawful.recent {l : Chronicle} (hp : p.WellFormed) (h : l.Lawful p) :
    l.Recent p := by
  intro before id i r after n w k heq hget hinput hmemo
  obtain ⟨n', w', hget', hinput', hbacked⟩ := h before id i r after heq
  cases hget.symm.trans hget'
  cases hinput.symm.trans hinput'
  refine ⟨?_, hbacked.computed k hmemo⟩
  have hn := hp.nodes id n hget
  have hbound := (List.getElem?_eq_some_iff.mp hinput).1
  rw [hn.arity] at hbound
  obtain ⟨o, ho, hfits⟩ := hn.inputs i _ (List.getElem?_eq_getElem hbound)
  cases hinput.symm.trans ho
  cases hfits with
  | wire hw => exact hw.memo k hmemo

theorem Chronicle.current_append_frame {l es : Chronicle} (h : ∀ d ∈ es, d.isFrame = false) :
    current (l ++ .frame :: es) = es := by
  induction es using List.reverseRecOn with
  | nil => exact current_append_one
  | append_singleton es d ih =>
    rw [← List.cons_append, ← List.append_assoc, current_append_one,
      h d (List.mem_append_right _ (List.mem_singleton.mpr rfl)),
      ih fun d hd => h d (List.mem_append_left _ hd)]
    rfl

/-! ## A memo point that sleeps -/

namespace Dormant

/-- While a button is held, two statements read one pointer, to `b`. -/
def document : Document where
  main := {
    id := 0
    nodes := [{ pos := ⟨0, 0, 0⟩, kind := 48, settings := [.text "a"] },
      { pos := ⟨4, 0, 4⟩, kind := 48, settings := [.text "b"] },
      { pos := ⟨8, 0, 8⟩, kind := 588 },
      { pos := ⟨12, 0, 12⟩, kind := 62 },
      { pos := ⟨16, 0, 16⟩, kind := 62 }]
    connections := [.between ⟨8, 0, 8⟩ ⟨15, 1, 3⟩ ⟨12, 0, 12⟩ ⟨3, 1, 15⟩,
      .between ⟨12, 0, 12⟩ ⟨3, 1, 0⟩ ⟨16, 0, 16⟩ ⟨3, 1, 15⟩,
      .between ⟨4, 0, 4⟩ ⟨15, 1, 3⟩ ⟨12, 0, 12⟩ ⟨0, 1, 11⟩,
      .between ⟨4, 0, 4⟩ ⟨15, 1, 3⟩ ⟨16, 0, 16⟩ ⟨0, 1, 11⟩] }

def variableNode (pos : Pos) (var : VarId) : Node where
  env := 0
  pos
  block := 48
  kind := .expression (.getVariable (.value .obj))
  statement := false
  constant := .names var
  inputs := []
  outputs := [.pointer .obj]
  controls := []
  slots := []

def pointerWire : Wire where
  source := ⟨1, 0⟩
  type := .pointer .obj
  deref := false
  memo := some 0

def setterNode (pos : Pos) (after : List NodeId) : Node where
  env := 0
  pos
  block := 62
  kind := .statement (.setPointer (.value .obj))
  statement := true
  constant := .none
  inputs := [.wire pointerWire, .default (.obj 0)]
  outputs := []
  controls := [after]
  slots := []

def buttonNode : Node where
  env := 0
  pos := ⟨8, 0, 8⟩
  block := 588
  kind := .statement .button
  statement := true
  constant := .int 0
  inputs := []
  outputs := []
  controls := [[3], []]
  slots := []

def program : Program where
  environments := [{ graph := 0, copy := 0, parent := none }]
  nodes := #[variableNode ⟨0, 0, 0⟩ 0, variableNode ⟨4, 0, 4⟩ 1, buttonNode,
    setterNode ⟨12, 0, 12⟩ [4], setterNode ⟨16, 0, 16⟩ []]
  entryPoints := [2]
  memoPoints := [{ source := ⟨1, 0⟩, type := .pointer .obj, consumers := 2 }]
  slots := []
  vars := [{ name := "a", type := .obj, scope := .within 0 },
    { name := "b", type := .obj, scope := .within 0 }]

theorem exists_analyse : ∃ c, c.Stocked ∧ Program.analyse c document = .ok program := by
  have hsome : (Catalog.stock.bind fun c => Program.analyse c document).toOption.any
      (fun p => p = program) = true := by
    decide +kernel
  obtain ⟨c, p, -, hc, hp, heq⟩ := Catalog.exists_stock hsome
  exact ⟨c, hc, of_decide_eq_true heq ▸ hp⟩

theorem addressable : program.Addressable := ⟨by decide, by decide, by decide⟩

def code : Wasm.Module :=
  match Compiler.compile program with
  | .ok m => m
  | .error _ => { imports := #[], functions := #[], globals := [], exports := [] }

theorem isValid_code : code.isValid = true := by decide +kernel

theorem compile_program : Compiler.compile program = .ok code := by
  have hok : (Compiler.compile program).isOk = true := by decide +kernel
  unfold code
  cases h : Compiler.compile program with
  | ok m => rfl
  | error fault =>
    rw [h] at hok
    cases hok

/-- A host that answers whether the button is held, by its state. -/
def answer : {α : Type} → Request α → Bool → α × Bool
  | _, .button _, held => (held, held)
  | _, r, held => ((Headless.answer r (Headless.ofSeed 0)).1, held)

def engine : Engine Bool := ⟨answer⟩

/-- The compiled program with that count of frames, and the memo point as it was at the start. -/
def resting (held : Bool) (frames : Nat) (count : Int32) : Compiler.Session Bool :=
  ⟨program, code, frames, .start program held, #[.i32 count, .i32 (-1), .i32 0, .i32 0], #[]⟩

theorem start_resting (held : Bool) :
    Backend.start .compiled program held = .ok (.compiled (resting held 0 0)) := by
  have hglobals : code.globals.toArray = #[.i32 0, .i32 (-1), .i32 0, .i32 0] := by decide +kernel
  have hvalid : ¬¬code.isValid = true := not_not_intro isValid_code
  have hstart : Compiler.Session.start program held = .ok (resting held 0 0) := by
    unfold Compiler.Session.start
    rw [compile_program]
    simp only [bind, Except.bind, hvalid, ↓reduceIte, pure, Except.pure]
    rw [hglobals]
    rfl
  exact congrArg (Except.map Backend.compiled) hstart

/-- While the button is not held, a frame counts itself and does nothing else. -/
theorem runFrame_resting (frames : Nat) (count : Int32) :
    (resting false frames count).runFrame engine =
      (.ok [], resting false (frames + 1) (count + 1)) := by
  cases frames <;> rfl

/-- So the count comes to any number. -/
theorem chronicled_resting (frames : Nat) : ∃ w, Backend.Chronicled .compiled program engine
    (.compiled (resting false frames (Int32.ofNat frames))) w := by
  induction frames with
  | zero => exact ⟨_, .start (start_resting false)⟩
  | succ frames ih =>
    obtain ⟨w, hw⟩ := ih
    have hframe :
        ((Backend.compiled (resting false frames (Int32.ofNat frames))).runFrame engine).2 =
          .compiled (resting false (frames + 1) (Int32.ofNat (frames + 1))) := by
      rw [Backend.runFrame, runFrame_resting, Int32.ofNat_add]
      rfl
    exact ⟨_, hframe ▸ hw.frame⟩

/-- The button is pressed before the frame whose count is the stamp that the memo point started
with. -/
theorem chronicled_pressed : ∃ w, Backend.Chronicled .compiled program engine
    (.compiled (resting true (4294967293 + 1) (-2))) w := by
  obtain ⟨w, hw⟩ := chronicled_resting 4294967294
  have hcount : Int32.ofNat 4294967294 = -2 := by decide
  rw [hcount] at hw
  exact ⟨_, hw.ask fun _ => ((), true)⟩

/-- In that frame the first of the two statements reads a pointer that nothing has computed. -/
theorem tellFrame_pressed (frames : Nat) (l : Chronicle) : ∃ rest,
    (((resting true (frames + 1) (-2)).beside l).tellFrame engine).2.state.host.engine.2 =
      (l ++ Deed.frame :: [.asked, .entered 2, .asked, .branched 2, .entered 3]) ++
        Deed.read 3 0 (.lanes [.i32 0, .i32 0]) :: rest := by
  have htold :
      (((resting true (frames + 1) (-2)).beside l).tellFrame engine).2.state.host.engine.2 =
        l ++ [Deed.frame] ++ [Deed.asked] ++ [Deed.entered 2] ++ [Deed.asked] ++
          [Deed.branched 2] ++ [Deed.entered 3] ++ [Deed.read 3 0 (.lanes [.i32 0, .i32 0])] ++
          [Deed.left 3] ++ [Deed.entered 4] ++ [Deed.read 4 0 (.lanes [.i32 0, .i32 0])] ++
          [Deed.left 4] ++ [Deed.left 2] := by
    cbv
  simp only [List.append_assoc, List.cons_append, List.nil_append] at htold ⊢
  exact ⟨_, htold⟩

theorem chronicle_beside (b : Backend Bool) (l : Chronicle) :
    (b.beside l).world.engine.2 = l := by
  cases b <;> rfl

theorem world_tellFrame (s : Compiler.Session (Bool × Chronicle)) :
    ((Backend.compiled s).tellFrame engine).2.world = (s.tellFrame engine).2.state.host := rfl

/-- So a run comes to read that pointer, which is to variable zero, as all cells of a memo point are
zero at the start. -/
theorem exists_stale_read {c : Catalog} (hc : c.Stocked)
    (hp : Program.analyse c document = .ok program) :
    ∃ (b : Backend Bool) (l l' rest : Chronicle),
      Backend.Chronicled .compiled program engine b (b.beside l') ∧
      l' = (l ++ Deed.frame :: [.asked, .entered 2, .asked, .branched 2, .entered 3]) ++
        Deed.read 3 0 (.lanes [.i32 0, .i32 0]) :: rest := by
  have hfit : Strategy.compiled = .compiled → program.Addressable := fun _ => addressable
  have hbeside : ∀ {b : Backend Bool} {w : Backend (Bool × Chronicle)},
      Backend.Chronicled .compiled program engine b w → ∃ l, w = b.beside l := by
    intro b w hw
    obtain ⟨l, hl, -⟩ := Backend.told_of_chronicled (Program.wellFormed_of_analyse hc hp) hfit
      (Program.owns_of_analyse hc hp) (Program.shares_of_analyse hc hp) hw
    exact ⟨l, hl⟩
  obtain ⟨w, hw⟩ := chronicled_pressed
  obtain ⟨l, rfl⟩ := hbeside hw
  obtain ⟨l', hl'⟩ := hbeside hw.frame
  obtain ⟨rest, hrest⟩ := tellFrame_pressed 4294967293 l
  have hchronicle : l' =
      (((resting true (4294967293 + 1) (-2)).beside l).tellFrame engine).2.state.host.engine.2 :=
    calc l' = _ := (chronicle_beside _ l').symm
      _ = _ := congrArg (fun w => w.world.engine.2) hl'.symm
      _ = _ := congrArg (fun w => w.engine.2) (world_tellFrame _)
  have hframe := hw.frame
  rw [hl'] at hframe
  exact ⟨_, l, l', rest, hframe, hchronicle.trans hrest⟩

end Dormant

namespace Program

/-- Two statements that read one number: the first writes it to a variable, the second shows it. -/
def sharing : Document where
  main := {
    id := 0
    nodes := [{ pos := ⟨0, 0, 0⟩, kind := 36 },
      { pos := ⟨4, 0, 4⟩, kind := 428, settings := [.text "x"] },
      { pos := ⟨8, 0, 8⟩, kind := 16 }]
    connections := [.between ⟨0, 0, 0⟩ ⟨15, 1, 3⟩ ⟨4, 0, 4⟩ ⟨0, 1, 3⟩,
      .between ⟨0, 0, 0⟩ ⟨15, 1, 3⟩ ⟨8, 0, 8⟩ ⟨0, 1, 3⟩] }

theorem exists_analyse_sharing : ∃ c p, c.Stocked ∧ analyse c sharing = .ok p ∧
    p.nodes.size = 3 ∧ p.memoPoints.length = 1 ∧ p.slots.length = 0 ∧ p.vars.length = 1 := by
  have hsome : (Catalog.stock.bind fun c => analyse c sharing).toOption.any (fun p =>
      p.nodes.size = 3 ∧ p.memoPoints.length = 1 ∧ p.slots.length = 0 ∧
      p.vars.length = 1) = true := by
    decide +kernel
  obtain ⟨c, p, -, hc, hp, hsizes⟩ := Catalog.exists_stock hsome
  exact ⟨c, p, hc, hp, of_decide_eq_true hsizes⟩

end Program

namespace Backend

variable {e : Engine σ} {strategy : Strategy} {b : Backend σ}

/-- No memo point gives what it held before the frame.  Compiled code knows the frame by a word, and
a memo point that was never filled has the stamp of one frame, which is the first that this does not
hold of.  It keeps ids in words too, and the limits on the size of the program are those of the
words. -/
theorem memo_reads_recent {c : Catalog} {d : Document} (hc : c.Stocked)
    (h : Program.analyse c d = .ok p) (hfit : strategy = .compiled → p.Addressable)
    {w : Backend (σ × Chronicle)} (hw : Chronicled strategy p e b w) :
    ∃ l, w = b.beside l ∧ l.frames = b.frames ∧
      ((strategy = .compiled → b.frames < 4294967295) → l.Recent p) := by
  have hp := Program.wellFormed_of_analyse hc h
  have howns := Program.owns_of_analyse hc h
  obtain ⟨l, rfl, htold, -⟩ := told_of_chronicled hp hfit howns (Program.shares_of_analyse hc h) hw
  exact ⟨l, rfl, htold.frames, fun hlt => (htold.lawful hlt).recent hp⟩

/-- A number that is shared by two statements, over two frames. -/
theorem memo_reads_recent_sharing : ∃ c p, c.Stocked ∧ Program.analyse c Program.sharing = .ok p ∧
    p.memoPoints.length = 1 ∧
    ∀ strategy, ∃ (b : Backend Headless) (w : Backend (Headless × Chronicle)),
      Chronicled strategy p Headless.engine b w ∧
        ∃ l : Chronicle, w = b.beside l ∧ l.frames = 2 ∧ l.Recent p := by
  obtain ⟨c, p, hc, hp, hnodes, hpoints, hslots, hvars⟩ := Program.exists_analyse_sharing
  refine ⟨c, p, hc, hp, hpoints, fun strategy => ?_⟩
  have hfit : p.Addressable := ⟨by omega, by omega, by omega⟩
  obtain ⟨b, w, hchronicled, hframes⟩ := exists_chronicled (Program.wellFormed_of_analyse hc hp)
    strategy Headless.engine (Headless.ofSeed 0) 2
  obtain ⟨l, hl, hcount, hrecent⟩ := memo_reads_recent hc hp (fun _ => hfit) hchronicled
  exact ⟨_, _, hchronicled, l, hl, hcount.trans hframes, hrecent fun _ => by omega⟩

/-- A memo point that was never filled gives what it held at the start, in the frame whose number is
its stamp. -/
theorem unfilled_memo_read : ∃ c b w l, c.Stocked ∧
    Program.analyse c Dormant.document = .ok Dormant.program ∧ Dormant.program.Addressable ∧
    Chronicled .compiled Dormant.program Dormant.engine b w ∧ w = b.beside l ∧
    ¬l.Recent Dormant.program := by
  obtain ⟨c, hc, hp⟩ := Dormant.exists_analyse
  obtain ⟨b, l, l', rest, hw, heq⟩ := Dormant.exists_stale_read hc hp
  refine ⟨c, b, _, l', hc, hp, Dormant.addressable, hw, rfl, fun hrecent => ?_⟩
  obtain ⟨-, hmem⟩ := hrecent _ 3 0 _ rest _ Dormant.pointerWire 0 heq rfl rfl rfl
  rw [Chronicle.current_append_frame (by decide)] at hmem
  simp only [List.mem_cons, List.not_mem_nil, reduceCtorEq, or_self] at hmem

end Backend
end SignalGraph
