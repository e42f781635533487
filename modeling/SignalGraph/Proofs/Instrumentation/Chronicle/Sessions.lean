import SignalGraph.Proofs.Instrumentation.Chronicle.Calls
import SignalGraph.Proofs.Instrumentation.Chronicle.Chains
import SignalGraph.Proofs.Instrumentation.Sessions

/-!
# Chronicled sessions

Frames and late tasks of sessions of either kind with a chronicle.  They do the same as without one,
and the chronicle tells what they did.
-/

namespace SignalGraph

open Chronicle

variable {σ ε S S' α : Type} {p : Program}

section

variable {join : S → Chronicle → S'} {hold : S → Holdings} {B : S → Chronicle → Prop}

theorem since_next {T U : Tale} {h₀ h₁ : Holdings} {l₀ es m : Chronicle} {s : S} (hT : T h₀ es h₁)
    (hs : Since hold B h₁ (l₀ ++ es) U s m) : Since hold B h₀ l₀ (T.next U) s m := by
  obtain ⟨⟨es', rfl, hU⟩, hB⟩ := hs
  exact ⟨⟨es ++ es', List.append_assoc _ _ _, Tale.next_intro hT hU⟩, hB⟩

theorem since_and {A : S → Prop} {T : Tale} {h : Holdings} {l m : Chronicle} {s : S} :
    Since hold (fun s m => A s ∧ B s m) h l T s m ↔ A s ∧ Since hold B h l T s m :=
  ⟨fun ⟨htale, hA, hB⟩ => ⟨hA, htale, hB⟩, fun ⟨hA, htale, hB⟩ => ⟨htale, hA, hB⟩⟩

/-- By induction on the tasks. -/
theorem mirrors_tasks {task' : NodeId → EStateM ε S' Unit} {task : NodeId → EStateM ε S Unit}
    (h : ∀ id h₀ l₀,
      Mirrors join (Since hold B h₀ l₀ .stay) (fun _ => Since hold B h₀ l₀ (p.TaskRun id))
      (Since hold B h₀ l₀ fun h es h' => ¬p.IsLate id ∧ es = [.task id] ∧ h' = h) (task' id)
        (task id)) :
    ∀ (ids : List NodeId) (h₀ : Holdings) (l₀ : Chronicle),
      Mirrors join (Since hold B h₀ l₀ .stay) (fun _ => Since hold B h₀ l₀ (p.Bodies ids))
        (Since hold B h₀ l₀ (p.Broken ids)) (ids.forM task') (ids.forM task)
  | [], h₀, l₀ => by
    refine mirrors_pure fun s l => since_mono ?_
    rintro held _ _ ⟨rfl, rfl⟩
    exact .nil
  | id :: ids, h₀, l₀ => by
    rw [List.forM_eq_forM, List.forM_cons, List.forM_eq_forM, List.forM_cons]
    have hnone : ∀ s l,
      Since hold B h₀ l₀ (fun h es h' => ¬p.IsLate id ∧ es = [.task id] ∧ h' = h) s l →
        Since hold B h₀ l₀ (p.Broken (id :: ids)) s l :=
      fun s l => since_mono fun _ _ _ ⟨hnot, hes, hheld⟩ => hes ▸ hheld ▸ .here hnot
    refine mirrors_bind (mirrors_fail (h id h₀ l₀) hnone) fun _ s l hs => ?_
    obtain ⟨⟨es, rfl, hT⟩, hB⟩ := hs
    have hbroken : ∀ s' m, Since hold B (hold s) (l₀ ++ es) (p.Broken ids) s' m →
        Since hold B h₀ l₀ (p.Broken (id :: ids)) s' m := fun s' m hrest =>
      since_mono (fun _ _ _ ⟨_, _, _, heq, ha, hb⟩ => heq ▸ .cons ha hb) (since_next hT hrest)
    have hbodies : ∀ s' m, Since hold B (hold s) (l₀ ++ es) (p.Bodies ids) s' m →
        Since hold B h₀ l₀ (p.Bodies (id :: ids)) s' m := fun s' m hrest =>
      since_mono (fun _ _ _ ⟨_, _, _, heq, ha, hb⟩ => heq ▸ .cons ha hb) (since_next hT hrest)
    have hrest := mirrors_mono (mirrors_fail (mirrors_tasks h ids (hold s) (l₀ ++ es)) hbroken)
      fun _ => hbodies
    exact hrest s _ (since_stay.mpr ⟨⟨rfl, rfl⟩, hB⟩)

end

namespace Interpreter

variable {e : Engine σ} {h₀ : Holdings} {l₀ : Chronicle}

def toldOpening (e : Engine σ) (frames : Nat) : Run (σ × Chronicle) Unit := do
  tell .frame
  Session.advance (e.recording Deed.ofRequest) frames

def toldTask (e : Engine σ) (p : Program) (task : NodeId) : Run (σ × Chronicle) Unit := do
  tell (.task task)
  lateTaskWith ((telling e).run p) p task

theorem cells_replicate (count : Nat) : cells (Array.replicate count none) = fun _ => none := by
  funext k
  unfold cells
  rw [Array.getElem?_replicate]
  split <;> rfl

theorem mirrors_toldOpening (frames : Nat) :
    Mirrors State.beside (Since p h₀ l₀ .stay)
      (fun _ s l => (l = l₀ ++ opening frames ∧ s.world.holdings = h₀) ∧ l.Fresh p fun _ => none)
      (fun _ _ => True) (toldOpening e frames) (Session.advance e frames) := by
  intro s l hs
  obtain ⟨⟨rfl, rfl⟩, hB⟩ := since_stay.mp hs
  have hfresh := hB.fresh.lawful.frame
  cases frames with
  | zero => exact ⟨l ++ [.frame], rfl, ⟨rfl, rfl⟩, hfresh⟩
  | succ frames =>
    have hasked : l ++ [.frame] ++ [.asked] = l ++ opening (frames + 1) := List.append_assoc _ _ _
    refine ⟨l ++ [.frame] ++ [.asked], rfl, ⟨hasked, rfl⟩, ?_⟩
    exact hfresh.concat rfl

theorem mirrors_toldFrame (hp : p.WellFormed) (frames : Nat) {E : State σ → Chronicle → Prop} :
    Mirrors State.beside (fun s l => s.Typed p ∧ Since p h₀ l₀ .stay s l)
      (fun tasks s l => tasks = s.world.late.toList ∧ s.Typed p ∧ Since p h₀ l₀ p.FrameRun s l) E
      (do toldOpening e frames; frameWith ((telling e).run p) p)
        (do Session.advance e frames; frame e p) := by
  refine mirrors_mono (mirrors_frameWith e hp (mirrors_toldOpening frames) ?_
    ((carries_telling e hp).chain h₀.clearQueue (l₀ ++ opening frames))) ?_
  · rintro s l ⟨⟨rfl, rfl⟩, hfresh⟩
    refine since_stay.mpr ⟨⟨rfl, rfl⟩, Array.size_replicate, ?_⟩
    rw [cells_replicate]
    exact hfresh
  · rintro tasks s l ⟨htasks, hs, ⟨ran, rfl, hran⟩, hB⟩
    exact ⟨htasks, hs, ⟨_, List.append_assoc _ _ _, frames, ran, rfl, hran⟩, hB⟩

theorem mirrors_toldTask (hp : p.WellFormed) (task : NodeId) :
    Mirrors State.beside (fun s l => s.Typed p ∧ Since p h₀ l₀ .stay s l)
      (fun _ s l => s.Typed p ∧ Since p h₀ l₀ (p.TaskRun task) s l)
      (fun s l => s.Typed p ∧
        Since p h₀ l₀ (fun h es h' => ¬p.IsLate task ∧ es = [.task task] ∧ h' = h) s l)
      (toldTask e p task) (lateTask e p task) := by
  have hnoted : ∀ (s : State σ) l, s.Typed p ∧ Since p h₀ l₀ .stay s l →
      s.Typed p ∧ Since p h₀ l₀ (fun h es h' => es = [.task task] ∧
        h' = h) s (l ++ [.task task]) := by
    intro s l ⟨hs, hstay⟩
    obtain ⟨⟨rfl, rfl⟩, hB⟩ := since_stay.mp hstay
    exact ⟨hs, ⟨[.task task], rfl, rfl, rfl⟩, hB.tell rfl⟩
  refine mirrors_note (tell_beside _) hnoted
    (mirrors_lateTaskWith e hp (fun n ids hget hkind hids => ?_)
    fun hnot s l => since_mono fun _ _ _ hT => ⟨hnot, hT⟩)
  refine mirrors_mono ((carries_telling e hp).chain.after _ h₀ l₀) fun _ s l => since_mono ?_
  rintro held _ held' ⟨_, _, ran, rfl, ⟨rfl, rfl⟩, hran⟩
  exact ⟨ran, rfl, n, ids, hget, hkind, hids, hran⟩

theorem mirrors_toldLate (hp : p.WellFormed) (tasks : List NodeId) :
    Mirrors State.beside (fun s l => s.Typed p ∧ Since p h₀ l₀ .stay s l)
      (fun _ s l => s.Typed p ∧ Since p h₀ l₀ (p.Bodies tasks) s l)
      (fun s l => s.Typed p ∧ Since p h₀ l₀ (p.Broken tasks) s l)
      (tasks.forM (toldTask e p)) (late e p tasks) := by
  have htask : ∀ id h₀ l₀, Mirrors State.beside _ _ _ (toldTask e p id) (lateTask e p id) :=
    fun id h₀ l₀ => @mirrors_toldTask σ p e h₀ l₀ hp id
  simp only [← since_and] at htask ⊢
  exact mirrors_tasks htask tasks h₀ l₀

namespace Session

def tellFrame (e : Engine σ) (s : Session (σ × Chronicle)) :
    Except Fault (List NodeId) × Session (σ × Chronicle) :=
  let frames := s.frames
  { s with frames := frames + 1 }.perform do
    toldOpening e frames
    frameWith ((telling e).run s.program) s.program

def tellLate (e : Engine σ) (s : Session (σ × Chronicle)) (tasks : List NodeId) :
    Except Fault Unit × Session (σ × Chronicle) :=
  s.perform (tasks.forM (toldTask e s.program))

end Session
end Interpreter

namespace Compiler

open Wasm Machine

variable {e : Engine σ} {c : Wasm.Module} {frames : Nat} {h₀ : Holdings} {l₀ : Chronicle}

def toldOpening (e : Engine σ) (frames : Nat) : EStateM Fault (State (σ × Chronicle)) Unit := do
  tell .frame
  Session.advance (e.recording Deed.ofRequest) frames

def toldTask (e : Engine σ) (p : Program) (m : Wasm.Module) (task : NodeId) :
    EStateM Fault (State (σ × Chronicle)) Unit := do
  tell (.task task)
  lateTaskWith (toldInvoke e p m (m.functions.size + 2)) p m task

theorem mirrors_toldOpening {E : State σ → Chronicle → Prop} :
    Mirrors Machine.beside (fun t l => Settled c t ∧ Since p frames h₀ l₀ .stay t l)
      (fun _ t l => Settled c t ∧ Begun p frames h₀ (l₀ ++ opening frames) t l) E
      (toldOpening e frames) (Session.advance e frames) := by
  rintro t l ⟨ht, hs⟩
  obtain ⟨⟨rfl, rfl⟩, hB⟩ := since_stay.mp hs
  have hfresh : frames + 1 < 4294967295 → Fresh p (fun _ => none) (l ++ [.frame]) := fun hlt =>
    (hB.fresh (Nat.lt_of_succ_lt hlt)).lawful.frame
  cases frames with
  | zero => exact ⟨l ++ [.frame], rfl, ht, ⟨rfl, rfl⟩, hB.timely, hfresh⟩
  | succ frames =>
    have hasked : l ++ [.frame] ++ [.asked] = l ++ opening (frames + 1) := List.append_assoc _ _ _
    exact ⟨l ++ [.frame] ++ [.asked], rfl, ⟨ht.globals, ht.locals⟩, ⟨hasked, rfl⟩, hB.timely,
      fun hlt => (hfresh hlt).concat rfl⟩

variable (hp : p.WellFormed) (hfit : p.Addressable) (hc : Compiled p c)
  (howns : ∀ id n, p.nodes[id]? = some n → p.Owns id n)
include hp hfit hc howns

theorem mirrors_toldFrame {E : State σ → Chronicle → Prop} :
    Mirrors Machine.beside (fun t l => Settled c t ∧ Since p frames h₀ l₀ .stay t l)
      (fun tasks t l => tasks = t.host.late.toList ∧ Settled c t ∧
        Since p (frames + 1) h₀ l₀ p.FrameRun t l)
      E (do toldOpening e frames; frameWith (toldInvoke e p c (c.functions.size + 2)) c)
      (do Session.advance e frames; frame e p c) := by
  refine mirrors_bind mirrors_toldOpening fun _ => ?_
  refine mirrors_mono
    (mirrors_frameWith hp hc (I := Begun p frames h₀.clearQueue (l₀ ++ opening frames))
    ?_ (escorts_toldFrame hp hfit hc howns _ _ _)) ?_
  · rintro t l - ⟨⟨rfl, rfl⟩, htimely, hfresh⟩
    exact ⟨⟨rfl, rfl⟩, htimely, hfresh⟩
  · rintro tasks t l ⟨htasks, ht, ⟨ran, rfl, hran⟩, hB⟩
    exact ⟨htasks, ht, ⟨_, List.append_assoc _ _ _, frames, ran, rfl, hran⟩, hB⟩

theorem mirrors_toldTask (task : NodeId) :
    Mirrors Machine.beside (fun t l => Settled c t ∧ Since p frames h₀ l₀ .stay t l)
      (fun _ t l => Settled c t ∧ Since p frames h₀ l₀ (p.TaskRun task) t l)
      (fun t l => Settled c t ∧
        Since p frames h₀ l₀ (fun h es h' => ¬p.IsLate task ∧ es = [.task task] ∧ h' = h) t l)
      (toldTask e p c task) (lateTask e p c task) := by
  have hnoted : ∀ (t : State σ) l, Settled c t ∧ Since p frames h₀ l₀ .stay t l →
      Settled c t ∧ Since p frames h₀ l₀ (fun h es h' => es = [.task task] ∧
        h' = h) t (l ++ [.task task]) := by
    intro t l ⟨ht, hstay⟩
    obtain ⟨⟨rfl, rfl⟩, hB⟩ := since_stay.mp hstay
    exact ⟨ht, ⟨[.task task], rfl, rfl, rfl⟩, hB.tell rfl⟩
  refine mirrors_note (tell_beside _) hnoted (mirrors_lateTaskWith hp hc (fun hlate => ?_)
    fun hnot t l => since_mono fun _ _ _ hT => ⟨hnot, hT⟩)
  have hbody : Tells p frames (fun _ => p.LateBody task)
      (toldInvoke e p c (c.functions.size + 2) Target.lateFunction [.i32 (Int32.ofNat task)])
      (outermost e p c Target.lateFunction [.i32 (Int32.ofNat task)]) :=
    escorts_toldLate hp hfit hc howns _ (Program.mem_lateNodes.mpr hlate)
  refine mirrors_mono (hbody.after _ h₀ l₀) fun _ t l => since_mono ?_
  rintro held _ held' ⟨_, _, ran, rfl, ⟨rfl, rfl⟩, hran⟩
  exact ⟨ran, rfl, hran⟩

theorem mirrors_toldLate (tasks : List NodeId) :
    Mirrors Machine.beside (fun t l => Settled c t ∧ Since p frames h₀ l₀ .stay t l)
      (fun _ t l => Settled c t ∧ Since p frames h₀ l₀ (p.Bodies tasks) t l)
      (fun t l => Settled c t ∧ Since p frames h₀ l₀ (p.Broken tasks) t l)
      (tasks.forM (toldTask e p c)) (late e p c tasks) := by
  have htask : ∀ id h₀ l₀, Mirrors Machine.beside _ _ _ (toldTask e p c id) (lateTask e p c id) :=
    fun id h₀ l₀ => @mirrors_toldTask σ p e c frames h₀ l₀ hp hfit hc howns id
  simp only [← since_and] at htask ⊢
  exact mirrors_tasks htask tasks h₀ l₀

omit hp hfit hc howns

namespace Session

def tellFrame (e : Engine σ) (s : Session (σ × Chronicle)) :
    Except Fault (List NodeId) × Session (σ × Chronicle) :=
  let frames := s.frames
  { s with frames := frames + 1 }.perform do
    toldOpening e frames
    frameWith (toldInvoke e s.program s.code (s.code.functions.size + 2)) s.code

def tellLate (e : Engine σ) (s : Session (σ × Chronicle)) (tasks : List NodeId) :
    Except Fault Unit × Session (σ × Chronicle) :=
  s.perform (tasks.forM (toldTask e s.program s.code))

end Session
end Compiler
end SignalGraph
