import SignalGraph.Proofs.Instrumentation.Chronicle.Basic

/-!
# Histories

What the calls of a session tell: frames, each of which runs the entry points, and late tasks, each
of which runs the body of a late update.
-/

namespace SignalGraph

variable {p : Program}

def Deed.flat : Deed → Bool
  | registered .. => true
  | d => d.quiet

theorem Deed.flat_of_quiet {d : Deed} (h : d.quiet = true) : d.flat = true := by
  cases d <;> first | rfl | cases h

theorem Node.flat_of_registration {n : Node} {count : Option VariableRef} {picture : ObjectId}
    {d : Deed} (h : d ∈ n.registration count picture) : d.flat = true := by
  unfold Node.registration at h
  split at h
  · exact List.mem_singleton.mp h ▸ rfl
  · exact absurd h List.not_mem_nil

theorem Special.flat {id : NodeId} {n : Node} {h h' : Holdings} {es : Chronicle}
    (hs : Special id n h es h') : ∀ d ∈ es, d.flat = true := by
  intro d hd
  cases hs with
  | late | again => exact absurd hd List.not_mem_nil
  | first _ _ _ hes =>
    exact (List.mem_append.mp hd).elim
      (fun hd => Deed.flat_of_quiet (hes d hd)) Node.flat_of_registration
  | named _ _ hes | pointed _ _ hes | missing _ _ hes => exact Deed.flat_of_quiet (hes d hd)

namespace Chronicle

variable {es : Chronicle} (hes : ∀ d ∈ es, d.flat = true)
include hes

theorem executed_of_flat : es.executed = [] := by
  refine List.filterMap_eq_nil_iff.mpr fun d hd => ?_
  have hflat := hes d hd
  cases d <;> first | rfl | cases hflat

theorem frames_of_flat : es.frames = 0 := by
  refine List.countP_eq_zero.mpr fun d hd => ?_
  have hflat := hes d hd
  cases d <;> first | exact Bool.false_ne_true | cases hflat

/-- A special statement is the only one that begins before it ends. -/
theorem split_special {id id' : NodeId} {before after : Chronicle}
    (heq : .entered id :: es ++ [.left id] = before ++ .entered id' :: after) :
    before = [] ∧ id' = id ∧ after = es ++ [.left id] := by
  cases before with
  | nil =>
    obtain ⟨hentered, hafter⟩ := List.cons.inj heq
    cases hentered
    exact ⟨rfl, rfl, hafter.symm⟩
  | cons d before =>
    have htail : es ++ [.left id] = before ++ .entered id' :: after := (List.cons.inj heq).2
    have hmem : .entered id' ∈ es ++ [.left id] :=
      htail ▸ List.mem_append_right _ List.mem_cons_self
    rcases List.mem_append.mp hmem with hmem | hmem
    · exact absurd (hes _ hmem) Bool.false_ne_true
    · cases List.mem_singleton.mp hmem

theorem executed_special (id : NodeId) : executed (.entered id :: es ++ [.left id]) = [id] := by
  have hentered : executed [.entered id] = [id] := rfl
  have hleft : executed [.left id] = [] := rfl
  rw [← List.singleton_append, executed_append, executed_append, executed_of_flat hes,
    hentered, hleft]
  rfl

end Chronicle

namespace Chronicle

/-- How a frame begins.  The engine is asked to move on, except before the first one. -/
def opening (frames : Nat) : Chronicle := .frame :: if frames = 0 then [] else [.asked]

theorem mem_opening {frames : Nat} {d : Deed} (h : d ∈ opening frames) :
    d = .frame ∨ d = .asked := by
  unfold opening at h
  split at h
  · exact .inl (List.mem_singleton.mp h)
  · rcases List.mem_cons.mp h with rfl | h
    · exact .inl rfl
    · exact .inr (List.mem_singleton.mp h)

theorem frames_opening (frames : Nat) : (opening frames).frames = 1 := by
  unfold opening
  split <;> rfl

end Chronicle

namespace Program

variable (p)

/-- A frame: it begins, and the entry points run with an empty queue. -/
def FrameRun : Tale := fun h es h' =>
  ∃ frames ran, es = Chronicle.opening frames ++ ran ∧ Ran p p.entryPoints h.clearQueue ran h'

def LateBody (task : NodeId) : Tale := fun h es h' =>
  ∃ n ids, p.nodes[task]? = some n ∧ n.kind = .statement .lateUpdate ∧ n.branch 0 = .ok ids ∧
    Ran p ids h es h'

/-- A late task, and then its body. -/
def TaskRun (task : NodeId) : Tale :=
  fun h es h' => ∃ ran, es = .task task :: ran ∧ p.LateBody task h ran h'

inductive Bodies : List NodeId → Tale
  | nil {h : Holdings} : Bodies [] h [] h
  | cons {task : NodeId} {tasks : List NodeId} {h h₁ h₂ : Holdings} {es rest : Chronicle} :
    p.TaskRun task h es h₁ → Bodies tasks h₁ rest h₂ → Bodies (task :: tasks) h (es ++ rest) h₂

/-- Late tasks in order up to one that is none, which ends the call. -/
inductive Broken : List NodeId → Tale
  | here {task : NodeId} {tasks : List NodeId} {h : Holdings} :
    ¬p.IsLate task → Broken (task :: tasks) h [.task task] h
  | cons {task : NodeId} {tasks : List NodeId} {h h₁ h₂ : Holdings} {es rest : Chronicle} :
    p.TaskRun task h es h₁ → Broken tasks h₁ rest h₂ → Broken (task :: tasks) h (es ++ rest) h₂

def LateRun (tasks : List NodeId) : Except Fault Unit → Tale
  | .ok () => p.Bodies tasks
  | .error _ => p.Broken tasks

/-- What any calls since the start have told, and what is held after them.  Between calls the
variables may be restored. -/
inductive History : Chronicle → Holdings → Prop
  | start : History [] (World.start p ())
  | frame {l es : Chronicle} {h h' : Holdings} : History l h → p.FrameRun h es h' →
      History (l ++ es) h'
  | late {l es : Chronicle} {h h' : Holdings} {tasks : List NodeId} {r : Except Fault Unit} :
    History l h → p.LateRun tasks r h es h' → History (l ++ es) h'
  | restore {l : Chronicle} {h : Holdings} (vars : VariableStore) : History l h →
    History l { h with vars }

variable {p} {h h' : Holdings} {es : Chronicle}

variable {Q : Tale}

theorem FrameRun.carries (hQ : Carries p Q)
    (hopening : ∀ frames h, Q h (Chronicle.opening frames) h.clearQueue)
    (hrun : p.FrameRun h es h') :
    Q h es h' := by
  obtain ⟨frames, ran, rfl, hran⟩ := hrun
  exact hQ.append (hopening frames h) (hQ.ran hran)

theorem TaskRun.carries (hQ : Carries p Q) (htask : ∀ task h, Q h [.task task] h) {task : NodeId}
    (hrun : p.TaskRun task h es h') : Q h es h' := by
  obtain ⟨ran, rfl, _, _, _, _, _, hran⟩ := hrun
  exact hQ.append (htask task h) (hQ.ran hran)

theorem Bodies.carries (hQ : Carries p Q) (htask : ∀ task h, Q h [.task task] h)
    {tasks : List NodeId}
    (hrun : p.Bodies tasks h es h') : Q h es h' := by
  induction hrun with
  | nil => exact hQ.quiet _ _ Chronicle.quiet_nil
  | cons hfirst _ ih => exact hQ.append (hfirst.carries hQ htask) ih

theorem LateRun.carries (hQ : Carries p Q) (htask : ∀ task h, Q h [.task task] h)
    {tasks : List NodeId}
    {r : Except Fault Unit} (hrun : p.LateRun tasks r h es h') : Q h es h' := by
  cases r with
  | ok => exact Bodies.carries hQ htask hrun
  | error fault =>
    induction (show p.Broken tasks h es h' from hrun) with
    | here => exact htask _ _
    | cons hfirst hrest ih => exact hQ.append (hfirst.carries hQ htask) (ih hrest)

/-- A statement begins no frame. -/
theorem carries_frames : Carries p fun _ es _ => es.frames = 0 where
  quiet _ _ hes := hes.frames
  append ha hb := by rw [Chronicle.frames_append, ha, hb]
  entered _ _ _ _ _ := rfl
  branched _ _ _ _ _ := rfl
  left _ _ _ _ _ := rfl
  store _ _ _ _ _ _ _ _ := rfl
  special id _ _ _ es _ hspecial := by
    have hes := Chronicle.frames_of_flat hspecial.flat
    have hentered : Chronicle.frames [.entered id] = 0 := rfl
    have hleft : Chronicle.frames [.left id] = 0 := rfl
    rw [← List.singleton_append, Chronicle.frames_append, Chronicle.frames_append, hes,
      hentered, hleft]

theorem frames_of_frameRun (hrun : p.FrameRun h es h') : es.frames = 1 := by
  obtain ⟨frames, ran, rfl, hran⟩ := hrun
  have hran : ran.frames = 0 := carries_frames.ran hran
  rw [Chronicle.frames_append, Chronicle.frames_opening, hran]

theorem frames_of_lateRun {tasks : List NodeId} {r : Except Fault Unit}
    (hrun : p.LateRun tasks r h es h') : es.frames = 0 :=
  hrun.carries carries_frames fun _ _ => rfl

/-- What every stretch of a run maintains of all that was told before and of what is held. -/
def maintaining (I : Chronicle → Holdings → Prop) : Tale :=
  fun h es h' => ∀ l, I l h → I (l ++ es) h'

variable {I : Chronicle → Holdings → Prop}

theorem maintaining_append {h'' : Holdings} {es' : Chronicle} (ha : maintaining I h es h')
    (hb : maintaining I h' es' h'') : maintaining I h (es ++ es') h'' := fun l hl =>
  List.append_assoc l es es' ▸ hb _ (ha l hl)

/-- By induction on the calls. -/
theorem History.maintains (hI : Carries p (maintaining I)) (hstart : I [] (World.start p ()))
    (hopening : ∀ frames h, maintaining I h (Chronicle.opening frames) h.clearQueue)
    (htask : ∀ task h, maintaining I h [.task task] h)
    (hrestore : ∀ l h vars, I l h → I l { h with vars }) {l : Chronicle} (hl : p.History l h) :
    I l h := by
  induction hl with
  | start => exact hstart
  | frame _ hrun ih => exact hrun.carries hI hopening _ ih
  | late _ hrun ih => exact hrun.carries hI htask _ ih
  | restore vars _ ih => exact hrestore _ _ vars ih

end Program
end SignalGraph
