import SignalGraph.Compiler.Session
import SignalGraph.Proofs.Emulation.Calls

/-!
# Emulated frames

A call of the frame function does what an interpreted frame does, and a call of the late function
does what an interpreted late task does.  What is no late task fails in the same way on both sides.
-/

namespace SignalGraph
namespace Compiler

open Wasm Machine Interpreter

variable {σ α β : Type} {p : Program} {frames : Nat} {s s' : Interpreter.State σ}
  {t t' : Machine (World σ)}

inductive Alike (p : Program) (frames : Nat) :
    EStateM.Result Fault (Interpreter.State σ) α → EStateM.Result Fault (Machine (World σ)) α → Prop
  | ok (a : α) {s : Interpreter.State σ} {t : Machine (World σ)} :
    Agrees p frames s t → Alike p frames (.ok a s) (.ok a t)
  | error (fault : Fault) {s : Interpreter.State σ} {t : Machine (World σ)} :
    Agrees p frames s t → Alike p frames (.error fault s) (.error fault t)

/-- What is alike step by step is alike as a whole. -/
theorem alike_bind {x : Run σ α} {f : α → Run σ β} {x' : EStateM Fault (Machine (World σ)) α}
    {f' : α → EStateM Fault (Machine (World σ)) β} (hx : Alike p frames (x s) (x' t))
    (hf : ∀ a s t, Agrees p frames s t → Alike p frames (f a s) (f' a t)) :
    Alike p frames ((x >>= f) s) ((x' >>= f') t) := by
  show Alike p frames (EStateM.bind x f s) (EStateM.bind x' f' t)
  unfold EStateM.bind
  revert hx
  generalize x s = r, x' t = r'
  intro hx
  cases hx with
  | ok a hst => exact hf a _ _ hst
  | error fault hst => exact .error fault hst

theorem alike_forM {f : NodeId → Run σ Unit} {f' : NodeId → EStateM Fault (Machine (World σ)) Unit}
    (h : ∀ task s t, Agrees p frames s t → Alike p frames (f task s) (f' task t)) :
    ∀ (tasks : List NodeId) {s : Interpreter.State σ} {t : Machine (World σ)}, Agrees p frames s t →
      Alike p frames (tasks.forM f s) (tasks.forM f' t)
  | [], _, _, hst => .ok () hst
  | task :: rest, s, t, hst => by
    rw [List.forM_eq_forM, List.forM_cons, List.forM_eq_forM, List.forM_cons]
    exact alike_bind (h task s t hst) fun _ _ _ hst' => alike_forM h rest hst'

variable {z : Running σ}

/-- A call of an exported function runs its body on locals of its own. -/
theorem call_of_runs {name : String} {i : Nat} {f : Function} {lanes : List Lane}
    (hexport : z.code.export? name = some (Target.imports + i))
    (hf : z.code.functions.toList[i]? = some f) (hlen : lanes.length = f.type.params.length)
    (hruns : Runs (z.setting z.code.functions.size).call f.body []
      { t with locals := startLocals f lanes } [] t') :
    call z.engine z.program z.code name lanes t = .ok () { t' with locals := t.locals } := by
  have hget : z.code.functions[Target.imports + i - z.code.imports.size]? = some f := by
    rw [z.compiled.imports_size, Nat.add_sub_cancel_left, ← Array.getElem?_toList]
    exact hf
  have hcall := invoke_function (z.compiled.getElem?_imports_add i) hget hlen hruns []
  rw [List.append_nil] at hcall
  have hrun : Machine.run z.code (Host.functions z.engine z.program) name lanes t =
      .ok ([] ++ []) { t' with locals := t.locals } := by
    rw [← hcall, Machine.run, hexport]
    rfl
  rw [call, hrun]

/-- In the next frame, what a memo point holds is of an earlier one. -/
theorem Cached.next {k : MemoId} {point : MemoPoint} {globals : Array Lane} {o : Option Value}
    (h : Cached p frames k point globals o) : Cached p (frames + 1) k point globals none := by
  cases h with
  | empty hg hold =>
    refine .empty hg (hold.imp_right fun ⟨i, hi, heq⟩ => ⟨i, ?_, heq⟩)
    omega
  | filled hg _ _ => exact .empty hg (.inr ⟨frames, Nat.lt_succ_self frames, rfl⟩)

/-- Counting a frame empties the memo points. -/
theorem Agrees.next (h : Agrees p frames s t) :
    Agrees p (frames + 1)
      { world := s.world.clearQueue, memo := Array.replicate p.memoPoints.length none }
      { t with
        host := t.host.clearQueue,
        globals := t.globals.setIfInBounds Target.frameGlobal
          (.i32 (Int32.ofNat (frames + 1))) } := by
  have hpos : Target.frameGlobal < t.globals.size := by
    rw [h.size]
    exact Nat.succ_pos _
  refine ⟨typed_clear h.typed, congrArg World.clearQueue h.host, ?_, ?_, fun k point hk => ?_⟩
  · rw [Array.size_setIfInBounds]
    exact h.size
  · exact Array.getElem?_setIfInBounds_self_of_lt hpos
  · have hnone : ((Array.replicate p.memoPoints.length (none : Option Value))[k]?).join = none := by
      rw [Array.getElem?_replicate]
      split <;> rfl
    rw [hnone]
    refine (h.memo k point hk).next.congr fun i hi _ => ?_
    have hstamp : Target.frameGlobal < (target p).stampGlobal k := stampGlobal_pos k
    exact Array.getElem?_setIfInBounds_ne (Nat.ne_of_lt (Nat.lt_of_lt_of_le hstamp hi))

def frameCount : Code :=
  [.globalGet Target.frameGlobal, int 1, .numeric .i32Add, .globalSet Target.frameGlobal]

theorem runs_frameCount {call : Nat → List Lane → Exec (World σ) (List Lane)} {below : List Lane}
    (h : t.globals[Target.frameGlobal]? = some (.i32 (Int32.ofNat frames))) :
    Runs call frameCount below t below
      { t with
        globals := t.globals.setIfInBounds Target.frameGlobal
          (.i32 (Int32.ofNat (frames + 1))) } := by
  refine runs_cons (runs_globalGet h) (runs_cons (runs_const (.i32 1)) ?_)
  refine runs_cons (runs_numeric rfl) ?_
  rw [Int32.ofNat_add]
  exact runs_globalSet _ _

theorem run_eq_forM {e : Engine σ} (hp : p.WellFormed) {ids : List NodeId}
    (hids : ∀ id ∈ ids, p.IsStatement id) :
    Interpreter.run e p ids = ids.forM fun id => Interpreter.run e p [id] := by
  rw [run_eq hp hids]
  refine forM_congr fun id hid => ?_
  have hsingle : ∀ i ∈ [id], p.IsStatement i := by
    intro i hi
    rw [List.mem_singleton.mp hi]
    exact hids id hid
  rw [run_eq hp hsingle, List.forM_eq_forM, List.forM_cons, List.forM_nil, bind_pure_unit]

/-- The frame function counts the frame, and then does what the entry points do. -/
theorem gives_frameCode : Gives (frameCode (target z.program)) fun l l' code =>
    ∃ chains, code = frameCount ++ chains ∧
      (z.setting z.code.functions.size).Emulates l.count l'.count chains []
        (Interpreter.run z.engine z.program z.program.entryPoints) Quiet := by
  have hentries := z.wellFormed.entryPoints
  rw [run_eq_forM z.wellFormed hentries]
  refine gives_bind (gives_forM fun entry hentry => imitates_chains fun id hid => ?_)
    fun codes => ?_
  · rw [List.mem_singleton.mp hid]
    exact hentries entry hentry
  · exact gives_pure fun _ _ _ _ hcodes => ⟨_, rfl, hcodes⟩

theorem frame_alike (hframes : z.frames = frames + 1) (hst : Agrees z.program frames s t) :
    Alike z.program z.frames (Interpreter.frame z.engine z.program s)
      (frame z.engine z.program z.code t) := by
  obtain ⟨f, hf, hcode⟩ := z.compiled.functions.frame
  obtain ⟨l, ⟨chains, hbody, hemulates⟩, htype, hsize⟩ := body_of_gives hcode gives_frameCode
  have hnext := hst.next
  rw [← hframes] at hnext
  obtain ⟨_, s₁, hrun, -, -⟩ :=
    ok_of_meets (meets_run z.engine z.wellFormed z.wellFormed.entryPoints) hnext.typed
  have hstart : Agrees z.program z.frames _ { t with
      host := t.host.clearQueue,
      globals := t.globals.setIfInBounds Target.frameGlobal (.i32 (Int32.ofNat (frames + 1))),
      locals := startLocals f [] } := hnext.of_locals rfl (by rw [hframes])
  obtain ⟨t₁, outs, hruns, rfl, hst₁, -⟩ := hemulates _ _ [] () s₁ hstart (hsize [] rfl) hrun
  have hcount : Runs (z.setting z.code.functions.size).call frameCount []
      { t with host := t.host.clearQueue, locals := startLocals f [] } [] _ :=
    runs_frameCount hst.frame
  have hall := runs_append hcount hruns
  rw [← hbody] at hall
  have hlen : ([] : List Lane).length = f.type.params.length := by
    rw [htype]
    rfl
  have hcall := call_of_runs (t := { t with host := t.host.clearQueue })
    (export_frame z.compiled) hf
    hlen hall
  have hleft : Interpreter.frame z.engine z.program s = .ok s₁.world.late.toList s₁ := by
    show EStateM.bind (Interpreter.run z.engine z.program z.program.entryPoints) _ _ = _
    rw [EStateM.bind, hrun]
    rfl
  have hright : frame z.engine z.program z.code t =
      .ok s₁.world.late.toList { t₁ with locals := t.locals } := by
    rw [← congrArg World.late hst₁.host]
    show EStateM.bind (call z.engine z.program z.code frameName []) _
      { t with host := t.host.clearQueue } = _
    rw [EStateM.bind, hcall]
    rfl
  rw [hleft, hright]
  exact .ok _ (hst₁.of_locals rfl rfl)

theorem nodup_lateNodes (p : Program) : p.lateNodes.Nodup :=
  List.Nodup.filter _ List.nodup_range

variable {task : NodeId} {n : Node} {x : Run σ Unit}

theorem forM_of_not_mem : ∀ {ids : List NodeId}, task ∉ ids →
    (ids.forM fun id => if id = task then x else pure ()) = pure ()
  | [], _ => rfl
  | id :: rest, h => by
    have hne : id ≠ task := fun heq => h (heq ▸ List.mem_cons_self)
    rw [List.forM_eq_forM, List.forM_cons, if_neg hne, pure_bind]
    exact forM_of_not_mem fun hmem => h (List.mem_cons_of_mem id hmem)

theorem forM_of_mem : ∀ {ids : List NodeId}, ids.Nodup → task ∈ ids →
    (ids.forM fun id => if id = task then x else pure ()) = x
  | id :: rest, hnodup, h => by
    obtain ⟨hnot, hnodup⟩ := List.nodup_cons.mp hnodup
    rw [List.forM_eq_forM, List.forM_cons]
    by_cases heq : id = task
    · subst heq
      have hrest := forM_of_not_mem (x := x) hnot
      rw [List.forM_eq_forM] at hrest
      rw [if_pos rfl, hrest, bind_pure_unit]
    · rw [if_neg heq, pure_bind]
      exact forM_of_mem hnodup ((List.mem_cons.mp h).resolve_left (Ne.symm heq))

/-- The body of a late node runs if the parameter is its number. -/
theorem gives_lateTest (hget : z.program.nodes[task]? = some n) {id : NodeId}
    (hid : id ∈ z.program.lateNodes) :
    Gives (do
        let m ← z.program.node id
        let body ← branch (chainCode (target z.program)) m 0
        return [.localGet 0, Compiler.id id, .numeric .i32Eq, .when body])
      fun l₀ l' code => (∀ j ∈ [0], j < l₀.count) →
        (z.setting z.code.functions.size).EmulatesGiven [0] [.i32 (Int32.ofNat task)] l₀.count
          l'.count code []
          (if id = task then runBranch (Interpreter.run z.engine z.program) n 0 else pure
            ()) Quiet := by
  obtain ⟨m, hm, hlate⟩ := Program.mem_lateNodes.mp hid
  have hfits := z.wellFormed.nodes id m hm
  have hbranch := imitates_branch (y := z.setting z.code.functions.size) (i := 0) hfits
    (fun ids hids => imitates_chains (hfits.targets ids hids))
      (by rw [hlate]; exact Nat.zero_lt_one)
  refine gives_lift (Program.node_eq_ok hm) (gives_bind hbranch fun body => ?_)
  refine gives_pure fun l₁ l₀ hext _ hbody his => ?_
  have htest : ∀ (t : Machine (World σ)) (below : List Lane),
      Holds t.locals [0] [.i32 (Int32.ofNat task)] →
      Runs (z.setting z.code.functions.size).call
        [.localGet 0, Compiler.id id, .numeric .i32Eq] below t
        (ofBool (Int32.ofNat task == Int32.ofNat id) :: below) t := by
    intro t below hholds
    obtain _ | ⟨hlocal, -⟩ := hholds
    exact runs_cons (runs_localGet hlocal) (runs_cons (runs_const _) (runs_numeric rfl))
  refine given_after (a := [.localGet 0, Compiler.id id, .numeric .i32Eq])
    [ofBool (Int32.ofNat task == Int32.ofNat id)] htest ?_
  have hbound : ∀ {i : NodeId} {m : Node}, z.program.nodes[i]? = some m → i < 4294967296 :=
    fun hi => Nat.lt_of_lt_of_le (Array.getElem?_eq_some_iff.mp hi).1 z.addressable.nodes
  by_cases heq : id = task
  · subst heq
    rw [hget] at hm
    cases hm
    rw [if_pos rfl, beq_self_eq_true]
    refine given_when (fun _ => given_of_emulates ?_) fun h => nomatch h
    exact emulates_locals hbody (Nat.le_refl _) (Nat.le_refl _)
  · have hne : (Int32.ofNat task == Int32.ofNat id) = false :=
      beq_false_of_ne fun h => heq (ofNat_inj (hbound hget) (hbound hm) h).symm
    rw [if_neg heq, hne]
    exact given_when (fun h => absurd rfl h) fun _ => rfl

/-- The late function runs the body of the task that its parameter tells. -/
theorem gives_lateCode (hget : z.program.nodes[task]? = some n)
    (hkind : n.kind = .statement .lateUpdate) :
    Gives (lateCode (target z.program)) fun l l' code => (∀ j ∈ [0], j < l.count) →
      (z.setting z.code.functions.size).EmulatesGiven [0] [.i32 (Int32.ofNat task)] l.count l'.count
        code [] (runBranch (Interpreter.run z.engine z.program) n 0) Quiet := by
  have hpick := forM_of_mem (x := runBranch (Interpreter.run z.engine z.program) n 0)
    (nodup_lateNodes z.program) (Program.mem_lateNodes.mpr ⟨n, hget, hkind⟩)
  rw [← hpick]
  refine gives_bind (gives_forM_given fun id hid => gives_lateTest hget hid) fun codes => ?_
  exact gives_pure fun _ _ _ _ hcodes => hcodes

/-- A call of the late function does what the body of the task does. -/
theorem late_call (hst : Agrees z.program z.frames s t) (hget : z.program.nodes[task]? = some n)
    (hkind : n.kind = .statement .lateUpdate)
    (hrun : runBranch (Interpreter.run z.engine z.program) n 0 s = .ok () s') :
    ∃ t', call z.engine z.program z.code lateName [.i32 (Int32.ofNat task)] t = .ok () t' ∧
      Agrees z.program z.frames s' t' := by
  obtain ⟨f, hf, hcode⟩ := z.compiled.functions.late
  obtain ⟨l, hemulates, htype, hsize⟩ := body_of_gives hcode (gives_lateCode hget hkind)
  have hpositive : ∀ j ∈ [0], j < Locals.count { params := 1 } := by decide
  have hholds : Holds (startLocals f [.i32 (Int32.ofNat task)]) [0] [.i32 (Int32.ofNat task)] :=
    .cons rfl .nil
  obtain ⟨t', outs, hruns, rfl, hst', -⟩ := hemulates hpositive s
    { t with locals := startLocals f [.i32 (Int32.ofNat task)] } [] () s' (hst.of_locals rfl rfl)
    hholds (hsize _ rfl) hrun
  have hlen : [Lane.i32 (Int32.ofNat task)].length = f.type.params.length := by
    rw [htype]
    rfl
  exact ⟨_, call_of_runs (t := t) (export_late z.compiled) hf hlen hruns, hst'.of_locals rfl rfl⟩

/-- A task gives the same on both sides, whether it is a late task or not. -/
theorem lateTask_alike (task : NodeId) (s : Interpreter.State σ) (t : Machine (World σ))
    (hst : Agrees z.program z.frames s t) :
    Alike z.program z.frames (Interpreter.lateTask z.engine z.program task s)
      (lateTask z.engine z.program z.code task t) := by
  cases hnode : z.program.node task with
  | error fault =>
    have hleft : Interpreter.lateTask z.engine z.program task s = .error fault s := by
      unfold Interpreter.lateTask
      rw [hnode]
      rfl
    have hright : lateTask z.engine z.program z.code task t = .error fault t := by
      unfold lateTask
      rw [hnode]
      rfl
    rw [hleft, hright]
    exact .error fault hst
  | ok n =>
    have hget := Program.getElem?_of_node hnode
    by_cases hkind : n.kind = .statement .lateUpdate
    · have hmeets := meets_lateTask (E := fun _ => False) z.engine z.wellFormed
        (.inr (⟨n, hget, hkind⟩ : z.program.IsLate task))
      obtain ⟨_, s', hrun, -, -⟩ := ok_of_meets hmeets hst.typed
      have hleft : Interpreter.lateTask z.engine z.program task =
          runBranch (Interpreter.run z.engine z.program) n 0 := by
        unfold Interpreter.lateTask
        rw [check_bind hnode, if_neg (not_not_intro hkind)]
      have hright : lateTask z.engine z.program z.code task =
          call z.engine z.program z.code lateName [.i32 (Int32.ofNat task)] := by
        unfold lateTask
        rw [hnode]
        dsimp only
        rw [if_neg (not_not_intro hkind)]
      rw [hleft] at hrun
      obtain ⟨t', hcall, hst'⟩ := late_call hst hget hkind hrun
      rw [hleft, hright, hrun, hcall]
      exact .ok () hst'
    · have hleft : Interpreter.lateTask z.engine z.program task s =
          .error (.breach (.notLate task n.kind)) s := by
        unfold Interpreter.lateTask
        rw [check_bind hnode, if_pos hkind]
        rfl
      have hright : lateTask z.engine z.program z.code task t =
          .error (.breach (.notLate task n.kind)) t := by
        unfold lateTask
        rw [hnode]
        dsimp only
        rw [if_pos hkind]
        rfl
      rw [hleft, hright]
      exact .error _ hst

/-- Tasks are run in order on both sides, up to the first that is no late task. -/
theorem late_alike (tasks : List NodeId) (hst : Agrees z.program z.frames s t) :
    Alike z.program z.frames (Interpreter.late z.engine z.program tasks s)
      (late z.engine z.program z.code tasks t) :=
  alike_forM lateTask_alike tasks hst

end Compiler
end SignalGraph
