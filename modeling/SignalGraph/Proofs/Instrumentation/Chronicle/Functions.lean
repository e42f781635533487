import SignalGraph.Proofs.Emulation.Frames
import SignalGraph.Proofs.Instrumentation.Chronicle.Histories
import SignalGraph.Proofs.Instrumentation.Chronicle.Statements

/-!
# Chronicled functions

What the code of chains tells, and that of the functions that run frames, late tasks and outlined
statements.
-/

namespace SignalGraph

namespace Compiler

open Wasm Machine Chronicle

variable {σ : Type} {e : Engine σ} {p : Program} {c : Wasm.Module} {frames : Nat} {id task : NodeId}
  {n : Node} {leads : NodeId → Nat} {bound : Nat}
  {call' : Nat → List Lane → Exec (World (σ × Chronicle)) (List Lane)}
  {call : Nat → List Lane → Exec (World σ) (List Lane)} {a' a b' b : Code}

/-- The functions of outlined statements below a rank tell what running those tells. -/
def Outlines (p : Program) (frames : Nat) (leads : NodeId → Nat) (bound : Nat)
    (call' : Nat → List Lane → Exec (World (σ × Chronicle)) (List Lane))
    (call : Nat → List Lane → Exec (World σ) (List Lane)) : Prop :=
  ∀ (i : Nat) (id : NodeId), (target p).outlined[i]? = some id → leads id < bound →
    Recounts p frames call' call (Ran p [id]) [.call ((target p).outlinedFunction i)]
      [.call ((target p).outlinedFunction i)]

variable (hp : p.WellFormed) (hfit : p.Addressable) (hc : Compiled p c)
  (howns : ∀ id n, p.nodes[id]? = some n → p.Owns id n) (h : Tends e p c frames call' call)
include hp hfit hc howns h

/-- A statement starts only statements of lower rank. -/
theorem carries_telling (hrank : p.Falls p.Leads leads)
    (houtlines : Outlines p frames leads bound call' call) :
    (telling (target p)).Carries (target p) (leads · < bound)
      (fun _ _ id _ _ => Recounts p frames call' call (Performed p id))
      (fun _ _ id _ _ => Recounts p frames call' call (Ran p [id]))
      fun _ _ ids _ _ => Recounts p frames call' call (Ran p ids) where
  closed hid hget hids t ht := Nat.lt_trans (hrank.falls _ t ⟨_, _, hget, hids, ht⟩) hid
  nil _ _ _ := recounts_nil fun _ => .nil
  cons ha hb := by
    refine recounts_mono (recounts_append ha hb) ?_
    rintro held es held' ⟨x, h₁, y, rfl, hx, hy⟩
    exact ran_append hx hy
  around h := h
  call hid hi := houtlines _ _ hi hid
  statement hget hkind hchain :=
    pairs_toldStatement hp hfit hc h hget _ (howns _ _ hget) hkind hchain
  followed hget ha hb := by
    refine recounts_mono (recounts_append ha hb) ?_
    rintro _ _ _ ⟨_, _, _, rfl, hstatement, hrest⟩
    exact hstatement.followed hget hrest
  single _ h := h

theorem pairs_toldOutlined (hrank : p.Falls p.Leads leads)
    (houtlines : Outlines p frames leads (leads id) call' call) :
    Pairs ((telling (target p)).node (target p) ((telling (target p)).chainCode (target p)) .own id)
      (outlinedCode (target p) id) (Recounts p frames call' call (Ran p [id])) :=
  (carries_telling hp hfit hc howns h hrank houtlines).parallels_own fun hget hids t ht =>
    hrank.falls id t ⟨_, _, hget, hids, ht⟩

/-- What holds when a frame has begun, before its function has counted it. -/
def Begun (p : Program) (frames : Nat) (h : Holdings) (l₀ : Chronicle) (t : Machine (World σ))
    (l : Chronicle) : Prop :=
  (l = l₀ ∧ t.host.holdings = h) ∧ Timely p frames t.globals ∧
    (frames + 1 < 4294967295 → l.Fresh p fun _ => none)

omit hp hfit hc howns h in
/-- From there on the chronicle tells of all that the memo points hold. -/
theorem escorts_count {h₀ : Holdings} {l₀ : Chronicle} (s : List Lane) :
    Escorts (Begun p frames h₀ l₀)
      (fun outcome t l => outcome = .next s ∧ Since p (frames + 1) h₀ l₀ .stay t l)
      (instrs call' frameCount s) (instrs call frameCount s) := by
  rintro t l ⟨⟨rfl, rfl⟩, htimely, hfresh⟩
  have hrun : instrs call frameCount s t = _ := runs_frameCount htimely.frame
  rw [hrun]
  refine ⟨l, runs_frameCount (t := t.beside l) htimely.frame, rfl, since_stay.mpr ⟨⟨rfl, rfl⟩,
    htimely.next, fun hlt => ?_⟩⟩
  rw [htimely.cells_next hlt]
  exact hfresh hlt

omit h in
/-- The frame function counts the frame and runs the entry points. -/
theorem pairs_toldFrame (h : Tends e p c (frames + 1) call' call) (hrank : p.Falls p.Leads leads)
    (houtlines : Outlines p (frames + 1) leads p.nodes.size call' call) :
    Pairs ((telling (target p)).frameCode (target p)) (frameCode (target p)) fun code' code =>
      ∀ h₀ l₀ s, Escorts (Begun p frames h₀ l₀)
        (fun outcome => Since p (frames + 1) h₀ l₀ (Ending (Ran p p.entryPoints) outcome))
        (instrs call' code' s) (instrs call code s) := by
  have hcarries := carries_telling hp hfit hc howns h hrank houtlines
  refine fun l => (hcarries.parallels_frame (leads_entry_lt hp hrank) l).mono ?_
  rintro _ _ _ ⟨b', b, rfl, rfl, hb⟩ h₀ l₀ s
  rw [instrs_append_bind, instrs_append_bind]
  refine mirrors_bind (escorts_count s) fun outcome t l hs => ?_
  obtain ⟨rfl, hs⟩ := hs
  exact hb s h₀ l₀ t l hs

/-- What is kept while the late function runs the body of a task. -/
def Dispatching (p : Program) (frames : Nat) (task : NodeId) (t : Machine (World σ))
    (l : Chronicle) :
    Prop :=
  Recalls p frames t l ∧ t.locals[0]? = some (.i32 (Int32.ofNat task))

/-- The tests whether the task is that of one of some late nodes. -/
def Dispatches (p : Program) (frames : Nat)
    (call' : Nat → List Lane → Exec (World (σ × Chronicle)) (List Lane))
    (call : Nat → List Lane → Exec (World σ) (List Lane)) (task : NodeId) (ids : List NodeId)
    (code' code : Code) : Prop :=
  ∀ s, SignalGraph.Tells Machine.beside (fun t => t.host.holdings) (Dispatching p frames task)
    (Ending (if task ∈ ids then p.LateBody task else .stay)) (instrs call' code' s)
      (instrs call code s)

omit hp hfit hc howns h in
theorem tells_dispatching {α : Type} {T : α → Tale} {run' : Exec (World (σ × Chronicle)) α}
    {run : Exec (World σ) α} (hrun : Tells p frames T run' run)
    (hkeeps : ∀ t a t', run t = .ok a t' → t'.locals[0]? = t.locals[0]?) :
    SignalGraph.Tells Machine.beside (fun t => t.host.holdings)
      (Dispatching p frames task) T run' run := by
  rintro h₀ l₀ t l ⟨htale, hB, hlocal⟩
  have hmirror := hrun h₀ l₀ t l ⟨htale, hB⟩
  cases hresult : run t with
  | error trap t' =>
    rw [hresult] at hmirror
    exact hmirror
  | ok a t' =>
    rw [hresult] at hmirror
    obtain ⟨l', hrun', htale', hB'⟩ := hmirror
    exact ⟨l', hrun', htale', hB', (hkeeps t a t' hresult).trans hlocal⟩

omit hp hfit hc howns h in
theorem dispatches_append {ids : List NodeId} (hnot : id ∉ ids)
    (ha : Dispatches p frames call' call task [id] a' a)
    (hb : Dispatches p frames call' call task ids b' b) :
    Dispatches p frames call' call task (id :: ids) (a' ++ b') (a ++ b) := by
  intro s
  rw [instrs_append_bind, instrs_append_bind]
  have hrest : ∀ outcome, (∃ s', outcome = .next s') →
      SignalGraph.Tells Machine.beside (fun t => t.host.holdings) (Dispatching p frames task)
        (Ending (if task ∈ ids then p.LateBody task else .stay)) (proceed (instrs call' b') outcome)
        (proceed (instrs call b) outcome) := by
    rintro _ ⟨s', rfl⟩
    exact hb s'
  refine tells_bind_of (ha s) (fun _ _ _ _ hT => hT.1) hrest ?_
  rintro _ outcome held es held' ⟨x, h₁, y, rfl, ⟨-, hx⟩, hnext, hy⟩
  refine ⟨hnext, ?_⟩
  by_cases heq : task = id
  · subst heq
    rw [if_pos List.mem_cons_self] at hx ⊢
    rw [if_neg hnot] at hy
    obtain ⟨rfl, rfl⟩ := hy
    rwa [List.append_nil]
  · have hmem : task ∈ id :: ids ↔ task ∈ ids := by
      rw [List.mem_cons, or_iff_right heq]
    rw [if_neg fun hin => heq (List.mem_singleton.mp hin)] at hx
    obtain ⟨rfl, rfl⟩ := hx
    simpa only [hmem, List.nil_append] using hy

omit hp hfit hc howns h in
/-- The body of the task runs if its number is the parameter. -/
theorem dispatches_test (hid : id < 4294967296) (htask : task < 4294967296)
    (hget : p.nodes[id]? = some n) (hkind : n.kind = .statement .lateUpdate) {ids : List NodeId}
    (hids : n.branch 0 = .ok ids) (hbody : Recounts p frames call' call (Ran p ids) b' b)
    (hkeeps : KeepsLocals call)
    (hspares : confined (sparing 1) 0 [.when b]) :
    Dispatches p frames call' call task [id]
      [.localGet 0, Compiler.id id, .numeric .i32Eq, .when b']
      [.localGet 0, Compiler.id id, .numeric .i32Eq, .when b] := by
  rintro s h₀ l₀ t l hs
  have hlocal : t.locals[0]? = some (.i32 (Int32.ofNat task)) := hs.2.2
  have htest : ∀ {τ : Type} (call : Nat → List Lane → Exec τ (List Lane))
    (t : Machine τ) (b : Code),
      t.locals[0]? = some (.i32 (Int32.ofNat task)) →
      instrs call [.localGet 0, Compiler.id id, .numeric .i32Eq, .when b] s t =
        instrs call [.when b]
          (.i32 (if Int32.ofNat task == Int32.ofNat id then 1 else 0) :: s) t := by
    intro τ call t b hlocal
    have hruns : Runs call [.localGet 0, Compiler.id id, .numeric .i32Eq] s t
        (ofBool (Int32.ofNat task == Int32.ofNat id) :: s) t :=
      runs_cons (runs_localGet hlocal) (runs_cons (runs_const _) (runs_numeric rfl))
    exact instrs_append hruns
  have hlocal' : (t.beside l).locals[0]? = some (.i32 (Int32.ofNat task)) := hlocal
  rw [htest call t b hlocal, htest call' (t.beside l) b' hlocal']
  let x : Int32 := if Int32.ofNat task == Int32.ofNat id then 1 else 0
  have hwhen : Tells p frames (Ending (if x = 0 then .stay else Ran p ids))
      (instrs call' [.when b'] (.i32 x :: s)) (instrs call [.when b] (.i32 x :: s)) :=
        tells_when (hbody [])
  have hdispatching : SignalGraph.Tells Machine.beside (fun t => t.host.holdings)
    (Dispatching p frames task)
      _ _ _ := tells_dispatching hwhen fun t outcome t' hrun =>
    (spares_instrs hkeeps hspares _ t outcome t' hrun).1 0 Nat.zero_lt_one
  refine mirrors_mono (hdispatching h₀ l₀) (fun outcome t' l' => since_mono ?_) t l hs
  rintro held es held' ⟨hnext, hT⟩
  refine ⟨hnext, ?_⟩
  by_cases heq : task = id
  · subst heq
    have hx : x = 1 := if_pos (beq_self_eq_true _)
    rw [if_pos List.mem_cons_self]
    rw [hx] at hT
    exact ⟨n, ids, hget, hkind, hids, hT⟩
  · have hx : x = 0 := if_neg fun hbeq => heq (ofNat_inj htask hid (eq_of_beq hbeq))
    rw [if_neg fun hin => heq (List.mem_singleton.mp hin)]
    rwa [hx] at hT

/-- The tests of several late nodes, in code that leaves the parameter alone. -/
def Tests (p : Program) (frames : Nat)
    (call' : Nat → List Lane → Exec (World (σ × Chronicle)) (List Lane))
    (call : Nat → List Lane → Exec (World σ) (List Lane)) (ids : List NodeId)
    (code' code : Code) : Prop :=
  ids.Nodup → confined (sparing 1) 0 code → ∀ task < 4294967296,
    Dispatches p frames call' call task ids code' code

omit hp hfit hc howns h in
theorem tests_nil : Tests p frames call' call [] [] [] := fun _ _ task _ s => by
  rw [if_neg List.not_mem_nil]
  exact tells_pure fun _ => ⟨⟨s, rfl⟩, rfl, rfl⟩

omit hp hfit hc howns h in
theorem tests_cons {ids : List NodeId} (ha : Tests p frames call' call [id] a' a)
    (hb : Tests p frames call' call ids b' b) :
    Tests p frames call' call (id :: ids) (a' ++ b') (a ++ b) := by
  intro hnodup hspares task htask
  obtain ⟨hnot, hnodup⟩ := List.nodup_cons.mp hnodup
  obtain ⟨hspares, hspares'⟩ := confined_append.mp hspares
  exact dispatches_append hnot (ha (List.nodup_singleton id) hspares task htask)
    (hb hnodup hspares' task htask)

omit h in
/-- The late function runs the body of its task. -/
theorem pairs_toldLate (h : Tends e p c frames call' call) (hrank : p.Falls p.Leads leads)
    (houtlines : Outlines p frames leads p.nodes.size call' call) (hkeeps : KeepsLocals call) :
    Pairs ((telling (target p)).lateCode (target p)) (lateCode (target p))
      (Tests p frames call' call p.lateNodes) := by
  refine (carries_telling hp hfit hc howns h hrank houtlines).parallels_late
    (T := fun ids _ _ => Tests p frames call' call ids)
    (fun hget hids => leads_lt hp hrank hget hids) (fun _ => tests_nil) tests_cons ?_
  intro id n ids _ _ b' b hid hget hids hbody _ hspares task htask
  obtain ⟨n', hget', hlate⟩ := Program.mem_lateNodes.mp hid
  cases hget.symm.trans hget'
  have hlt : id < 4294967296 := Nat.lt_of_lt_of_le (Array.getElem?_eq_some_iff.mp hget).1 hfit.nodes
  exact dispatches_test hlt htask hget hlate hids hbody hkeeps ⟨hspares.2.2.2.1, trivial⟩

end Compiler
end SignalGraph
