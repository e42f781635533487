import SignalGraph.Proofs.Emission.Confined

/-!
# Confined functions

What the functions of a program can reach.  The code of an output calls only memo points of lower
rank, and that of a chain only outlined statements of lower rank.  Loops count in locals of their
own.
-/

namespace SignalGraph
namespace Compiler

open Wasm

variable {α : Type} {calls : Nat → Prop} {lo : Nat} {p : Program} {n : Node} {id : NodeId}
  {produce : Producer → Emit Code} {chain : List NodeId → Emit Code}

def Continues (calls : Nat → Prop) (chain : List NodeId → Emit Code) (n : Node) : Prop :=
  ∀ ids ∈ n.controls, ∀ lo, Writes lo (chain ids) (Calls calls lo)

theorem writes_branch (hc : Continues calls chain n) (i : Nat) :
    Writes lo (branch chain n i) (Calls calls lo) :=
  writes_lift fun ids hids => hc ids (Interpreter.branch_mem hids) lo

theorem writes_storeLocals (hc : CallsImports calls) (n : Node) (i : Nat) {f : Format}
    (hf : f ≠ .rot)
    (locals : List Nat) : Writes lo (storeLocals n i f locals) (Calls calls lo) := by
  refine writes_lift fun slot _ => writes_pure ?_
  exact calls_cons (fun _ => trivial) (calls_append (calls_getLocals _) (calls_setSlot hc hf))

theorem calls_request (e : Effect) (k : Int32) :
    Calls calls lo (if e.hasNumber then [int k] else []) := by
  split
  · exact calls_int k
  · exact calls_nil

theorem writes_effect (hi : CallsImports calls) (h : Reads calls produce n) (e : Effect) :
    Writes lo (effect produce n e) (Calls calls lo) := by
  have hcall : ∀ {code : Code}, Calls calls lo code →
    Calls calls lo (callImport (.effect e) :: code) :=
    fun hcode => calls_cons (fun _ => hi _
      (mem_table (fun heq => by cases heq) fun heq => by cases heq)) hcode
  unfold effect
  cases e.slots with
  | nil =>
    refine writes_bind (writes_effectOperands h _) fun _ harguments => writes_pure ?_
    exact calls_append (calls_append harguments (calls_request e _)) (hcall calls_nil)
  | cons slot _ =>
    refine writes_lift fun i _ => writes_bind (writes_effectOperands h _) fun _ harguments => ?_
    have harguments := calls_cons (i := Compiler.id i) (fun _ => trivial) harguments
    exact writes_pure (calls_append (calls_append harguments (calls_request e _))
      (hcall (calls_setSlot hi ofSlot_ne_rot)))

theorem writes_menuItem (hi : CallsImports calls) (h : Reads calls produce n) (id : NodeId) :
    Writes lo (menuItem produce id n) (Calls calls lo) := by
  refine writes_lift fun slot _ => writes_bind (writes_operands h 2) fun _ harguments =>
    writes_pure ?_
  refine calls_cons (fun _ => trivial) (calls_cons (fun _ => hi _ (by decide))
    (calls_cons (fun _ => trivial) (calls_when ?_)))
  refine calls_cons (fun _ => trivial) (calls_append harguments ?_)
  exact calls_cons (fun _ => hi _ (by decide)) (calls_cons (fun _ => trivial)
    (calls_cons (fun _ => trivial) (calls_setSlot hi (by decide))))

theorem writes_touchSensor (hc : CallsImports calls) (hn : Continues calls chain n) :
    Writes lo (touchSensor chain n) (Calls calls lo) := by
  refine writes_bind (writes_spill calls _) fun r hr => writes_lift fun slot _ => ?_
  refine writes_bind (writes_branch hn 0) fun body hbody => writes_pure ?_
  refine calls_append (calls_append (calls_append ?_ hr) (calls_getLocals _)) (calls_when ?_)
  · exact calls_cons (fun _ => trivial) (calls_cons (fun _ => trivial)
      (calls_callImport (hc _ (by decide))))
  · exact calls_cons (fun _ => trivial) (calls_append (calls_getLocals _)
      (calls_cons (fun _ => trivial) (calls_append (calls_setSlot hc (by decide)) hbody)))

theorem writes_swipeSensor (hc : CallsImports calls) (hn : Continues calls chain n) :
    Writes lo (swipeSensor chain n) (Calls calls lo) := by
  refine writes_bind (writes_spill calls _) fun r hr => ?_
  refine writes_bind (writes_storeLocals hc n 0 (by decide) _) fun store hstore => ?_
  refine writes_bind (writes_branch hn 0) fun body hbody => writes_pure ?_
  refine calls_cons (fun _ => hc _ (by decide))
    (calls_append (calls_append hr (calls_getLocals _)) ?_)
  exact calls_when (calls_append hstore hbody)

theorem writes_collision (hi : CallsImports calls) (h : Reads calls produce n)
    (hn : Continues calls chain n) :
    Writes lo (collision produce chain n) (Calls calls lo) := by
  have hstore : ∀ i {f : Format}, f ≠ .rot → ∀ locals,
      Writes lo (storeLocals n i f locals) (Calls calls lo) :=
    fun i _ hf => writes_storeLocals hi n i hf
  refine writes_bind (writes_operand h 0) fun object hobject => ?_
  refine writes_bind (writes_spill calls _) fun r hr => ?_
  refine writes_bind (hstore 0 (by decide) _) fun other hother => ?_
  refine writes_bind (hstore 1 (by decide) _) fun impulse himpulse => ?_
  refine writes_bind (hstore 2 (by decide) _) fun normal hnormal => ?_
  refine writes_bind (writes_branch hn 0) fun body hbody => writes_pure ?_
  refine calls_append (calls_append (calls_append hobject ?_) (calls_getLocals _)) (calls_when ?_)
  · exact calls_cons (fun _ => hi _ (by decide)) hr
  · exact calls_append (calls_append (calls_append hother himpulse) hnormal) hbody

theorem calls_wider {lo' : Nat} {code : Code} (h : Calls calls lo' code) (hlo : lo ≤ lo') :
    Calls calls lo code :=
  have hwithin : (limits calls lo').Within (limits calls lo) :=
    ⟨fun _ h => h, fun _ h => h, fun _ h => Nat.le_trans hlo h, fun _ h => h⟩
  fun labels => confined_mono hwithin (h labels)

/-- The counter and the count of a loop are taken before its body is emitted. -/
theorem writes_loop (hi : CallsImports calls) (h : Reads calls produce n)
    (hn : Continues calls chain n) :
    Writes lo (loop produce chain n) (Calls calls lo) := by
  refine writes_bind (writes_operands h 2) fun arguments harguments => ?_
  refine writes_bind (writes_spill calls _) fun r hr => ?_
  refine writes_fresh fun count hcount => writes_fresh fun k hk => ?_
  refine writes_lift fun slot _ => writes_bind (writes_branch hn 0) fun body hbody => writes_pure ?_
  have hlo : lo ≤ k := Nat.le_trans hcount (Nat.le_of_succ_le hk)
  have hcounter : ∀ {lo}, Calls calls lo [callImport .loopCounter, callImport (.setSlot .float)] :=
    calls_cons (fun _ => hi _ (by decide)) (calls_setSlot hi (by decide))
  have hbetween : Calls calls (k + 1) (Compiler.id slot :: getLocals r.1 ++ getLocals [k] ++
      [callImport .loopCounter, callImport (.setSlot .float)] ++ body) :=
    calls_cons (fun _ => trivial) (calls_append (calls_append (calls_append (calls_getLocals _)
      (calls_getLocals _)) hcounter) hbody)
  have heq : getLocals [k, count] ++ [.numeric .i32GeU, .brIf 1, Compiler.id slot] ++
      getLocals r.1 ++ getLocals [k] ++ [callImport .loopCounter, callImport (.setSlot .float)] ++
      body ++ [.localGet k, int 1, .numeric .i32Add, .localSet k, .br 0] =
      [.localGet k, .localGet count, .numeric .i32GeU, .brIf 1] ++
        (Compiler.id slot :: getLocals r.1 ++ getLocals [k] ++
          [callImport .loopCounter, callImport (.setSlot .float)] ++ body) ++
        [.localGet k, int 1, .numeric .i32Add, .localSet k, .br 0] := by
    simp only [getLocals, List.map_cons, List.map_nil, List.append_assoc, List.cons_append,
      List.nil_append]
  have hloop : Calls calls lo [.block [.loop (getLocals [k, count] ++
      [.numeric .i32GeU, .brIf 1, Compiler.id slot] ++ getLocals r.1 ++ getLocals [k] ++
      [callImport .loopCounter, callImport (.setSlot .float)] ++ body ++
      [.localGet k, int 1, .numeric .i32Add, .localSet k, .br 0])]] := by
    rw [heq]
    refine calls_cons (fun labels => ⟨⟨⟨k, count, _, hk, ?_, rfl⟩, ?_⟩, confined_nil⟩) calls_nil
    · have hwithin : (limits calls (k + 1)).Within (sparing (k + 1)) :=
        ⟨fun _ _ => trivial, fun _ _ => trivial, fun _ h => h, fun _ _ => trivial⟩
      exact confined_mono hwithin (hbetween 0)
    · have htest : confined (limits calls lo) (labels + 2)
          [.localGet k, .localGet count, .numeric .i32GeU, .brIf 1] :=
        ⟨trivial, trivial, trivial, Nat.lt_of_lt_of_le Nat.one_lt_two (Nat.le_add_left 2 labels),
          confined_nil⟩
      have hagain : confined (limits calls lo) (labels + 2)
          [.localGet k, int 1, .numeric .i32Add, .localSet k, .br 0] :=
        ⟨trivial, trivial, trivial, hlo, Nat.succ_pos _, confined_nil⟩
      have hwider := calls_wider hbetween (Nat.le_succ_of_le hlo)
      exact confined_append.mpr ⟨confined_append.mpr ⟨htest, hwider _⟩, hagain⟩
  refine calls_append (calls_append (calls_append harguments hr) (calls_getLocals _)) ?_
  exact calls_cons (fun _ => hi _ (by decide)) (calls_cons (fun _ => hcount)
    (calls_cons (fun _ => trivial) (calls_cons (fun _ => hlo) hloop)))

theorem writes_adjust (h : Reads calls produce n) (delta : Binary32) :
    Writes lo (adjust produce n delta) (Calls calls lo) := by
  refine writes_bind (writes_operand h 0) fun pointer hpointer => ?_
  refine writes_bind (writes_spill calls _) fun r hr => writes_pure ?_
  refine calls_append (calls_append (calls_append (calls_append hpointer hr) (calls_getLocals _))
    (calls_getLocals _)) ?_
  exact calls_cons (fun _ => h.imports _ (by decide) fun _ heq => by cases heq)
    (calls_cons (fun _ => trivial) (calls_cons (fun _ => trivial)
      (calls_callImport (h.imports _ (by decide) fun _ heq => by cases heq))))

/-- A statement without slots and branches leaves the slots alone. -/
theorem writes_plain (h : Reads calls produce n) (id : NodeId) {st : Statement}
    (hslots : st.slots = []) (hbranches : st.shape.branches = []) :
    Writes lo (statement produce chain id n st) (Calls calls lo) := by
  have hcall : ∀ {i : Import}, i ≠ .getSlot .rot → (∀ f, i ≠ .setSlot f) →
      Calls calls lo [callImport i] :=
    fun hget hset => calls_callImport (h.imports _ (mem_table hget (hset _)) hset)
  cases st with
  | effect e =>
    have hnone : e.slots = [] := hslots
    show Writes lo (effect produce n e) _
    unfold effect
    rw [hnone]
    refine writes_bind (writes_effectOperands h _) fun _ harguments => writes_pure ?_
    exact calls_append (calls_append harguments (calls_request e _))
      (hcall (fun heq => by cases heq) fun _ heq => by cases heq)
  | increment => exact writes_adjust h _
  | decrement => exact writes_adjust h _
  | inspect t =>
    refine writes_bind (writes_operand h 0) fun _ hshown => writes_pure ?_
    exact calls_cons (fun _ => trivial)
      (calls_append hshown (hcall (fun heq => by cases heq) fun _ heq => by cases heq))
  | setVariable t =>
    refine writes_bind (writes_operand h 0) fun _ hv => writes_pure ?_
    exact calls_append (calls_append (calls_variablePointer _) hv)
      (hcall (fun heq => by cases heq) fun _ heq => by cases heq)
  | setPointer t =>
    refine writes_bind (writes_operands h 2) fun _ harguments => writes_pure ?_
    exact calls_append harguments (hcall (fun heq => by cases heq) fun _ heq => by cases heq)
  | menuItem => cases hslots
  | ifThen | playSensor | lateUpdate | boxArtSensor | touchSensor | swipeSensor | button | collision
  | loop => cases hbranches

theorem writes_statement (hi : CallsImports calls) (h : Reads calls produce n)
    (hn : Continues calls chain n) (id : NodeId) (st : Statement) :
    Writes lo (statement produce chain id n st) (Calls calls lo) := by
  have hbranch : ∀ i, Writes lo (branch chain n i) (Calls calls lo) := writes_branch hn
  cases st with
  | effect e => exact writes_effect hi h e
  | menuItem => exact writes_menuItem hi h id
  | touchSensor => exact writes_touchSensor hi hn
  | swipeSensor => exact writes_swipeSensor hi hn
  | collision => exact writes_collision hi h hn
  | loop => exact writes_loop hi h hn
  | increment | decrement | inspect _ | setVariable _ | setPointer _ =>
    exact writes_plain h id rfl rfl
  | ifThen =>
    refine writes_bind (writes_operand h 0) fun _ hcondition => ?_
    refine writes_bind (hbranch 0) fun _ htrue => writes_bind (hbranch 1) fun _ hfalse => ?_
    exact writes_pure (calls_append hcondition (calls_ifElse htrue hfalse))
  | playSensor =>
    refine writes_bind (hbranch 0) fun _ hbody => writes_pure ?_
    exact calls_cons (fun _ => hi _ (by decide)) (calls_cons (fun _ => trivial)
      (calls_when hbody))
  | lateUpdate =>
    exact writes_pure (calls_cons (fun _ => trivial) (calls_callImport (hi _ (by decide))))
  | boxArtSensor =>
    refine writes_bind (hbranch 0) fun _ hbody => writes_pure ?_
    exact calls_cons (fun _ => hi _ (by decide)) (calls_when hbody)
  | button =>
    refine writes_bind (hbranch 0) fun _ hbody => writes_pure ?_
    exact calls_cons (fun _ => trivial) (calls_cons (fun _ => hi _ (by decide))
      (calls_when hbody))

/-! ## Outputs and chains -/

/-- What code may call: memo points and outlined statements up to given ranks. -/
inductive Callable (p : Program) (reads leads : NodeId → Nat) (readBound leadBound : Nat) :
    Nat → Prop
  | host {i : Import} : i ∈ Import.table → Callable p reads leads readBound leadBound i.index
  | memo {k : MemoId} {m : MemoPoint} : p.memoPoints[k]? = some m →
      reads m.source.node < readBound →
    Callable p reads leads readBound leadBound (Target.memoFunction k)
  | outlined {i : Nat} {id : NodeId} : (target p).outlined[i]? = some id → leads id < leadBound →
    Callable p reads leads readBound leadBound ((target p).outlinedFunction i)

variable {reads leads : NodeId → Nat} {readBound leadBound : Nat}

/-- What an output is computed from is of lower rank. -/
theorem writes_produce (hp : p.WellFormed) (hrank : p.Falls p.Reads reads) (hi : CallsReaders calls)
    (hmemo : ∀ (k : MemoId) (m : MemoPoint), p.memoPoints[k]? = some m →
      reads m.source.node < readBound → calls (Target.memoFunction k)) :
    ∀ {depth : Nat} {source : Producer} {lo : Nat}, reads source.node ≤ readBound →
      Writes lo (Compiler.produce p depth source) (Calls calls lo)
  | 0, _, _, _ => writes_throw
  | depth + 1, source, lo, hbound => by
    refine writes_lift fun n hnode => ?_
    have hget := Program.getElem?_of_node hnode
    cases hs : n.statement with
    | true => exact writes_readSlot hi.getSlot p n source.output
    | false =>
      have hlower : ∀ w, Operand.wire w ∈ n.inputs → reads w.source.node < readBound := fun w hw =>
        Nat.lt_of_lt_of_le (hrank.falls source.node _ ⟨n, w, hget, hs, hw, rfl⟩) hbound
      have hreads : Reads calls (Compiler.produce p depth) n := by
        refine ⟨hi, fun w hw k hk => ?_, fun w hw lo => ?_⟩
        · obtain ⟨type, hfits⟩ := (hp.nodes _ n hget).fits_of_wire hw
          obtain ⟨m, hm, hsource⟩ := hfits.memo k hk
          refine hmemo k m hm ?_
          rw [hsource]
          exact hlower w hw
        · exact writes_produce hp hrank hi hmemo (Nat.le_of_lt (hlower w hw))
      cases hkind : n.kind with
      | expression x => exact writes_evaluate hreads source.output x
      | _ => exact writes_throw

theorem reads_produce (hp : p.WellFormed) (hi : CallsReaders calls)
    (hmemo : ∀ (k : MemoId) (m : MemoPoint), p.memoPoints[k]? = some m →
      calls (Target.memoFunction k)) (hget : p.nodes[id]? = some n) :
    Reads calls (Compiler.produce p (p.nodes.size + 1)) n := by
  obtain ⟨reads, hrank⟩ := hp.reads
  refine ⟨hi, fun w hw k hk => ?_, fun w hw lo => ?_⟩
  · obtain ⟨type, hfits⟩ := (hp.nodes id n hget).fits_of_wire hw
    obtain ⟨m, hm, -⟩ := hfits.memo k hk
    exact hmemo k m hm
  · exact writes_produce hp hrank hi (fun k m hk _ => hmemo k m hk) (Nat.le_refl _)

/-- Imported functions may be called whatever the ranks. -/
theorem callsImports_callable : CallsImports (Callable p reads leads readBound leadBound) :=
  fun _ hi => .host hi

/-- All memo points are of lower rank than the number of nodes. -/
theorem callable_memo (hp : p.WellFormed) (hrank : p.Falls p.Reads reads) {k : MemoId}
    {m : MemoPoint}
    (hk : p.memoPoints[k]? = some m) :
    Callable p reads leads p.nodes.size leadBound (Target.memoFunction k) := by
  obtain ⟨n, hn, -⟩ := hp.memoPoints m (List.mem_of_getElem? hk)
  exact .memo hk (hrank.bounded _ (Array.getElem?_eq_some_iff.mp hn).1)

theorem writes_node (hp : p.WellFormed) (hrank : p.Falls p.Reads reads)
    (hget : p.nodes[id]? = some n)
    (hn : Continues (Callable p reads leads p.nodes.size leadBound) chain n) :
    Writes lo (node (target p) chain id n)
      (Calls (Callable p reads leads p.nodes.size leadBound) lo) := by
  unfold node
  cases n.kind with
  | statement st =>
    have hreads : Reads (Callable p reads leads p.nodes.size leadBound)
        (produce p (p.nodes.size + 1)) n :=
      reads_produce hp callsImports_callable.readers (fun _ _ hk => callable_memo hp hrank hk) hget
    exact writes_statement callsImports_callable hreads hn id st
  | _ => exact writes_throw

/-- What follows a statement is the last of its chains. -/
theorem after_mem {t : NodeId} (h : t ∈ n.after) : n.after ∈ n.controls := by
  cases hlast : n.controls.getLast? with
  | none =>
    rw [Node.after, List.getLastD_eq_getLast?, hlast] at h
    exact absurd h List.not_mem_nil
  | some ids =>
    rw [Node.after, List.getLastD_eq_getLast?, hlast]
    exact List.mem_of_getLast? hlast

/-- A statement starts only statements of lower rank. -/
theorem writes_chain (hp : p.WellFormed) (hrank : p.Falls p.Reads reads)
    (hrank' : p.Falls p.Leads leads) : ∀ {depth : Nat} {ids : List NodeId} {lo : Nat},
    (∀ id ∈ ids, leads id < leadBound) →
    Writes lo (Compiler.chain (target p) depth ids)
      (Calls (Callable p reads leads p.nodes.size leadBound) lo)
  | 0, ids, _, _ => writes_bind (writes_mapM fun _ _ => writes_throw) fun _ hcodes =>
    writes_pure (calls_flatten hcodes)
  | depth + 1, ids, lo, hids => by
    refine writes_bind (writes_mapM fun id hid => ?_) fun codes hcodes =>
      writes_pure (calls_flatten hcodes)
    have hlt := hids id hid
    by_cases hcontains : (target p).outlined.contains id = true
    · have hidx := List.getElem?_idxOf (List.contains_iff_mem.mp hcontains)
      simp only [hcontains, if_true]
      exact writes_pure (calls_cons (fun _ => .outlined hidx hlt) calls_nil)
    · simp only [hcontains]
      refine writes_lift fun n hnode => ?_
      have hget := Program.getElem?_of_node hnode
      have hcontinues : ∀ targets, (∀ t ∈ targets, targets ∈ n.controls) → ∀ lo,
          Writes lo (Compiler.chain (target p) depth targets)
            (Calls (Callable p reads leads p.nodes.size leadBound) lo) := by
        refine fun targets htargets lo => writes_chain hp hrank hrank' fun t ht => ?_
        exact Nat.lt_trans (hrank'.falls id t ⟨n, targets, hget, htargets t ht, ht⟩) hlt
      refine writes_bind (writes_node hp hrank hget fun ids hids => hcontinues ids fun _ _ => hids)
        fun code hcode => ?_
      refine writes_bind (hcontinues _ (fun _ ht => after_mem ht) lo) fun rest hrest => ?_
      exact writes_pure (calls_append hcode hrest)

/-- The code of a chain may call any function but those that run frames. -/
theorem writes_chainCode (hp : p.WellFormed) (hrank : p.Falls p.Reads reads)
    (hrank' : p.Falls p.Leads leads) {ids : List NodeId} (hids : ∀ id ∈ ids, leads id < leadBound) :
    Writes lo (chainCode (target p) ids)
      (Calls (Callable p reads leads p.nodes.size leadBound) lo) :=
  writes_chain hp hrank hrank' hids

/-- The body of a function is what is emitted for it, where locals that are no parameters are
taken. -/
theorem body_of_writes_past {type : FunctionType} {emit : Emit Code} {f : Function}
    {Q : Code → Prop}
    (hf : function type emit = .ok f) (hlo : lo ≤ type.params.length) (h : Writes lo emit Q) :
    Q f.body := by
  obtain ⟨l, hemit, -, -⟩ := function_eq_ok.mp hf
  exact (h { params := type.params.length } _ l hlo hemit).2

theorem body_of_writes {type : FunctionType} {emit : Emit Code} {f : Function} {Q : Code → Prop}
    (hf : function type emit = .ok f) (h : Writes 0 emit Q) : Q f.body :=
  body_of_writes_past hf (Nat.zero_le _) h

/-- Whether a memo point is to be computed: its stamp is not the current frame. -/
def stampTest (x : Target) (k : MemoId) : Code :=
  [.globalGet (x.stampGlobal k), .globalGet Target.frameGlobal, .numeric .i32Ne]

/-- The lanes of a memo point are stored, and then the frame as its stamp. -/
def stampCode (x : Target) (k : MemoId) (m : MemoPoint) : Code :=
  (cacheGlobals x k m).reverse.map .globalSet ++
    [.globalGet Target.frameGlobal, .globalSet (x.stampGlobal k)]

theorem memoCode_eq (x : Target) (k : MemoId) (m : MemoPoint) : memoCode x k m = (do
    let code ← Compiler.produce x.program (x.program.nodes.size + 1) m.source
    return stampTest x k ++ [.when (code ++ stampCode x k m)] ++
      (cacheGlobals x k m).map .globalGet) := by
  unfold memoCode stampTest stampCode
  simp only [List.append_assoc, List.cons_append, List.nil_append]

/-- A memo point is computed from memo points of lower rank. -/
theorem writes_memoCode (hp : p.WellFormed) (hrank : p.Falls p.Reads reads)
    (hi : CallsReaders calls)
    (k : MemoId) (m : MemoPoint)
    (hmemo : ∀ (j : MemoId) (m' : MemoPoint), p.memoPoints[j]? = some m' →
      reads m'.source.node < reads m.source.node → calls (Target.memoFunction j)) :
    Writes 0 (memoCode (target p) k m) fun body => ∃ code,
      body = stampTest (target p) k ++ [.when (code ++ stampCode (target p) k m)] ++
        (cacheGlobals (target p) k m).map .globalGet ∧ Calls calls 0 code := by
  have hproduce : Writes 0 (Compiler.produce p (p.nodes.size + 1) m.source) (Calls calls 0) :=
    writes_produce hp hrank hi hmemo (Nat.le_refl _)
  rw [memoCode_eq]
  exact writes_bind hproduce fun code hcode => writes_pure ⟨code, rfl, hcode⟩

theorem writes_memoCallable (leads : NodeId → Nat) (hp : p.WellFormed)
    (hrank : p.Falls p.Reads reads)
    (k : MemoId) (m : MemoPoint) : Writes 0 (memoCode (target p) k m) fun body => ∃ code,
      body = stampTest (target p) k ++ [.when (code ++ stampCode (target p) k m)] ++
        (cacheGlobals (target p) k m).map .globalGet ∧
      Calls (Callable p reads leads (reads m.source.node) 0) 0 code :=
  writes_memoCode hp hrank callsImports_callable.readers k m fun _ _ hk hlt => .memo hk hlt

theorem leads_entry_lt (hp : p.WellFormed) (hrank' : p.Falls p.Leads leads) :
    ∀ id ∈ p.entryPoints, leads id < p.nodes.size := by
  intro id hid
  obtain ⟨n, hget, -⟩ := hp.entryPoints id hid
  exact hrank'.bounded _ (Array.getElem?_eq_some_iff.mp hget).1

theorem leads_lt (hp : p.WellFormed) (hrank' : p.Falls p.Leads leads) (hget : p.nodes[id]? = some n)
    {ids : List NodeId} (hids : ids ∈ n.controls) : ∀ t ∈ ids, leads t < p.nodes.size := by
  intro t ht
  obtain ⟨m, hm, -⟩ := (hp.nodes id n hget).targets ids hids t ht
  exact hrank'.bounded _ (Array.getElem?_eq_some_iff.mp hm).1

/-- The frame function counts the frame before anything else. -/
theorem writes_frameCode (hp : p.WellFormed) (hrank : p.Falls p.Reads reads)
    (hrank' : p.Falls p.Leads leads) : Writes 0 (frameCode (target p)) fun body => ∃ chains,
      body = [.globalGet Target.frameGlobal, int 1, .numeric .i32Add,
        .globalSet Target.frameGlobal] ++ chains ∧
      Calls (Callable p reads leads p.nodes.size p.nodes.size) 0 chains := by
  refine writes_bind (writes_mapM fun entry hentry => writes_chainCode hp hrank hrank' ?_)
    fun codes hcodes => writes_pure ⟨_, rfl, calls_flatten hcodes⟩
  intro id hid
  rw [List.mem_singleton.mp hid]
  exact leads_entry_lt hp hrank' entry hentry

theorem writes_lateCode (hp : p.WellFormed) (hrank : p.Falls p.Reads reads)
    (hrank' : p.Falls p.Leads leads) : Writes lo (lateCode (target p))
      (Calls (Callable p reads leads p.nodes.size p.nodes.size) lo) := by
  refine writes_bind (writes_mapM fun id _ => ?_) fun _ hcodes => writes_pure (calls_flatten hcodes)
  refine writes_lift fun n hnode => ?_
  have hget := Program.getElem?_of_node hnode
  refine writes_bind (writes_branch (fun ids hids lo =>
    writes_chainCode hp hrank hrank' (leads_lt hp hrank' hget hids)) 0) fun body hbody => ?_
  exact writes_pure (calls_cons (fun _ => trivial) (calls_cons (fun _ => trivial)
    (calls_cons (fun _ => trivial) (calls_when hbody))))

theorem writes_outlinedCode (hp : p.WellFormed) (hrank : p.Falls p.Reads reads)
    (hrank' : p.Falls p.Leads leads) (id : NodeId) : Writes 0 (outlinedCode (target p) id)
      (Calls (Callable p reads leads p.nodes.size (leads id)) 0) := by
  refine writes_lift fun n hnode => ?_
  have hget := Program.getElem?_of_node hnode
  have hchain : ∀ ids, (∀ t ∈ ids, ids ∈ n.controls) → ∀ lo, Writes lo (chainCode (target p) ids)
      (Calls (Callable p reads leads p.nodes.size (leads id)) lo) := by
    refine fun ids hids lo => writes_chainCode hp hrank hrank' fun t ht => ?_
    exact hrank'.falls id t ⟨n, ids, hget, hids t ht, ht⟩
  refine writes_bind (writes_node hp hrank hget fun ids hids => hchain ids fun _ _ => hids)
    fun code hcode => ?_
  refine writes_bind (hchain _ (fun _ ht => after_mem ht) 0) fun rest hrest => ?_
  exact writes_pure (calls_append hcode hrest)

end Compiler
end SignalGraph
