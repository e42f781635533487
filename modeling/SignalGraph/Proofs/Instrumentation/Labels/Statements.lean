import SignalGraph.Proofs.Emission.TotalCalls
import SignalGraph.Proofs.Instrumentation.Labels.Code
import SignalGraph.Proofs.Instrumentation.Weaves

/-!
# Labelled statements

Where the labels lie in the functions of a program.  Without its labels a function is the one that
is compiled, and the labels in it are those that control comes to from where the function starts.
-/

namespace SignalGraph

/-- The branches with code within that of the node.  A late update leaves its body to the late
tasks. -/
def Node.inner (n : Node) : List (List NodeId) :=
  if n.kind = .statement .lateUpdate then [] else n.controls.dropLast

/-- A statement has the branches of its shape, and a list of what runs after it. -/
theorem Node.Fits.length_branches {p : Program} {id : NodeId} {n : Node} (h : n.Fits p id)
    {st : Statement}
    (hkind : n.kind = .statement st) : n.controls.dropLast.length = st.shape.branches.length := by
  have hplain := h.plain
  rw [hkind] at hplain
  have hactive : n.kind.shape.active = true := by
    rw [hkind]
    exact (Statement.hasDataInputs st hplain).2
  rw [List.length_dropLast, h.controls, if_pos hactive, hkind]
  rfl

/-- A statement has code within it for each of its branches, unless it leaves that to the late
tasks. -/
theorem Node.Fits.within {p : Program} {id : NodeId} {n : Node} (h : n.Fits p id) {st : Statement}
    (hkind : n.kind = .statement st) : n.within st = n.inner := by
  have hlen := h.length_branches hkind
  unfold Node.inner Node.within
  rw [hkind]
  cases st <;> first | rfl | exact List.take_of_length_le (Nat.le_of_eq hlen)

namespace Compiler

open Wasm

/-- Everything that is come to in so many steps, each before what follows it. -/
def unroll {α : Type} (next : α → List α) : (depth : Nat) → List α → List α
  | 0, _ => []
  | depth + 1, as => as.flatMap fun a => a :: unroll next depth (next a)

section

variable {α ι : Type} {next : α → List α}

theorem unroll_nil : ∀ depth, unroll next depth [] = []
  | 0 => rfl
  | _ + 1 => rfl

theorem unroll_append (as bs : List α) :
    ∀ depth, unroll next depth (as ++ bs) = unroll next depth as ++ unroll next depth bs
  | 0 => rfl
  | _ + 1 => List.flatMap_append

theorem unroll_flatMap (f : ι → List α) (is : List ι) (depth : Nat) :
    unroll next depth (is.flatMap f) = is.flatMap fun i => unroll next depth (f i) := by
  induction is with
  | nil => exact unroll_nil depth
  | cons i is ih => rw [List.flatMap_cons, unroll_append, ih, List.flatMap_cons]

end

namespace Target

variable (x : Target)

/-- Labels of the statements that are emitted at a site.  Those with functions of their own are
called. -/
def placed (site : Site) (ids : List NodeId) : List Label :=
  (ids.filter fun id => !x.outlined.contains id).map (⟨site, ·⟩)

/-- Labels of the statements whose code is emitted where the one of a label leads to them. -/
def next (l : Label) : List Label :=
  match x.program.nodes[l.node]? with
  | none => []
  | some n => x.placed (.inside l.node) n.inner.flatten ++ x.placed (.behind l.node) n.after

def postponed (id : NodeId) : List Label :=
  match x.program.nodes[id]? with
  | none => []
  | some n => x.placed (.late id) n.controls.dropLast.flatten

def starts (i : Nat) : List Label :=
  if i = 0 then x.placed .frame x.program.entryPoints
  else if i = 1 then x.program.lateNodes.flatMap x.postponed
  else if i < 2 + x.program.memoPoints.length then []
  else (x.outlined[i - (2 + x.program.memoPoints.length)]?).toList.map (⟨.own, ·⟩)

theorem placed_append (site : Site) (a b : List NodeId) :
    x.placed site (a ++ b) = x.placed site a ++ x.placed site b := by
  rw [placed, List.filter_append, List.map_append, placed, placed]

theorem placed_flatMap {ι : Type} (site : Site) (f : ι → List NodeId) (is : List ι) :
    x.placed site (is.flatMap f) = is.flatMap fun i => x.placed site (f i) := by
  induction is with
  | nil => rfl
  | cons i is ih => rw [List.flatMap_cons, placed_append, ih, List.flatMap_cons]

end Target

variable {x : Target} {p : Program} {n : Node} {id : NodeId} {depth : Nat} {site : Site}
  {L : List NodeId → List Label}

/-- The labels of a chain are those of its statements. -/
theorem unroll_placed (ids : List NodeId) : unroll x.next (depth + 1) (x.placed site ids) =
    ids.flatMap fun id => if x.outlined.contains id then []
      else ⟨site, id⟩ :: unroll x.next depth (x.next ⟨site, id⟩) := by
  rw [unroll, Target.placed, List.flatMap_map]
  induction ids with
  | nil => rfl
  | cons id ids ih =>
    rw [List.filter_cons, List.flatMap_cons, ← ih]
    cases hid : x.outlined.contains id <;> simp

/-- Code that bears the labels of the statements within it. -/
def Bearing (x : Target) (L : List NodeId → List Label) : Weaving := fun B _ a' a _ =>
  Bears x (B.flatMap L) a' a

theorem weave_bearing : Weave (Unlabelled x) (Bearing x L) where
  append ha hb := by
    unfold Bearing
    rw [List.flatMap_append]
    exact bears_append ha hb
  straight h := bears_calls (calls_of_straight h)
  spill _ _ _ := bears_calls (calls_map fun _ _ _ => Nat.zero_le _)
  gets is _ := bears_calls (calls_getLocals is)
  when := bears_when
  ifElse _ ha hb := by
    unfold Bearing
    rw [List.flatMap_append]
    exact bears_ifElse _ ha hb
  rounds {_ _ _ _ k count _ _} _ _ h := by
    have htest : confined (limits (Unlabelled x) 0) 2
        [.localGet k, .localGet count, .numeric .i32GeU, .brIf 1] :=
      ⟨trivial, trivial, trivial, Nat.one_lt_two, confined_nil⟩
    have hagain : confined (limits (Unlabelled x) 0) 2
        [.localGet k, int 1, .numeric .i32Add, .localSet k, .br 0] :=
      ⟨trivial, trivial, trivial, Nat.zero_le _, Nat.zero_lt_two, confined_nil⟩
    have hround := bears_append (bears_append (bears_confined (fun _ hf => hf) htest) h)
      (bears_confined (fun _ hf => hf) hagain)
    rw [List.append_nil] at hround
    exact bears_block_loop hround

theorem saves_bearing : Saves (fun _ _ => True) n (Bearing x L) where
  lays := ⟨trivial, fun _ => trivial, fun _ => trivial, fun _ _ => trivial, fun _ _ => trivial⟩
  store {_ _ _ _ _ _ _ slot f} _ _ h _ := by
    have hslot : Bears x [] [Compiler.id slot] [Compiler.id slot] := bears_calls (calls_int _)
    have hset : Bears x [] [callImport (.setSlot f)] [callImport (.setSlot f)] :=
      bears_calls (calls_callImport (x.index_lt_firstMark _))
    exact bears_append (bears_append hslot h) hset
  forget h := h
  ended _ h := h

variable (hx : x.program.WellFormed)
include hx

/-- A statement has its own label, and those of the branches within its code. -/
theorem parallels_labelled (hget : x.program.nodes[id]? = some n) {st : Statement}
    (hkind : n.kind = .statement st) {chain' chain : List NodeId → Emit Code}
    (hchain : ∀ ids ∈ n.controls, Pairs (chain' ids) (chain ids) (Bears x (L ids))) :
    Pairs ((labelling x).statement x site chain' id n st)
      (statement (produce x.program (x.program.nodes.size + 1)) chain id n st)
      (Bears x (⟨site, id⟩ :: n.inner.flatMap L)) := by
  have hreads : Reads (Unlabelled x) (produce x.program (x.program.nodes.size + 1)) n :=
    reads_produce hx callsImports_unlabelled.readers (fun _ _ => x.memoFunction_lt_firstMark) hget
  have hfollows : Follows (Bearing x L) ((labelling x).branches chain' id) chain n :=
    fun ids hids l => (hchain ids hids l).map fun _ _ _ hbody _ => by
      unfold Bearing
      rwa [List.flatMap_singleton]
  have hstatement := weave_bearing.parallels_statement saves_bearing
    (permits_of_readers callsImports_unlabelled.readers)
    (feeds_reads hreads fun hcode _ => bears_calls hcode) hfollows
    (fun _ _ _ _ _ _ => trivial) id hkind
  rw [(hx.nodes id n hget).within hkind] at hstatement
  rw [plain_labelling.statement_eq]
  refine fun l => (hstatement l).map fun _ code' code ⟨_, hcode⟩ => ?_
  show Bears x _ ([x.mark Label.marks ⟨site, id⟩] ++ code' ++ []) code
  rw [List.append_nil]
  exact bears_append (bears_label ⟨site, id⟩) hcode

/-- The labels in a chain are those of its statements and of all that these lead to. -/
theorem carries_labelling : (labelling x).Carries x (fun _ => True)
    (fun depth site id _ _ a' a => ∀ n, x.program.nodes[id]? = some n →
      Bears x (⟨site, id⟩ :: unroll x.next depth (x.placed (.inside id) n.inner.flatten)) a' a)
    (fun depth site id _ _ => Bears x (⟨site, id⟩ :: unroll x.next depth (x.next ⟨site, id⟩)))
    fun depth site ids _ _ => Bears x (unroll x.next depth (x.placed site ids)) where
  closed _ _ _ _ _ := trivial
  nil depth _ _ := (unroll_nil depth).symm ▸ bears_nil
  cons {depth site id ids _ _ _ _ _ _ _} ha hb := by
    rw [← List.singleton_append, Target.placed_append, unroll_append]
    exact bears_append ha hb
  around h := h
  call {depth site i id l} _ hi := by
    have hcontains : x.outlined.contains id = true :=
      List.contains_iff_mem.mpr (List.mem_of_getElem? hi)
    rw [unroll_placed, List.flatMap_singleton, if_pos hcontains]
    exact bears_calls (calls_cons (fun _ => x.outlinedFunction_lt_firstMark hi) calls_nil)
  statement {depth site id n st _ _} hget hkind hchain := by
    refine fun l => (parallels_labelled hx hget hkind hchain l).mono fun _ _ _ hcode n' hget' => ?_
    cases hget.symm.trans hget'
    rwa [← List.flatMap_id, Target.placed_flatMap, unroll_flatMap]
  followed {depth site id n _ _ _ _ _ _ _} hget ha hb := by
    have hnext : x.next ⟨site, id⟩ = x.placed (.inside id) n.inner.flatten ++
        x.placed (.behind id) n.after := by
      rw [Target.next, hget]
    rw [hnext, unroll_append]
    exact bears_append (ha n hget) hb
  single {_ site id _ _ _ _} hcontains h := by
    rw [unroll_placed, List.flatMap_singleton, hcontains]
    exact h

theorem labelled_frame : Pairs ((labelling x).frameCode x) (frameCode x)
    (Bears x (unroll x.next (x.program.nodes.size + 1) (x.starts 0))) := by
  refine fun l => ((carries_labelling hx).parallels_frame (fun _ _ => trivial) l).mono ?_
  rintro _ _ _ ⟨b', b, rfl, rfl, hb⟩
  have hcount : confined (bodyLimits (Unlabelled x)) 0 frameCount :=
    ⟨trivial, trivial, trivial, trivial, trivial⟩
  exact bears_append (bears_confined (fun _ hf => hf) hcount) hb

theorem labelled_late : Pairs ((labelling x).lateCode x) (lateCode x)
    (Bears x (unroll x.next (x.program.nodes.size + 1) (x.starts 1))) := by
  have hstarts : x.starts 1 = x.program.lateNodes.flatMap x.postponed := rfl
  rw [hstarts]
  refine (carries_labelling hx).parallels_late (T := fun tasks _ _ => Bears x
    (unroll x.next (x.program.nodes.size + 1) (tasks.flatMap x.postponed)))
    (fun _ _ _ _ => trivial) (fun _ => (unroll_nil _).symm ▸ bears_nil) (fun ha hb => ?_) ?_
  · rw [← List.singleton_append, List.flatMap_append, unroll_append]
    exact bears_append ha hb
  · intro id n ids _ _ b' b hid hget hids hbody
    obtain ⟨n', hget', hkind⟩ := Program.mem_lateNodes.mp hid
    cases hget.symm.trans hget'
    obtain ⟨ids', hids'⟩ := List.length_eq_one_iff.mp ((hx.nodes id n hget).length_branches hkind)
    have hpostponed : x.postponed id = x.placed (.late id) ids := by
      rw [Node.branch, hids'] at hids
      cases hids
      rw [Target.postponed, hget]
      dsimp only
      rw [hids']
      exact congrArg (x.placed _) (List.append_nil _)
    have htest : Calls (Unlabelled x) 0 [.localGet 0, Compiler.id id, .numeric .i32Eq] :=
      calls_cons (fun _ => trivial)
        (calls_cons (fun _ => trivial) (calls_cons (fun _ => trivial) calls_nil))
    rw [List.flatMap_singleton, hpostponed]
    exact bears_append (bears_calls htest) (bears_when hbody)

/-- The label of a statement with a function of its own comes first in that function. -/
theorem labelled_own : Pairs ((labelling x).node x ((labelling x).chainCode x) .own id)
    (outlinedCode x id) (Bears x (unroll x.next (x.program.nodes.size + 2) [⟨.own, id⟩])) := by
  rw [unroll, List.flatMap_singleton]
  exact (carries_labelling hx).parallels_own fun _ _ _ _ => trivial

omit hx

section

variable {i : Nat} {id : NodeId}

/-- The functions of memo points come right after those that run frames and late tasks. -/
theorem starts_memo {k : MemoId} (h : 2 + k < 2 + p.memoPoints.length) :
    (target p).starts (2 + k) = [] := by
  rw [Target.starts, if_neg (by omega), if_neg (by omega)]
  exact if_pos h

theorem starts_outlined (h : (target p).outlined[i]? = some id) :
    (target p).starts (2 + p.memoPoints.length + i) = [⟨.own, id⟩] := by
  have hpast : ¬2 + p.memoPoints.length + i < 2 + (target p).program.memoPoints.length :=
    Nat.not_lt.mpr (Nat.le_add_right _ _)
  rw [Target.starts, if_neg (by omega), if_neg (by omega), if_neg hpast]
  show ((target p).outlined[2 + p.memoPoints.length + i - (2 + p.memoPoints.length)]?).toList.map _
    = _
  rw [Nat.add_sub_cancel_left, h]
  rfl

end

section

theorem labelled_memo (hp : p.WellFormed) {k : MemoId} {m : MemoPoint} {f : Function}
    (hf : function { params := [], results := m.type.lanes } (memoCode (target p) k m) = .ok f) :
    Bears (target p) [] f.body f.body := by
  obtain ⟨reads, hrank⟩ := hp.reads
  have hmemo : ∀ (j : MemoId) (m' : MemoPoint), p.memoPoints[j]? = some m' →
      reads m'.source.node < reads m.source.node → Unlabelled (target p) (Target.memoFunction j) :=
    fun j m' hj _ => (target p).memoFunction_lt_firstMark hj
  obtain ⟨code, hbody, hcode⟩ := body_of_writes hf
    (writes_memoCode hp hrank callsImports_unlabelled.readers k m hmemo)
  rw [hbody]
  exact bears_confined (fun _ hf => hf) (confined_memo hcode k m)

theorem labelled_recode {m : Wasm.Module} {i : Nat} {f : Function}
    (hf : m.functions.toList[i]? = some f)
    {type : FunctionType} {emit' emit : Emit Code} {l : List Label}
    (hcode : function type emit = .ok f)
    (hlabelled : (labelling x).code x i = some emit') (h : Pairs emit' emit (Bears x l)) :
    ∃ body, (labelledFunctions x m)[i]? = some { f with body } ∧ Bears x l body f.body := by
  obtain ⟨body, _, heq, -, hbody⟩ := Instrumentation.recode_eq hcode hlabelled (h _)
  refine ⟨body, ?_, hbody⟩
  rw [labelledFunctions, Instrumentation.getElem?_functions hf, heq]

/-- Every function is the one with labels without them, and the labels in it are those that control
comes to from where it starts. -/
theorem labelled_function (hp : p.WellFormed) {m : Wasm.Module} (hm : Compiled p m) {i : Nat}
    {f : Function}
    (hf : m.functions.toList[i]? = some f) :
    ∃ body, (labelledFunctions (target p) m)[i]? = some { f with body } ∧
      ∃ depth, p.nodes.size < depth ∧
        Bears (target p) (unroll (target p).next depth ((target p).starts i)) body f.body := by
  have hx : (target p).program.WellFormed := hp
  rcases hm.functions.numbered hf with
    ⟨rfl, hframe⟩ | ⟨rfl, hlate⟩ | ⟨k, point, rfl, hk, hcode⟩ | ⟨j, id, rfl, hj, hcode⟩
  · obtain ⟨body, hbody, hbears⟩ := labelled_recode hf hframe rfl (labelled_frame hx)
    exact ⟨body, hbody, _, Nat.lt_succ_self _, hbears⟩
  · obtain ⟨body, hbody, hbears⟩ := labelled_recode hf hlate rfl (labelled_late hx)
    exact ⟨body, hbody, _, Nat.lt_succ_self _, hbears⟩
  · have hmemo : 2 + k < 2 + p.memoPoints.length :=
      Nat.add_lt_add_left (List.getElem?_eq_some_iff.mp hk).1 2
    refine ⟨f.body, ?_, _, Nat.lt_succ_self _, ?_⟩
    · rw [labelledFunctions, Instrumentation.getElem?_functions hf]
      exact congrArg some (plain_labelling.recode_memo hk rfl rfl hcode)
    · rw [starts_memo hmemo, unroll_nil]
      exact labelled_memo hp hcode
  · obtain ⟨body, hbody, hbears⟩ :=
      labelled_recode hf hcode (Instrumentation.code_outlined hj) (labelled_own hx)
    refine ⟨body, hbody, _, Nat.lt_succ_of_lt (Nat.lt_succ_self _), ?_⟩
    exact (starts_outlined hj).symm ▸ hbears

end

end Compiler
end SignalGraph
