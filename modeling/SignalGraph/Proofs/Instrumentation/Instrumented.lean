import SignalGraph.Proofs.Emission.Functions
import SignalGraph.Proofs.Emulation.Frames
import SignalGraph.Proofs.Instrumentation.Pairs

/-!
# Instrumented code

The code of a program with something extra in that of its statements.  Chains and functions are made
as without it.

Main statements: what passes from statements to chains holds of the codes of all functions.
-/

namespace SignalGraph
namespace Compiler

open Wasm

/-- Where the code of a statement stands. -/
inductive Site where
  /-- In the function that runs frames. -/
  | frame
  /-- At the head of a function of its own. -/
  | own
  /-- In the body of a late task, in the function that runs late tasks. -/
  | late (task : NodeId)
  /-- In a branch, within the code of the statement that has the branch. -/
  | inside (before : NodeId)
  /-- Right behind the code of the statement before it. -/
  | behind (before : NodeId)
  deriving DecidableEq

/-- The body of a late task runs if its number is the parameter. -/
def lateTest (task : NodeId) (body : Code) : Code :=
  [.localGet 0, id task, .numeric .i32Eq, .when body]

/-- What is emitted next to the code of a program. -/
structure Instrumentation where
  /-- Around the code of an output that is read, of a statement, and of a chain. -/
  around : Emit Code → Emit Code := fun emit => emit
  /-- How a node asks for an input, given how outputs are read. -/
  asks : (Producer → Emit Code) → NodeId → Node → Producer → Emit Code := fun produce _ _ => produce
  /-- The node that asks. -/
  asking : Node → Node := fun n => n
  entered : Site → NodeId → Code := fun _ _ => []
  /-- In front of a branch of a statement. -/
  branched : NodeId → Code := fun _ => []
  left : NodeId → Code := fun _ => []
  /-- Where the computation of a memo point begins. -/
  computing : MemoId → MemoPoint → Code := fun _ _ => []
  /-- Where a memo point has been computed and is not stored yet. -/
  computed : MemoId → MemoPoint → Code := fun _ _ => []

/-- A function with other code, if it has any. -/
def recode (code : Option (Emit Code)) (f : Function) : Function :=
  match code with
  | none => f
  | some code =>
    match code.run { params := f.type.params.length } with
    | .ok (body, _) => { f with body }
    | .error _ => f

namespace Instrumentation

variable (A : Instrumentation) (x : Target)

def produce : (depth : Nat) → Producer → Emit Code
  | 0, source => throw (.breach (.noNode source.node))
  | depth + 1, source => A.around do
    let n ← x.program.node source.node
    if n.statement then readSlot x.program n source.output
    else match n.kind with
      | .expression e =>
        evaluate (A.asks (produce depth) source.node n) (A.asking n) source.output e
      | kind => throw (.breach (.notExpression kind n.pos))

def branches (chain : List NodeId → Emit Code) (i : NodeId) (ids : List NodeId) : Emit Code := do
  return A.branched i ++ (← chain ids)

def statement (site : Site) (chain : List NodeId → Emit Code) (i : NodeId) (n : Node)
    (st : Statement) : Emit Code := A.around do
  let asks := A.asks (A.produce x (x.program.nodes.size + 1)) i n
  let code ← Compiler.statement asks (A.branches chain i) i (A.asking n) st
  return A.entered site i ++ code ++ A.left i

def statementCode (site : Site) (chain : List NodeId → Emit Code) (i : NodeId) (n : Node) :
    Emit Code :=
  match n.kind with
  | .statement st => A.statement x site chain i n st
  | kind => throw (.breach (.notStatement kind n.pos))

/-- A statement with all that follows it. -/
def node (chain : Site → List NodeId → Emit Code) (site : Site) (i : NodeId) : Emit Code := do
  let n ← x.program.node i
  let code ← A.statementCode x site (chain (.inside i)) i n
  return code ++ (← chain (.behind i) n.after)

def chain : (depth : Nat) → Site → List NodeId → Emit Code
  | 0, _, ids => do return (← ids.mapM fun i => throw (.breach (.noNode i))).flatten
  | depth + 1, site, ids => A.around do
    return (← ids.mapM fun i => do
      if x.outlined.contains i then return [.call (x.outlinedFunction (x.outlined.idxOf i))]
      A.node x (chain depth) site i).flatten

def chainCode (site : Site) (ids : List NodeId) : Emit Code :=
  A.chain x (x.program.nodes.size + 1) site ids

def frameCode : Emit Code := do
  let chains ← x.program.entryPoints.mapM fun entry => A.chainCode x .frame [entry]
  return [.globalGet Target.frameGlobal, int 1, .numeric .i32Add,
    .globalSet Target.frameGlobal] ++ chains.flatten

def lateCode : Emit Code := do
  let bodies ← x.program.lateNodes.mapM fun i => do
    let n ← x.program.node i
    let body ← branch (A.chainCode x (.late i)) n 0
    return [.localGet 0, id i, .numeric .i32Eq, .when body]
  return bodies.flatten

def memoCode (k : MemoId) (m : MemoPoint) : Emit Code := do
  let code ← A.produce x (x.program.nodes.size + 1) m.source
  return stampTest x k ++
    [.when (A.computing k m ++ (code ++ (A.computed k m ++ stampCode x k m)))] ++
    (cacheGlobals x k m).map .globalGet

/-- The code of the function of number `i`. -/
def code (i : Nat) : Option (Emit Code) :=
  if i = 0 then some (A.frameCode x)
  else if i = 1 then some (A.lateCode x)
  else if i < 2 + x.program.memoPoints.length then
    (x.program.memoPoints[i - 2]?).map (A.memoCode x (i - 2))
  else (x.outlined[i - (2 + x.program.memoPoints.length)]?).map (A.node x (A.chainCode x) .own)

/-- The functions of a module with the extra code in theirs. -/
def functions (m : Wasm.Module) : List Function :=
  m.functions.toList.mapIdx fun i f => recode (A.code x i) f

def module (m : Wasm.Module) : Wasm.Module := { m with functions := (A.functions x m).toArray }

variable {A x} {m : Wasm.Module} {i : Nat} {f : Function}

theorem code_memo {k : MemoId} {point : MemoPoint} (h : x.program.memoPoints[k]? = some point) :
    A.code x (2 + k) = some (A.memoCode x k point) := by
  have hlt : 2 + k < 2 + x.program.memoPoints.length :=
    Nat.add_lt_add_left (List.getElem?_eq_some_iff.mp h).1 2
  rw [code, if_neg (by omega), if_neg (by omega), if_pos hlt, Nat.add_sub_cancel_left, h]
  rfl

theorem code_outlined {id : NodeId} (h : x.outlined[i]? = some id) :
    A.code x (2 + x.program.memoPoints.length + i) = some (A.node x (A.chainCode x) .own id) := by
  have hpast : ¬2 + x.program.memoPoints.length + i < 2 + x.program.memoPoints.length :=
    Nat.not_lt.mpr (Nat.le_add_right _ _)
  rw [code, if_neg (by omega), if_neg (by omega), if_neg hpast, Nat.add_sub_cancel_left, h]
  rfl

theorem length_functions : (A.functions x m).length = m.functions.toList.length :=
  List.length_mapIdx

theorem getElem?_functions (hf : m.functions.toList[i]? = some f) :
    (A.functions x m)[i]? = some (recode (A.code x i) f) := by
  rw [functions, List.getElem?_mapIdx, hf, Option.map_some]

/-- What undoes the change of each function gives the functions back. -/
theorem map_functions {g : Function → Function}
    (h : ∀ {i : Nat} {f : Function}, m.functions.toList[i]? = some f →
      ((A.functions x m)[i]?).map g = some f) :
    (A.functions x m).map g = m.functions.toList := by
  refine List.ext_getElem? fun i => ?_
  rw [List.getElem?_map]
  cases hf : m.functions.toList[i]? with
  | none =>
    rw [List.getElem?_eq_none (length_functions ▸ List.getElem?_eq_none_iff.mp hf)]
    rfl
  | some f => exact h hf

theorem getElem?_module (hf : m.functions.toList[i]? = some f) :
    (A.module x m).functions[i]? = some (recode (A.code x i) f) := by
  rw [module, List.getElem?_toArray, getElem?_functions hf]

/-- A function has the code that is emitted for it, which takes the same locals. -/
theorem recode_eq {type : FunctionType} {emit' emit : Emit Code}
    {Q : Locals → Code → Code → Prop} (hf : function type emit = .ok f)
    (hcode : A.code x i = some emit')
    (h : Parallels { params := f.type.params.length } emit' emit Q) :
    ∃ body l, recode (A.code x i) f = { f with body } ∧ f.locals = l.types ∧ Q l body f.body := by
  obtain ⟨l, hemit, htype, hlocals⟩ := function_eq_ok.mp hf
  rw [← htype] at hemit
  obtain ⟨body, hbody, hQ⟩ := h _ l hemit
  refine ⟨body, l, ?_, hlocals, hQ⟩
  have hrun : emit'.run { params := f.type.params.length } = .ok (body, l) := hbody
  rw [hcode, recode, hrun]

/-- A function without anything extra stays as it is. -/
theorem recode_self {type : FunctionType} {emit : Emit Code} (hf : function type emit = .ok f)
    (hcode : A.code x i = some emit) : recode (A.code x i) f = f := by
  obtain ⟨body, -, heq, -, hbody⟩ := recode_eq (Q := fun _ a b => a = b) hf hcode
    (parallels_self fun _ _ _ => rfl)
  rw [heq, hbody]

/-- Nothing extra in the code of expressions. -/
structure Plain (A : Instrumentation) : Prop where
  around : A.around = fun emit => emit
  asks : A.asks = fun produce _ _ => produce
  asking : A.asking = fun n => n

namespace Plain

variable (h : A.Plain)
include h

theorem produce_eq : ∀ {depth : Nat} {source : Producer},
    A.produce x depth source = Compiler.produce x.program depth source
  | 0, _ => rfl
  | depth + 1, source => by
    have hlower : A.produce x depth = Compiler.produce x.program depth := funext fun _ => produce_eq
    rw [produce, hlower, h.around, h.asks, h.asking]
    rfl

theorem statement_eq {site : Site} {chain : List NodeId → Emit Code} {id : NodeId} {n : Node}
    {st : Statement} : A.statement x site chain id n st = do
      return A.entered site id ++
        (← Compiler.statement (Compiler.produce x.program (x.program.nodes.size + 1))
          (A.branches chain id) id n st) ++ A.left id := by
  have hproduce : A.produce x (x.program.nodes.size + 1) =
      Compiler.produce x.program (x.program.nodes.size + 1) := funext fun _ => h.produce_eq
  rw [statement, hproduce, h.around, h.asks, h.asking]

theorem memoCode_eq {k : MemoId} {point : MemoPoint} (hcomputing : A.computing k point = [])
    (hcomputed : A.computed k point = []) : A.memoCode x k point = Compiler.memoCode x k point := by
  rw [memoCode, h.produce_eq, hcomputing, hcomputed, Compiler.memoCode_eq]
  rfl

theorem recode_memo {k : MemoId} {point : MemoPoint} {type : FunctionType}
    (hk : x.program.memoPoints[k]? = some point) (hcomputing : A.computing k point = [])
    (hcomputed : A.computed k point = [])
    (hf : function type (Compiler.memoCode x k point) = .ok f) :
    recode (A.code x (2 + k)) f = f := by
  have hcode := A.code_memo hk
  rw [h.memoCode_eq hcomputing hcomputed] at hcode
  exact recode_self hf hcode

end Plain

/-- Nothing extra but in the code of memo points. -/
structure OfMemoPoints (A : Instrumentation) : Prop extends A.Plain where
  entered : ∀ site id, A.entered site id = []
  branched : ∀ id, A.branched id = []
  left : ∀ id, A.left id = []

namespace OfMemoPoints

variable (h : A.OfMemoPoints)
include h

theorem node_eq {chain' : Site → List NodeId → Emit Code} {chain : List NodeId → Emit Code}
    (hchain : ∀ site, chain' site = chain) {site : Site} {id : NodeId} :
    A.node x chain' site id = do
      let n ← x.program.node id
      let code ← Compiler.node x chain id n
      return code ++ (← chain n.after) := by
  have hbranches : A.branches chain id = chain := by
    funext ids
    rw [branches, h.branched]
    exact bind_pure _
  have hstatement : ∀ n st, A.statement x site chain id n st =
      Compiler.statement (Compiler.produce x.program (x.program.nodes.size + 1)) chain id n st := by
    intro n st
    rw [h.statement_eq, hbranches, h.entered, h.left]
    simp only [List.nil_append, List.append_nil, bind_pure]
  have hcode : ∀ n, A.statementCode x site chain id n = Compiler.node x chain id n := by
    intro n
    unfold statementCode Compiler.node
    cases n.kind with
    | statement st => exact hstatement n st
    | _ => rfl
  unfold node
  simp only [hchain, hcode]

theorem chain_eq : ∀ {depth : Nat} {site : Site}, A.chain x depth site = Compiler.chain x depth
  | 0, _ => rfl
  | depth + 1, site => by
    funext ids
    have hnode : ∀ id, A.node x (A.chain x depth) site id = _ := fun _ =>
      h.node_eq fun _ => chain_eq
    rw [chain, h.around]
    simp only [hnode]
    rfl

theorem chainCode_eq {site : Site} : A.chainCode x site = Compiler.chainCode x :=
  h.chain_eq

theorem frameCode_eq : A.frameCode x = Compiler.frameCode x := by
  rw [frameCode, h.chainCode_eq]
  rfl

theorem lateCode_eq : A.lateCode x = Compiler.lateCode x := by
  unfold lateCode
  simp only [h.chainCode_eq]
  rfl

theorem own_eq {id : NodeId} : A.node x (A.chainCode x) .own id = outlinedCode x id :=
  h.node_eq fun _ => h.chainCode_eq

end OfMemoPoints

/-- What holds of statements, of those with all that follows them, and of chains, each of so many
steps at most, passes from one to the other.  A chain comes to some statements only. -/
structure Carries (A : Instrumentation) (x : Target) (reached : NodeId → Prop)
    (S N : Nat → Site → NodeId → Locals → Locals → Code → Code → Prop)
    (R : Nat → Site → List NodeId → Locals → Locals → Code → Code → Prop) : Prop where
  closed : ∀ {id n ids}, reached id → x.program.nodes[id]? = some n → ids ∈ n.controls →
    ∀ t ∈ ids, reached t
  nil : ∀ depth site l, R depth site [] l l [] []
  cons : ∀ {depth site id ids l l₁ l' a' a b' b}, R depth site [id] l l₁ a' a →
    R depth site ids l₁ l' b' b → R depth site (id :: ids) l l' (a' ++ b') (a ++ b)
  around : ∀ {depth site ids emit' emit}, (∀ l, Parallels l emit' emit (R depth site ids l)) →
    ∀ l, Parallels l (A.around emit') emit (R depth site ids l)
  call : ∀ {depth site i id l}, reached id → x.outlined[i]? = some id →
    R (depth + 1) site [id] l l [.call (x.outlinedFunction i)] [.call (x.outlinedFunction i)]
  statement : ∀ {depth site id n st chain' chain}, x.program.nodes[id]? = some n →
    n.kind = .statement st →
    (∀ ids ∈ n.controls, ∀ l,
      Parallels l (chain' ids) (chain ids) (R depth (.inside id) ids l)) →
    ∀ l, Parallels l (A.statement x site chain' id n st)
      (Compiler.statement (Compiler.produce x.program (x.program.nodes.size + 1)) chain id n st)
      (S depth site id l)
  followed : ∀ {depth site id n l l₁ l' a' a b' b}, x.program.nodes[id]? = some n →
    S depth site id l l₁ a' a → R depth (.behind id) n.after l₁ l' b' b →
    N depth site id l l' (a' ++ b') (a ++ b)
  single : ∀ {depth site id l l' a' a}, x.outlined.contains id = false →
    N depth site id l l' a' a → R (depth + 1) site [id] l l' a' a

namespace Carries

variable {reached : NodeId → Prop}
  {S N : Nat → Site → NodeId → Locals → Locals → Code → Code → Prop}
  {R : Nat → Site → List NodeId → Locals → Locals → Code → Code → Prop} {id : NodeId}

variable (h : Carries A x reached S N R)
include h

theorem parallels_chains {depth : Nat} {site : Site} {f' f : NodeId → Emit Code}
    {ids : List NodeId}
    (hids : ∀ id ∈ ids, ∀ l, Parallels l (f' id) (f id) (R depth site [id] l)) (l : Locals) :
    Parallels l (do return (← ids.mapM f').flatten) (do return (← ids.mapM f).flatten)
      (R depth site ids l) :=
  parallels_bind (parallels_row (h.nil depth site) h.cons hids l) fun _ _ _ hcodes =>
    parallels_pure hcodes

/-- Only what the statement starts is to be reached. -/
theorem parallels_node {depth : Nat} {site : Site}
    {chain' : Site → List NodeId → Emit Code} {chain : List NodeId → Emit Code}
    (hchain : ∀ n, x.program.nodes[id]? = some n → ∀ site ids, (∀ t ∈ ids, ids ∈ n.controls) →
      ∀ l, Parallels l (chain' site ids) (chain ids) (R depth site ids l)) (l : Locals) :
    Parallels l (A.node x chain' site id)
      (do
        let n ← x.program.node id
        let code ← Compiler.node x chain id n
        return code ++ (← chain n.after)) (N depth site id l) := by
  refine parallels_lift fun n hnode => ?_
  have hget := Program.getElem?_of_node hnode
  have hafter := hchain n hget (.behind id) n.after fun _ ht => after_mem ht
  have hcode : Parallels l (A.statementCode x site (chain' (.inside id)) id n)
      (Compiler.node x chain id n) (S depth site id l) := by
    unfold statementCode Compiler.node
    cases hkind : n.kind with
    | statement st =>
      have hbranches := fun ids hids => hchain n hget (.inside id) ids fun _ _ => hids
      exact h.statement hget hkind hbranches l
    | _ => exact parallels_throw
  refine parallels_bind hcode fun l₁ _ _ ha => ?_
  exact parallels_bind (hafter l₁) fun _ _ _ hb => parallels_pure (h.followed hget ha hb)

/-- By induction on the depth. -/
theorem parallels_chain : ∀ {depth : Nat} {site : Site} {ids : List NodeId},
    (∀ id ∈ ids, reached id) → ∀ l, Parallels l (A.chain x depth site ids)
      (Compiler.chain x depth ids) (R depth site ids l)
  | 0, _, _, _ => h.parallels_chains fun _ _ _ => parallels_throw
  | depth + 1, site, ids, hids => by
    refine h.around (h.parallels_chains fun id hid l => ?_)
    cases hcontains : x.outlined.contains id with
    | true =>
      have hidx := List.getElem?_idxOf (List.contains_iff_mem.mp hcontains)
      exact parallels_pure (h.call (hids id hid) hidx)
    | false =>
      refine (h.parallels_node (fun n hget site targets htargets => parallels_chain fun t ht => ?_)
        l).mono fun _ _ _ => h.single hcontains
      exact h.closed (hids id hid) hget (htargets t ht) t ht

theorem parallels_own (hstarted : ∀ {n : Node} {ids}, x.program.nodes[id]? = some n →
      ids ∈ n.controls → ∀ t ∈ ids, reached t) (l : Locals) :
    Parallels l (A.node x (A.chainCode x) .own id) (outlinedCode x id)
      (N (x.program.nodes.size + 1) .own id l) :=
  h.parallels_node (fun _ hget _ _ htargets => h.parallels_chain fun t ht =>
    hstarted hget (htargets t ht) t ht) l

theorem parallels_frame (hentries : ∀ id ∈ x.program.entryPoints, reached id) (l : Locals) :
    Parallels l (A.frameCode x) (Compiler.frameCode x) fun l' a' a => ∃ b' b,
      a' = frameCount ++ b' ∧ a = frameCount ++ b ∧
      R (x.program.nodes.size + 1) .frame x.program.entryPoints l l' b' b := by
  refine parallels_bind (parallels_row (h.nil _ _) h.cons (fun entry hentry => ?_) l)
    fun _ _ _ hcodes => parallels_pure ⟨_, _, rfl, rfl, hcodes⟩
  exact h.parallels_chain fun id hid => List.mem_singleton.mp hid ▸ hentries entry hentry

/-- The late function tests for each of its tasks whether it is to run. -/
theorem parallels_late {T : List NodeId → Locals → Locals → Code → Code → Prop}
    (hreached : ∀ {id : NodeId} {n : Node} {ids}, x.program.nodes[id]? = some n →
      ids ∈ n.controls → ∀ t ∈ ids, reached t)
    (hnil : ∀ l, T [] l l [] [])
    (hcons : ∀ {id ids l l₁ l' a' a b' b}, T [id] l l₁ a' a → T ids l₁ l' b' b →
      T (id :: ids) l l' (a' ++ b') (a ++ b))
    (htest : ∀ {id n ids l l' b' b}, id ∈ x.program.lateNodes →
      x.program.nodes[id]? = some n → n.branch 0 = .ok ids →
      R (x.program.nodes.size + 1) (.late id) ids l l' b' b →
      T [id] l l' (lateTest id b') (lateTest id b)) (l : Locals) :
    Parallels l (A.lateCode x) (Compiler.lateCode x) (T x.program.lateNodes l) := by
  refine parallels_bind (parallels_row hnil hcons (fun id hid l => ?_) l) fun _ _ _ hcodes =>
    parallels_pure hcodes
  refine parallels_lift fun n hnode => ?_
  have hget := Program.getElem?_of_node hnode
  unfold branch
  rw [bind_assoc, bind_assoc]
  refine parallels_lift fun ids hids => ?_
  refine parallels_bind (h.parallels_chain (hreached hget (Interpreter.branch_mem hids)) l)
    fun _ _ _ hbody => parallels_pure (htest hid hget hids hbody)

end Carries

end Instrumentation

end Compiler
end SignalGraph
