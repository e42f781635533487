import SignalGraph.Proofs.Execution.Chains
import SignalGraph.Proofs.Execution.Soundness
import SignalGraph.Proofs.Instrumentation.Labels.Sites

/-!
# Outlined chains

The code of a chain is the code of its parts in a row, and a statement comes before what follows it,
or else it is the call of a function that holds both.  A loop over a stack emits the same code.

Main statement: chains compose, for the interpreter as for code, and it makes no difference to a run
whether a statement is called with what follows it, or stands where it is called.
-/

namespace SignalGraph
namespace Compiler

open Wasm Machine Interpreter

variable {x : Target} {n : Node} {chain chain' : List NodeId → Emit Code}

theorem branch_congr {i : Nat} (h : ∀ ids ∈ n.controls, chain ids = chain' ids) :
    branch chain n i = branch chain' n i := by
  unfold branch
  cases hi : n.branch i with
  | error fault => rfl
  | ok ids => exact h ids (branch_mem hi)

theorem statement_congr {produce : Producer → Emit Code}
    (h : ∀ ids ∈ n.controls, chain ids = chain' ids)
    (id : NodeId) (st : Statement) :
    statement produce chain id n st = statement produce chain' id n st := by
  cases st <;> simp only [statement, touchSensor, swipeSensor, collision, loop, branch_congr h]

theorem node_congr (h : ∀ ids ∈ n.controls, chain ids = chain' ids) (id : NodeId) :
    node x chain id n = node x chain' id n := by
  unfold node
  split
  · exact statement_congr h id _
  · rfl

/-- A statement with what follows it, or its call, given how chains are emitted. -/
def chained (x : Target) (chain : List NodeId → Emit Code) (i : NodeId) : Emit Code := do
  if x.outlined.contains i then return [.call (x.outlinedFunction (x.outlined.idxOf i))]
  let n ← x.program.node i
  let code ← node x chain i n
  return code ++ (← chain n.after)

def followed (first second : Emit Code) : Emit Code := do return (← first) ++ (← second)

def inRow (emit : NodeId → Emit Code) (ids : List NodeId) : Emit Code :=
  do return (← ids.mapM emit).flatten

theorem inRow_append (emit : NodeId → Emit Code) (xs ys : List NodeId) :
    inRow emit (xs ++ ys) = followed (inRow emit xs) (inRow emit ys) := by
  simp only [inRow, followed, List.mapM_append, List.flatten_append, bind_assoc, pure_bind]

theorem inRow_single (emit : NodeId → Emit Code) (id : NodeId) : inRow emit [id] = emit id := by
  simp only [inRow, List.mapM_cons, List.mapM_nil, List.flatten_cons, List.flatten_nil,
    List.append_nil, bind_assoc,
    pure_bind, bind_pure]

theorem inRow_cons (emit : NodeId → Emit Code) (id : NodeId) (rest : List NodeId) :
    inRow emit (id :: rest) = followed (emit id) (inRow emit rest) := by
  have happend := inRow_append emit [id] rest
  rwa [inRow_single] at happend

theorem inRow_congr {f g : NodeId → Emit Code} : ∀ {ids : List NodeId}, (∀ id ∈ ids, f id = g id) →
    inRow f ids = inRow g ids
  | [], _ => rfl
  | id :: rest, h => by
    have hrest : inRow f rest = inRow g rest :=
      inRow_congr fun i hi => h i (List.mem_cons_of_mem id hi)
    rw [inRow_cons, inRow_cons, h id List.mem_cons_self, hrest]

theorem chain_succ (depth : Nat) (ids : List NodeId) :
    Compiler.chain x (depth + 1) ids = inRow (chained x (Compiler.chain x depth)) ids := rfl

theorem chained_eq {id : NodeId} (hget : x.program.nodes[id]? = some n)
    (h : x.outlined.contains id = false) :
    chained x chain id = followed (node x chain id n) (chain n.after) := by
  unfold chained
  simp only [h]
  rw [Program.node_eq_ok hget]
  rfl

theorem chained_congr (hp : x.program.WellFormed) {id : NodeId}
    (hget : x.program.nodes[id]? = some n)
    (hs : n.statement = true) (h : ∀ ids ∈ n.controls, chain ids = chain' ids) :
    chained x chain id = chained x chain' id := by
  cases hout : x.outlined.contains id with
  | true =>
    unfold chained
    simp only [hout, if_true]
  | false =>
    rw [chained_eq hget hout, chained_eq hget hout, node_congr h,
      h _ ((hp.nodes id n hget).after hs)]

/-- Any depth beyond the ranks of the statements gives the same code. -/
theorem chain_depth (hp : x.program.WellFormed) {rank : NodeId → Nat}
    (hrank : x.program.Falls x.program.Leads rank) : ∀ {depth depth' : Nat} {ids : List NodeId},
    (∀ id ∈ ids, x.program.IsStatement id) → (∀ id ∈ ids, rank id < depth) →
      (∀ id ∈ ids, rank id < depth') →
      Compiler.chain x depth ids = Compiler.chain x depth' ids
  | 0, 0, _, _, _, _ => rfl
  | 0, _ + 1, [], _, _, _ => rfl
  | _ + 1, 0, [], _, _, _ => rfl
  | 0, _ + 1, id :: _, _, h, _ => absurd (h id List.mem_cons_self) (Nat.not_lt_zero _)
  | _ + 1, 0, id :: _, _, _, h => absurd (h id List.mem_cons_self) (Nat.not_lt_zero _)
  | depth + 1, depth' + 1, ids, hids, h, h' => by
    rw [chain_succ, chain_succ]
    refine inRow_congr fun id hid => ?_
    obtain ⟨n, hget, hs⟩ := hids id hid
    refine chained_congr hp hget hs fun targets htargets => ?_
    have hfall : ∀ target ∈ targets, rank target < rank id := fun target htarget =>
      hrank.falls id target ⟨n, targets, hget, htargets, htarget⟩
    have hlt := h id hid
    have hlt' := h' id hid
    refine chain_depth hp hrank ((hp.nodes id n hget).targets targets htargets) (fun t ht => ?_)
      fun t ht => ?_
    · have := hfall t ht
      omega
    · have := hfall t ht
      omega

/-- The code of a chain, without a depth. -/
theorem chainCode_eq (hp : x.program.WellFormed) {ids : List NodeId}
    (hids : ∀ id ∈ ids, x.program.IsStatement id) :
    chainCode x ids = inRow (chained x (chainCode x)) ids := by
  obtain ⟨rank, hrank⟩ := hp.leads
  rw [chainCode, chain_succ]
  refine inRow_congr fun id hid => ?_
  obtain ⟨n, hget, hs⟩ := hids id hid
  refine chained_congr hp hget hs fun targets htargets => ?_
  have hstatements := (hp.nodes id n hget).targets targets htargets
  refine chain_depth hp hrank hstatements (fun t ht => ?_)
    (rank_lt_of_isStatement hrank hstatements)
  obtain ⟨m, hm, -⟩ := hstatements t ht
  exact hrank.bounded t (Array.getElem?_eq_some_iff.mp hm).1

theorem chainCode_nil : chainCode x [] = pure [] := rfl

theorem chainCode_append (xs ys : List NodeId) :
    chainCode x (xs ++ ys) = followed (chainCode x xs) (chainCode x ys) :=
  inRow_append _ xs ys

/-- A statement that is not called comes before what follows it. -/
theorem chainCode_single (hp : x.program.WellFormed) {id : NodeId}
    (hget : x.program.nodes[id]? = some n)
    (hs : n.statement = true) (h : x.outlined.contains id = false) :
    chainCode x [id] = followed (node x (chainCode x) id n) (chainCode x n.after) := by
  have hid : ∀ i ∈ [id], x.program.IsStatement i :=
    fun i hi => List.mem_singleton.mp hi ▸ ⟨n, hget, hs⟩
  rw [chainCode_eq hp hid, inRow_single, chained_eq hget h]

theorem chainCode_called {id : NodeId} (h : x.outlined.contains id = true) :
    chainCode x [id] = pure [.call (x.outlinedFunction (x.outlined.idxOf id))] := by
  rw [chainCode, chain_succ, inRow_single, chained]
  simp only [h, if_true]

def behind (emit : Emit Code) : StateT Code Emit Unit := do
  let code ← emit
  modify (· ++ code)

def fromNone (emit : StateT Code Emit Unit) : Emit Code := do return (← emit.run []).2

/-- Emits a statement with what is within it.  What follows it is to be emitted next, unless it is
called. -/
def visit (x : Target) (enter : List NodeId → StateT Code Emit Unit) (i : NodeId) :
    StateT Code Emit (List NodeId) := do
  if x.outlined.contains i then
    behind (return [.call (x.outlinedFunction (x.outlined.idxOf i))])
    return []
  let n ← x.program.node i
  behind (node x (fun ids => fromNone (enter ids)) i n)
  return n.after

theorem behind_nil : behind (pure []) = pure () := by
  refine StateT.ext fun code => ?_
  simp [behind]

theorem behind_append (a b : Emit Code) :
    behind (followed a b) = (do behind a; behind b) := by
  refine StateT.ext fun code => ?_
  simp [behind, followed]

theorem fromNone_behind (emit : Emit Code) : fromNone (behind emit) = emit := by
  simp [fromNone, behind]

theorem visit_called {enter : List NodeId → StateT Code Emit Unit} {id : NodeId}
    (h : x.outlined.contains id = true) :
    visit x enter id = (do behind (chainCode x [id]); return []) := by
  rw [chainCode_called h]
  simp only [visit, h, if_true]

theorem visit_emitted {enter : List NodeId → StateT Code Emit Unit} {id : NodeId}
    (hget : x.program.nodes[id]? = some n) (h : x.outlined.contains id = false) :
    visit x enter id =
      (do behind (node x (fun ids => fromNone (enter ids)) id n); return n.after) := by
  simp only [visit, h]
  rw [Program.node_eq_ok hget]
  rfl

theorem unfolds_chainCode (hp : x.program.WellFormed) {weight : NodeId → Nat}
    (hweight : ∀ (id : NodeId) (n : Node),
      x.program.nodes[id]? = some n → StackLoop.total weight n.controls.flatten < weight id) :
    StackLoop.Unfolds (visit x)
      (fun ids => behind (chainCode x ids)) x.program.IsStatement weight := by
  refine ⟨behind_nil, fun a b => by rw [chainCode_append, behind_append],
    fun id ⟨n, hget, hs⟩ enter henter => ?_⟩
  have hn := hp.nodes id n hget
  have hless : ∀ ids ∈ n.controls, StackLoop.total weight ids < weight id := fun ids hids =>
    Nat.lt_of_le_of_lt (StackLoop.total_le_flatten weight hids) (hweight id n hget)
  have hafter := hn.after hs
  cases hout : x.outlined.contains id with
  | true =>
    refine ⟨behind (chainCode x [id]), [], visit_called hout, ?_,
      fun _ h => absurd h List.not_mem_nil,
      Nat.lt_of_le_of_lt (Nat.zero_le _) (hless _ hafter)⟩
    rw [chainCode_nil, behind_nil, bind_pure_unit]
  | false =>
    have hwithin : ∀ ids ∈ n.controls, fromNone (enter ids) = chainCode x ids := fun ids hids => by
      rw [henter ids (hn.targets ids hids) (hless ids hids), fromNone_behind]
    refine ⟨behind (node x (chainCode x) id n), n.after, ?_, ?_, hn.targets _ hafter,
      hless _ hafter⟩
    · rw [visit_emitted hget hout, node_congr hwithin]
    · rw [chainCode_single hp hget hs hout, behind_append]

theorem chainCode_call {i : Nat} {id : NodeId} (hnodup : x.outlined.Nodup)
    (hi : x.outlined[i]? = some id)
    (xs ys : List NodeId) : chainCode x (xs ++ id :: ys) = followed (chainCode x xs)
      (followed (pure [.call (x.outlinedFunction i)]) (chainCode x ys)) := by
  have hcontains : x.outlined.contains id = true :=
    List.contains_iff_mem.mpr (List.mem_of_getElem? hi)
  obtain ⟨hlt, rfl⟩ := List.getElem?_eq_some_iff.mp hi
  have hcall := chainCode_called hcontains
  rw [hnodup.idxOf_getElem i hlt] at hcall
  have hcons : chainCode x (x.outlined[i] :: ys) = followed (chainCode x [x.outlined[i]])
    (chainCode x ys) :=
    chainCode_append [x.outlined[i]] ys
  rw [chainCode_append, hcons, hcall]

/-- A chain with a statement and what follows it where its call would stand. -/
def inPlace (x : Target) (xs : List NodeId) (id : NodeId) (ys : List NodeId) : Emit Code :=
  followed (chainCode x xs) (followed (outlinedCode x id) (chainCode x ys))

variable {σ : Type} {z : Running σ}

theorem imitates_inPlace {id : NodeId} {xs ys : List NodeId}
    (hxs : ∀ i ∈ xs, z.program.IsStatement i)
    (hid : z.program.IsStatement id) (hys : ∀ i ∈ ys, z.program.IsStatement i) :
    (z.setting z.code.functions.size).Imitates (inPlace (target z.program) xs id ys) []
      (Interpreter.run z.engine z.program (xs ++ id :: ys)) Quiet := by
  obtain ⟨rank, hrank⟩ := z.wellFormed.leads
  have hout : (z.setting z.code.functions.size).Imitates (outlinedCode (target z.program) id) []
      (Interpreter.run z.engine z.program [id]) Quiet := by
    rw [run_singleton z.wellFormed hid]
    exact imitates_outlinedCode (y := z.setting z.code.functions.size) supplies_functions hrank
      (outlines_functions hrank _) hid
  have hsplit : Interpreter.run z.engine z.program (xs ++ id :: ys) = (do
      Interpreter.run z.engine z.program xs
      Interpreter.run z.engine z.program [id]
      Interpreter.run z.engine z.program ys) := by
    rw [run_append, ← run_append [id] ys]
    rfl
  rw [hsplit]
  exact imitates_then (imitates_chains hxs) (imitates_then hout (imitates_chains hys))

/-- From any machine that agrees with a state, with locals enough, the code does what the run
does. -/
theorem exists_runs {emit : Emit Code} {run : Run σ Unit}
    (h : (z.setting z.code.functions.size).Imitates emit [] run Quiet) (l : Locals) :
    ∃ code l', emit.run l = .ok (code, l') ∧ ∀ s s' t below, Agrees z.program z.frames s t →
      l'.count ≤ t.locals.size → run s = .ok () s' →
      ∃ t', Runs (invoke z.code (Host.functions z.engine z.program) (z.code.functions.size + 1))
        code below t
        below t' ∧ Agrees z.program z.frames s' t' := by
  obtain ⟨code, l', hemit, -, hcode⟩ := h l
  refine ⟨code, l', hemit, fun s s' t below hst hsize hrun => ?_⟩
  obtain ⟨t', outs, hruns, rfl, hst', -⟩ := hcode s t below () s' hst hsize hrun
  exact ⟨t', hruns, hst'⟩

/-! ## Composition -/

/-- What composes in the chains of a program.  Runs that are equal do the same from every state, so
with an engine that writes down what it is asked they ask the same in the same order. -/
structure Composes (e : Engine σ) (p : Program) : Prop where
  succeeds : ∀ ids, (∀ id ∈ ids, p.IsStatement id) → ∀ s, Visited p e s →
    ∃ s', Interpreter.run e p ids s = .ok () s'
  append : ∀ xs ys,
    Interpreter.run e p (xs ++ ys) = do Interpreter.run e p xs; Interpreter.run e p ys
  single : ∀ id n, p.nodes[id]? = some n → n.statement = true → ∃ st, n.kind = .statement st ∧
    Interpreter.run e p [id] = do
      execute e p.vars (Interpreter.value e p) (Interpreter.run e p) id n st
      Interpreter.run e p n.after
  /-- The loop over a stack, whatever is taken together with what follows it. -/
  loop : ∀ ids, (∀ id ∈ ids, p.IsStatement id) → ∃ turns, ∀ more together out, turns ≤ more →
    StackLoop.run (Interpreter.visit e p together) out more ids = Interpreter.run e p ids
  /-- The loop over a stack that emits code. -/
  emitted : ∀ ids, (∀ id ∈ ids, p.IsStatement id) → ∃ turns, ∀ more out, turns ≤ more →
    StackLoop.run (Compiler.visit (target p)) out more ids = behind (chainCode (target p) ids)
  /-- A statement that is called in a chain does what it does if it stands there with what follows
  it.  Code keeps ids and counts frames in words, whence the limits. -/
  called : ∀ m frames, p.Addressable → compile p = .ok m → frames < 4294967295 →
    ∀ i id, (target p).outlined[i]? = some id →
    (∃ f, m.functions[2 + p.memoPoints.length + i]? = some f ∧
      function plain (outlinedCode (target p) id) = .ok f) ∧
    ∀ xs ys, (∀ i ∈ xs, p.IsStatement i) → (∀ i ∈ ys, p.IsStatement i) →
      chainCode (target p) (xs ++ id :: ys) = followed (chainCode (target p) xs)
        (followed (pure [.call ((target p).outlinedFunction i)]) (chainCode (target p) ys)) ∧
      ∀ l l' : Locals, ∃ call put l₁ l₂,
        (chainCode (target p) (xs ++ id :: ys)).run l = .ok (call, l₁) ∧
        (inPlace (target p) xs id ys).run l' = .ok (put, l₂) ∧
        ∀ s t t' below below', Agrees p frames s t → Agrees p frames s t' →
          l₁.count ≤ t.locals.size →
          l₂.count ≤ t'.locals.size →
            ∃ s' u u', Interpreter.run e p (xs ++ id :: ys) s = .ok () s' ∧
            Agrees p frames s' u ∧ Agrees p frames s' u' ∧
            Runs (invoke m (Host.functions e p) (m.functions.size + 1)) call below t below u ∧
            Runs (invoke m (Host.functions e p) (m.functions.size + 1)) put below' t' below' u'

/-- Chains compose. -/
theorem chains_compose {c : Catalog} {d : Document} {p : Program} (hc : c.Stocked)
    (h : Program.analyse c d = .ok p) (e : Engine σ) : Composes e p := by
  have hp := Program.wellFormed_of_analyse hc h
  refine ⟨fun ids hids s hs => ?_, run_append, fun id n hget hs => ?_,
    fun ids hids => exists_turns e hp hids, fun ids hids => ?_,
    fun m frames hfit hm hframes i id hi => ?_⟩
  · obtain ⟨_, s', hrun, -, -⟩ := ok_of_meets (meets_run e hp hids) (typed_of_visited hp hs)
    exact ⟨s', hrun⟩
  · obtain ⟨st, hkind⟩ := (hp.nodes id n hget).statementKind hs
    exact ⟨st, hkind, run_single hp hget hs hkind⟩
  · obtain ⟨weight, hweight⟩ := hp.exists_weight
    refine ⟨StackLoop.total weight ids + 1, fun more out hmore => ?_⟩
    exact StackLoop.run_eq (unfolds_chainCode (x := target p) hp hweight) hids hmore
  · have hcompiled := compiled_of_ok hm
    let z : Running σ := ⟨p, m, hp, hfit, hcompiled, e, frames, hframes⟩
    have hid : p.IsStatement id := isStatement_of_converging hp (List.mem_of_getElem? hi)
    obtain ⟨f, hf, hcode⟩ := hcompiled.functions.outlined i id hi
    rw [Array.getElem?_toList] at hf
    refine ⟨⟨f, hf, hcode⟩, fun xs ys hxs hys => ⟨?_, fun l l' => ?_⟩⟩
    · exact chainCode_call (List.Nodup.filter _ List.nodup_range) hi xs ys
    · have hall : ∀ j ∈ xs ++ id :: ys, p.IsStatement j := fun j hj =>
        (List.mem_append.mp hj).elim (hxs j) (List.forall_mem_cons.mpr ⟨hid, hys⟩ j)
      obtain ⟨call, l₁, hcall, hcalls⟩ := exists_runs (imitates_chains (z := z) hall) l
      obtain ⟨put, l₂, hput, hputs⟩ := exists_runs (imitates_inPlace (z := z) hxs hid hys) l'
      refine ⟨call, put, l₁, l₂, hcall, hput, fun s t t' below below' hst hst' hsize hsize' => ?_⟩
      obtain ⟨_, s', hrun, -, -⟩ := ok_of_meets (meets_run e hp hall) hst.typed
      obtain ⟨u, hruns, hu⟩ := hcalls s s' t below hst hsize hrun
      obtain ⟨u', hruns', hu'⟩ := hputs s s' t' below' hst' hsize' hrun
      exact ⟨s', u, u', hrun, hu, hu', hruns, hruns'⟩

theorem chains_compose_reconverging : ∃ c p, c.Stocked ∧ Program.analyse c reconverging = .ok p ∧
    p.nodes.toList.map (·.controls) = [[[1], [2], []], [[3], [2]], [[4]], [[]], [[]]] ∧
    (target p).outlined = [2] ∧ p.Addressable ∧ Composes Headless.engine p := by
  have hsome : (Catalog.stock.bind fun c => Program.analyse c reconverging).toOption.any (fun p =>
      p.nodes.toList.map (·.controls) = [[[1], [2], []], [[3], [2]], [[4]], [[]], [[]]] ∧
      (target p).outlined = [2] ∧ p.nodes.size = 5 ∧ p.slots = [] ∧ p.vars = []) = true := by
    decide +kernel
  obtain ⟨c, p, -, hc, hp, hshape⟩ := Catalog.exists_stock hsome
  obtain ⟨hcontrols, houtlined, hnodes, hslots, hvars⟩ := of_decide_eq_true hshape
  have haddressable : p.Addressable := by
    refine ⟨?_, ?_, ?_⟩
    · omega
    · rw [hslots]
      decide
    · rw [hvars]
      decide
  exact ⟨c, p, hc, hp, hcontrols, houtlined, haddressable, chains_compose hc hp Headless.engine⟩

end Compiler
end SignalGraph
