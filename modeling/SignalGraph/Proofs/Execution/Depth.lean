import SignalGraph.Interpreter.Run
import SignalGraph.Proofs.Analysis.WellFormed

/-!
# Depths

Any depth beyond the rank of a node serves as well as any other, so the depth can be left out of the
equations for a run.
-/

namespace SignalGraph
namespace Interpreter

variable {σ : Type} {n : Node} {f g : Producer → Run σ Value}

/-- Two ways to compute outputs that agree on what a node reads. -/
def Agree (f g : Producer → Run σ Value) (n : Node) : Prop :=
  ∀ w, Operand.wire w ∈ n.inputs → f w.source = g w.source

theorem readOperand_congr {o : Operand} (h : ∀ w, o = .wire w → f w.source = g w.source) :
    readOperand f o = readOperand g o := by
  cases o with
  | default v => rfl
  | absent => rfl
  | wire w => rw [readOperand, readOperand, readWire, readWire, h w rfl]

theorem mem_of_input {i : Nat} {o : Operand} (h : n.input i = .ok o) : o ∈ n.inputs := by
  unfold Node.input at h
  split at h
  · next o' ho =>
    cases h
    exact List.mem_of_getElem? ho
  · exact nomatch h

theorem input_congr (h : Agree f g n) : input f n = input g n := by
  funext i
  unfold input
  cases hi : n.input i with
  | error fault => rfl
  | ok o =>
    have hread := readOperand_congr (f := f) (g := g) (o := o) fun w hw =>
      h w (by rw [← hw]; exact mem_of_input hi)
    exact hread

theorem optionalInput_congr (h : Agree f g n) : optionalInput f n = optionalInput g n := by
  funext i
  unfold optionalInput
  cases hi : n.input i with
  | error fault => rfl
  | ok o =>
    have hread := readOperand_congr (f := f) (g := g) (o := o) fun w hw =>
      h w (by rw [← hw]; exact mem_of_input hi)
    cases o with
    | absent => rfl
    | _ => exact congrArg (some <$> ·) hread

theorem inputs_congr (h : Agree f g n) : inputs f n = inputs g n := by
  funext count
  rw [inputs, inputs, input_congr h]

theorem evaluate_congr (e : Engine σ) (h : Agree f g n) : evaluate e f n = evaluate e g n := by
  funext output x
  cases x <;> simp only [evaluate, inputs_congr h, input_congr h]

theorem effectInputs_congr (h : Agree f g n) : effectInputs f n = effectInputs g n := by
  funext pins
  rw [effectInputs, effectInputs, optionalInput_congr h, input_congr h]

theorem branch_mem {i : Nat} {ids : List NodeId} (h : n.branch i = .ok ids) : ids ∈ n.controls := by
  unfold Node.branch at h
  split at h
  · next targets htargets =>
    cases h
    exact List.dropLast_subset _ (List.mem_of_getElem? htargets)
  · exact nomatch h

theorem runBranch_congr {chain chain' : List NodeId → Run σ Unit}
    (h : ∀ ids ∈ n.controls, chain ids = chain' ids) : runBranch chain n = runBranch chain' n := by
  funext i
  unfold runBranch
  cases hi : n.branch i with
  | error fault => rfl
  | ok ids => exact h ids (branch_mem hi)

theorem execute_congr (e : Engine σ) (vars : List Variable) (h : Agree f g n)
    {chain chain' : List NodeId → Run σ Unit} (hchain : ∀ ids ∈ n.controls, chain ids = chain' ids)
    (id : NodeId) (st : Statement) :
    execute e vars f chain id n st = execute e vars g chain' id n st := by
  cases st <;> simp only [execute, runEffect, runMenuItem, runLoop, adjust, effectInputs_congr h,
    input_congr h, runBranch_congr hchain]

variable {e : Engine σ} {p : Program}

theorem produce_depth {rank : NodeId → Nat} (hrank : p.Falls p.Reads rank) :
    ∀ {depth depth' : Nat} {source : Producer}, rank source.node < depth →
      rank source.node < depth' → produce e p depth source = produce e p depth' source
  | depth + 1, depth' + 1, source, h, h' => by
    unfold produce
    cases hnode : p.node source.node with
    | error fault => rfl
    | ok n =>
      show (if n.statement then _ else _) = (if n.statement then _ else _)
      cases hs : n.statement with
      | true => rfl
      | false =>
        have hagree : Agree (produce e p depth) (produce e p depth') n := by
          intro w hw
          have hfall := hrank.falls source.node w.source.node
            ⟨n, w, Program.getElem?_of_node hnode, hs, hw, rfl⟩
          exact produce_depth hrank (by omega) (by omega)
        rw [evaluate_congr e hagree]

def value (e : Engine σ) (p : Program) (source : Producer) : Run σ Value :=
  produce e p (p.nodes.size + 1) source

theorem value_eq_produce {rank : NodeId → Nat} (hrank : p.Falls p.Reads rank) {depth : Nat}
    {source : Producer} (hsource : source.node < p.nodes.size) (h : rank source.node < depth) :
    value e p source = produce e p depth source :=
  produce_depth hrank (Nat.lt_succ_of_lt (hrank.bounded _ hsource)) h

/-- An expression is evaluated from the values of the outputs it reads. -/
theorem value_expression (hp : p.WellFormed) {source : Producer} {n : Node} {x : Expression}
    (hget : p.nodes[source.node]? = some n) (hkind : n.kind = .expression x)
    (hs : n.statement = false) : value e p source = evaluate e (value e p) n source.output x := by
  obtain ⟨rank, hrank⟩ := hp.reads
  have hagree : Agree (produce e p p.nodes.size) (value e p) n := by
    intro w hw
    obtain ⟨type, hfits⟩ := (hp.nodes _ n hget).fits_of_wire hw
    obtain ⟨m, hm, -⟩ := hfits.source
    have hlt := (Array.getElem?_eq_some_iff.mp hm).1
    exact (value_eq_produce hrank hlt (hrank.bounded _ hlt)).symm
  rw [value, produce, Program.node_eq_ok hget]
  show (if n.statement then _ else _) = _
  rw [hs, hkind]
  show evaluate e _ n source.output x = _
  rw [evaluate_congr e hagree]

theorem value_statement {source : Producer} {n : Node} (hget : p.nodes[source.node]? = some n)
    (hs : n.statement = true) : value e p source = readSlot n source.output := by
  rw [value, produce, Program.node_eq_ok hget]
  show (if n.statement then _ else _) = _
  rw [hs]
  rfl

/-- A statement with all that follows it, given how its chains are run. -/
def step (e : Engine σ) (p : Program) (chain : List NodeId → Run σ Unit) (id : NodeId) :
    Run σ Unit := do
  let n ← check (p.node id)
  match n.kind with
  | .statement s => execute e p.vars (value e p) chain id n s
  | kind => throw (.breach (.notStatement kind n.pos))
  chain n.after

theorem runChain_succ (depth : Nat) (ids : List NodeId) :
    runChain e p (depth + 1) ids = ids.forM (step e p (runChain e p depth)) := rfl

theorem forM_congr {f g : NodeId → Run σ Unit} : ∀ {ids : List NodeId},
    (∀ id ∈ ids, f id = g id) → ids.forM f = ids.forM g
  | [], _ => rfl
  | id :: rest, h => by
    have hrest : rest.forM f = rest.forM g :=
      forM_congr fun i hi => h i (List.mem_cons_of_mem id hi)
    rw [List.forM, List.forM, h id List.mem_cons_self, hrest]

theorem step_eq {chain : List NodeId → Run σ Unit} {id : NodeId} {n : Node} {st : Statement}
    (hget : p.nodes[id]? = some n) (hkind : n.kind = .statement st) :
    step e p chain id = (do
      execute e p.vars (value e p) chain id n st
      chain n.after) := by
  have hstep : step e p chain id = (do
      match n.kind with
      | .statement s => execute e p.vars (value e p) chain id n s
      | kind => throw (.breach (.notStatement kind n.pos))
      chain n.after) := by
    unfold step
    rw [Program.node_eq_ok hget]
    rfl
  rw [hstep, hkind]

theorem step_congr (hp : p.WellFormed) {chain chain' : List NodeId → Run σ Unit} {id : NodeId}
    {n : Node} (hget : p.nodes[id]? = some n) (hs : n.statement = true)
    (h : ∀ ids ∈ n.controls, chain ids = chain' ids) : step e p chain id = step e p chain' id := by
  have hn := hp.nodes id n hget
  obtain ⟨st, hkind⟩ := hn.statementKind hs
  rw [step_eq hget hkind, step_eq hget hkind, h _ (hn.after hs),
    execute_congr e p.vars (fun _ _ => rfl) h]

theorem runChain_depth (hp : p.WellFormed) {rank : NodeId → Nat} (hrank : p.Falls p.Leads rank) :
    ∀ {depth depth' : Nat} {ids : List NodeId}, (∀ id ∈ ids, p.IsStatement id) →
      (∀ id ∈ ids, rank id < depth) → (∀ id ∈ ids, rank id < depth') →
      runChain e p depth ids = runChain e p depth' ids := by
  intro depth
  induction depth with
  | zero =>
    intro depth' ids _ h _
    cases ids with
    | nil => cases depth' <;> rfl
    | cons id rest => exact absurd (h id List.mem_cons_self) (Nat.not_lt_zero _)
  | succ depth ih =>
    intro depth' ids hids h h'
    cases depth' with
    | zero =>
      cases ids with
      | nil => rfl
      | cons id rest => exact absurd (h' id List.mem_cons_self) (Nat.not_lt_zero _)
    | succ depth' =>
      rw [runChain_succ, runChain_succ]
      refine forM_congr fun id hid => ?_
      obtain ⟨n, hget, hs⟩ := hids id hid
      have hn := hp.nodes id n hget
      refine step_congr hp hget hs fun targets htargets => ?_
      have hfall : ∀ target ∈ targets, rank target < rank id := fun target htarget =>
        hrank.falls id target ⟨n, targets, hget, htargets, htarget⟩
      have hlt := h id hid
      have hlt' := h' id hid
      refine ih (hn.targets targets htargets) (fun t ht => ?_) fun t ht => ?_
      · have := hfall t ht
        omega
      · have := hfall t ht
        omega

theorem run_eq_runChain (hp : p.WellFormed) {rank : NodeId → Nat} (hrank : p.Falls p.Leads rank)
    {depth : Nat} {ids : List NodeId} (hids : ∀ id ∈ ids, p.IsStatement id)
    (h : ∀ id ∈ ids, rank id < depth) : run e p ids = runChain e p depth ids := by
  refine runChain_depth hp hrank hids (fun id hid => ?_) h
  obtain ⟨n, hget, -⟩ := hids id hid
  exact Nat.lt_succ_of_lt (hrank.bounded id (Array.getElem?_eq_some_iff.mp hget).1)

/-- Running statements, without a depth. -/
theorem run_eq (hp : p.WellFormed) {ids : List NodeId} (hids : ∀ id ∈ ids, p.IsStatement id) :
    run e p ids = ids.forM (step e p (run e p)) := by
  obtain ⟨rank, hrank⟩ := hp.leads
  rw [run, runChain_succ]
  refine forM_congr fun id hid => ?_
  obtain ⟨n, hget, hs⟩ := hids id hid
  have hn := hp.nodes id n hget
  refine step_congr hp hget hs fun targets htargets => ?_
  refine (run_eq_runChain hp hrank (hn.targets targets htargets) fun target htarget => ?_).symm
  obtain ⟨m, hm, -⟩ := hn.targets targets htargets target htarget
  exact hrank.bounded target (Array.getElem?_eq_some_iff.mp hm).1

end Interpreter
end SignalGraph
