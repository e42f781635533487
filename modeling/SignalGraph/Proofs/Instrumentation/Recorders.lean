import SignalGraph.Proofs.Instrumentation.Echoes

/-!
# Recorded runs

The interpreter when something is written down next to the state of the engine.  Chains and frames
run as without it.

Main statement: what passes from statements to chains holds of the runs of all chains.
-/

namespace SignalGraph

/-- An input that asks for itself by its number. -/
def Operand.numbered (i : Nat) : Operand → Operand
  | .wire w => .wire { w with source := { w.source with output := i }, memo := none }
  | operand => operand

/-- A node whose inputs ask for themselves, so that whoever answers knows which wire is read. -/
def Node.numbered (n : Node) : Node := { n with inputs := n.inputs.mapIdx Operand.numbered }

namespace Interpreter

variable {σ τ L : Type}

/-- What is written down when statements run. -/
structure Recorder (τ : Type) where
  engine : Engine τ
  /-- How a node asks for an input, given how outputs are computed. -/
  asks : (Producer → Run τ Value) → NodeId → Node → Producer → Run τ Value :=
    fun produce _ _ => produce
  /-- The node that asks. -/
  asking : Node → Node := fun n => n
  entered : NodeId → Run τ Unit := fun _ => return
  /-- Before a branch of a statement. -/
  branched : NodeId → Run τ Unit := fun _ => return
  left : NodeId → Run τ Unit := fun _ => return

namespace Recorder

variable (R : Recorder τ) (p : Program)

def produce : (depth : Nat) → Producer → Run τ Value
  | 0, source => throw (.breach (.noNode source.node))
  | depth + 1, source => do
    let n ← check (p.node source.node)
    if n.statement then readSlot n source.output
    else match n.kind with
      | .expression x =>
        evaluate R.engine (R.asks (produce depth) source.node n) (R.asking n) source.output x
      | kind => throw (.breach (.notExpression kind n.pos))

def branches (chain : List NodeId → Run τ Unit) (id : NodeId) (ids : List NodeId) : Run τ Unit := do
  R.branched id
  chain ids

def statement (chain : List NodeId → Run τ Unit) (id : NodeId) (n : Node) (st : Statement) :
    Run τ Unit := do
  R.entered id
  execute R.engine p.vars (R.asks (R.produce p (p.nodes.size + 1)) id n) (R.branches chain id) id
    (R.asking n) st
  R.left id

def chain : (depth : Nat) → List NodeId → Run τ Unit
  | 0, ids => ids.forM fun id => throw (.breach (.noNode id))
  | depth + 1, ids => ids.forM fun id => do
    let n ← check (p.node id)
    match n.kind with
    | .statement st => R.statement p (chain depth) id n st
    | kind => throw (.breach (.notStatement kind n.pos))
    chain depth n.after

def run (ids : List NodeId) : Run τ Unit := R.chain p (p.nodes.size + 1) ids

/-- What holds of the runs of statements and of chains passes from one to the other. -/
structure Carries (R : Recorder (σ × L)) (e : Engine σ) (p : Program)
    (S : NodeId → Run (σ × L) Unit → Run σ Unit → Prop)
    (K : List NodeId → Run (σ × L) Unit → Run σ Unit → Prop) : Prop where
  nil : K [] (pure ()) (pure ())
  cons : ∀ {id ids} {a' b' : Run (σ × L) Unit} {a b : Run σ Unit},
    K [id] a' a → K ids b' b → K (id :: ids) (do a'; b') (do a; b)
  throw : ∀ {ids fault}, K ids (throw fault) (throw fault)
  statement : ∀ {id n st chain' chain}, p.nodes[id]? = some n → n.kind = .statement st →
    (∀ ids, K ids (chain' ids) (chain ids)) → S id (R.statement p chain' id n st)
      (execute e p.vars (Interpreter.produce e p (p.nodes.size + 1)) chain id n st)
  followed : ∀ {id n} {a' b' : Run (σ × L) Unit} {a b : Run σ Unit}, p.nodes[id]? = some n →
    S id a' a → K n.after b' b → K [id] (do a'; b') (do a; b)

namespace Carries

variable {R : Recorder (σ × L)} {e : Engine σ} {p : Program}
  {S : NodeId → Run (σ × L) Unit → Run σ Unit → Prop}
  {K : List NodeId → Run (σ × L) Unit → Run σ Unit → Prop} (h : R.Carries e p S K)
include h

theorem forM {f' : NodeId → Run (σ × L) Unit} {f : NodeId → Run σ Unit}
    (hf : ∀ id, K [id] (f' id) (f id)) : ∀ {ids : List NodeId}, K ids (ids.forM f') (ids.forM f)
  | [] => h.nil
  | id :: _ => h.cons (hf id) (forM hf)

/-- By induction on the depth. -/
theorem chain : ∀ {depth : Nat} {ids : List NodeId},
    K ids (R.chain p depth ids) (runChain e p depth ids)
  | 0, _ => h.forM fun _ => h.throw
  | depth + 1, _ => h.forM fun id => by
    cases hnode : p.node id with
    | error fault => exact h.throw
    | ok n =>
      have hget := Program.getElem?_of_node hnode
      rw [check_bind rfl, check_bind rfl]
      cases hkind : n.kind with
      | statement st => exact h.followed hget (h.statement hget hkind fun _ => chain) chain
      | _ => exact h.throw

end Carries

end Recorder

variable {I : State σ → L → Prop} {heard : Producer → Run (σ × L) Value}
  {produce : Producer → Run σ Value} {n : Node}

/-- Whoever answers the inputs of a numbered node gives what the wires of the node give. -/
def Answers (I : State σ → L → Prop) (heard : Producer → Run (σ × L) Value)
    (produce : Producer → Run σ Value) (n : Node) : Prop :=
  ∀ (i : Nat) (w : Wire) (node : NodeId), n.inputs[i]? = some (.wire w) →
    Echoes I (heard ⟨node, i⟩) (fetch produce w)

theorem input_numbered (n : Node) (i : Nat) :
    n.numbered.input i = (n.input i).map (Operand.numbered i) := by
  unfold Node.input Node.numbered
  dsimp only
  rw [List.getElem?_mapIdx]
  cases n.inputs[i]? <;> rfl

theorem echoes_readOperand (h : Answers I heard produce n) {i : Nat} {o : Operand}
    (ho : n.inputs[i]? = some o) :
    Echoes I (readOperand heard (o.numbered i)) (readOperand produce o) := by
  cases o with
  | default v => exact mirrors_done
  | absent => exact mirrors_done
  | wire w =>
    rw [Operand.numbered, readOperand, readOperand, readWire_eq, readWire_eq]
    refine mirrors_bind (h i w _ ho) fun v => ?_
    show Echoes I (if w.deref then load w.type v else pure v) _
    split
    · exact echoes_load _ _
    · exact mirrors_done

theorem echoes_input (h : Answers I heard produce n) (i : Nat) :
    Echoes I (input heard n.numbered i) (input produce n i) := by
  unfold input
  rw [input_numbered]
  cases ho : n.inputs[i]? with
  | none =>
    unfold Node.input
    rw [ho]
    exact mirrors_throw fun _ _ _ => trivial
  | some o =>
    rw [Node.input_eq_ok ho]
    exact echoes_readOperand h ho

theorem echoes_optionalInput (h : Answers I heard produce n) (i : Nat) :
    Echoes I (optionalInput heard n.numbered i) (optionalInput produce n i) := by
  unfold optionalInput
  rw [input_numbered]
  cases ho : n.inputs[i]? with
  | none =>
    unfold Node.input
    rw [ho]
    exact mirrors_throw fun _ _ _ => trivial
  | some o =>
    rw [Node.input_eq_ok ho]
    cases o with
    | absent => exact mirrors_done
    | default v => exact mirrors_done
    | wire w => exact mirrors_map (echoes_readOperand h ho)

theorem hears_numbered (h : Answers I heard produce n) : Hears I heard n.numbered produce n :=
  ⟨echoes_input h, echoes_optionalInput h, rfl⟩

end Interpreter
end SignalGraph
