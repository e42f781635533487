import SignalGraph.Analysis.Nodes
import SignalGraph.Proofs.Analysis.Tracing.Wires
import SignalGraph.Proofs.Analysis.WellFormed

/-!
# Built nodes

What building makes of the instances of an expansion, before anything is shared: one node for each,
in order, with the tables of its kind.
-/

namespace SignalGraph
namespace Nodes

variable {c : Catalog} {x : Expansion} {vars : List Variable}

theorem declare_eq_ok {name : String} {type : WireType} {env : EnvId} {v : Variable}
    (h : Variable.declare name type env = .ok v) : type = .value v.type := by
  cases type with
  | value b =>
    cases h
    rfl
  | void => exact nomatch h
  | pointer b => exact nomatch h

/-- A block means a variable of its name, whose scope is decided by the name. -/
theorem scope_of_named {env : EnvId} {decl : NodeDecl} {k : Kind} {v : Variable}
    (h : named? env decl k = .ok (some v)) :
    v.name = variableName decl ∧ v.scope = Variable.scopeOf v.name env := by
  unfold named? at h
  split at h
  · cases h
  · obtain ⟨v', hdeclare, heq⟩ := Outcome.map_eq_ok.mp h
    cases heq
    unfold Variable.declare at hdeclare
    split at hdeclare
    · cases hdeclare
      exact ⟨rfl, rfl⟩
    · cases hdeclare

theorem scope_of_mem_vars {v : Variable} (h : v ∈ Nodes.vars x) :
    ∃ env, v.scope = Variable.scopeOf v.name env := by
  obtain ⟨⟨env, m⟩, -, hv⟩ := List.mem_filterMap.mp (List.mem_eraseDups.mp h)
  refine ⟨env, ?_⟩
  dsimp only at hv
  cases hk : m.kind? with
  | none =>
    rw [hk] at hv
    cases hv
  | some k =>
    rw [hk, Option.map_some] at hv
    split at hv
    · next heq =>
      cases hv
      exact (scope_of_named (Option.some.inj heq)).2
    · cases hv

/-- The variable that an instance names is one of the program's. -/
theorem mem_vars {env : EnvId} {m : Member} {k : Kind} {v : Variable}
    (hm : (env, m) ∈ x.instances) (hk : m.kind? = some k)
    (hv : named? env m.decl k = .ok (some v)) : v ∈ Nodes.vars x := by
  refine List.mem_eraseDups.mpr (List.mem_filterMap.mpr ⟨(env, m), hm, ?_⟩)
  simp only [hk, Option.map_some, hv]

theorem constant_named {names : Variable → VarId} {env : EnvId} {decl : NodeDecl} {k : Kind}
    {constant : Constant} {type : WireType} (hk : k.variableType = some type)
    (h : Nodes.constant names env decl k = .ok constant) :
    ∃ v, named? env decl k = .ok (some v) ∧ type = .value v.type ∧ constant = .names (names v) := by
  unfold Nodes.constant at h
  obtain ⟨o, ho, h⟩ := Outcome.bind_eq_ok.mp h
  have hnamed := ho
  unfold named? at ho
  simp only [hk] at ho
  obtain ⟨v, hv, rfl⟩ := Outcome.map_eq_ok.mp ho
  cases h
  exact ⟨v, hnamed, declare_eq_ok hv, rfl⟩

/-- A variable block keeps the number of a variable of its type. -/
theorem names_of_constant {env : EnvId} {m : Member} {k : Kind} {constant : Constant}
    {type : WireType} (hm : (env, m) ∈ x.instances) (hk : m.kind? = some k)
    (htype : k.variableType = some type)
    (h : Nodes.constant (Nodes.vars x).idxOf env m.decl k = .ok constant) :
    ∃ var v, constant = .names var ∧ (Nodes.vars x)[var]? = some v ∧ type = .value v.type := by
  obtain ⟨v, hnamed, hv, rfl⟩ := constant_named htype h
  exact ⟨_, v, rfl, List.getElem?_idxOf (mem_vars hm hk hnamed), hv⟩

theorem operand_eq_ok {env : EnvId} {m : Member} {k : Kind} {i : Nat} {t : Terminal} {o : Operand}
    (h : operand x env m k i t = .ok o) :
    (∃ source type, x.driver ⟨env, m.decl.pos, t.pos⟩ = .ok (some (source, type)) ∧
      type.drives t.type = true ∧
      o = .wire { source, type, deref := type.isPointer && !t.type.isPointer, memo := none }) ∨
    (x.driver ⟨env, m.decl.pos, t.pos⟩ = .ok none ∧
      (t.type.isPointer || m.block.optional.getD i false) = true ∧ o = .absent) ∨
    (x.driver ⟨env, m.decl.pos, t.pos⟩ = .ok none ∧
      (t.type.isPointer || m.block.optional.getD i false) = false ∧
      o = .default (k.inputDefault i t.type)) := by
  unfold operand at h
  obtain ⟨found, hfound, h⟩ := Outcome.bind_eq_ok.mp h
  match found with
  | some (source, type) =>
    by_cases hdrives : type.drives t.type = true
    · simp only [hdrives, if_true] at h
      cases h
      exact .inl ⟨source, type, hfound, hdrives, rfl⟩
    · simp only [hdrives] at h
      exact nomatch h
  | none =>
    cases habsent : t.type.isPointer || m.block.optional.getD i false with
    | true =>
      simp only [habsent, if_true] at h
      cases h
      exact .inr (.inl ⟨hfound, rfl, rfl⟩)
    | false =>
      simp only [habsent] at h
      cases h
      exact .inr (.inr ⟨hfound, rfl, rfl⟩)

structure Built (x : Expansion) (names : Variable → VarId) (env : EnvId) (m : Member) (k : Kind)
    (n : Node) : Prop where
  environment : n.env = env
  position : n.pos = m.decl.pos
  kind : n.kind = k
  statement : n.statement = m.block.active
  constant : Nodes.constant names env m.decl k = .ok n.constant
  arity : n.inputs.length = m.block.dataInputs.length
  inputs : ∀ (i : Nat) (t : Terminal), m.block.dataInputs[i]? = some t →
    ∃ o, n.inputs[i]? = some o ∧ operand x env m k i t = .ok o
  outputs : n.outputs = m.block.dataOutputs.map (·.type)
  controls : n.controls.length = m.block.controlOutputs.length ∧
    ∀ ids ∈ n.controls, ∃ t ∈ m.block.controlOutputs,
      x.successors ⟨env, m.decl.pos, t.pos⟩ = .ok ids
  traced : ∀ t ∈ m.block.controlOutputs, ∃ ids ∈ n.controls,
    x.successors ⟨env, m.decl.pos, t.pos⟩ = .ok ids
  branches : ∀ (i : Nat) (t : Terminal), m.block.controlOutputs[i]? = some t →
    ∃ ids, n.controls[i]? = some ids ∧ x.successors ⟨env, m.decl.pos, t.pos⟩ = .ok ids

theorem built_of_build {names : Variable → VarId} {env : EnvId} {m : Member} {k : Kind} {n : Node}
    (h : build x names env m k = .ok n) : Built x names env m k n := by
  unfold build at h
  obtain ⟨constant, hconstant, h⟩ := Outcome.bind_eq_ok.mp h
  obtain ⟨inputs, hinputs, h⟩ := Outcome.bind_eq_ok.mp h
  obtain ⟨controls, hcontrols, h⟩ := Outcome.bind_eq_ok.mp h
  cases h
  obtain ⟨harity, hinputs⟩ := Outcome.mapM_eq_ok hinputs
  obtain ⟨hlen, hcontrols⟩ := Outcome.mapM_eq_ok hcontrols
  rw [List.length_zipIdx] at harity
  refine ⟨rfl, rfl, rfl, rfl, hconstant, harity, fun i t ht => ?_, rfl,
    ⟨hlen, fun ids hids => ?_⟩, fun t ht => ?_, hcontrols⟩
  · exact hinputs i (t, i) (by simp [List.getElem?_zipIdx, ht])
  · obtain ⟨i, hi⟩ := List.getElem?_of_mem hids
    have hlt : i < m.block.controlOutputs.length := by
      rw [← hlen]
      exact (List.getElem?_eq_some_iff.mp hi).1
    obtain ⟨ids', hids', hsucc⟩ := hcontrols i _ (List.getElem?_eq_getElem hlt)
    rw [hi] at hids'
    cases hids'
    exact ⟨_, List.getElem_mem hlt, hsucc⟩
  · obtain ⟨i, hi⟩ := List.getElem?_of_mem ht
    obtain ⟨ids, hids, hsucc⟩ := hcontrols i t hi
    exact ⟨ids, List.mem_of_getElem? hids, hsucc⟩

/-- A node with a control input is a statement. -/
theorem active_of_isEntry {env : EnvId} {m : Member} {k : Kind} (hk : k.isPlain = true)
    (hb : m.block.Builtin k) (h : isEntry x env m = .ok true) : m.block.active = true := by
  unfold isEntry at h
  cases hbefore : m.block.before with
  | none =>
    simp only [hbefore] at h
    exact nomatch h
  | some t =>
    have ht : t ∈ m.block.group .input true := List.mem_of_head? hbefore
    obtain ⟨hmem, hrole⟩ := List.mem_filter.mp ht
    simp only [Bool.and_eq_true, decide_eq_true_eq, beq_iff_eq, Terminal.isControl] at hrole
    exact Block.active_of_control hb hk hmem hrole.1 hrole.2

theorem build_of_all {built : List (Node × Bool)} (h : all x vars = .ok built) :
    built.length = x.instances.length ∧
    ∀ (i : Nat) (env : EnvId) (m : Member), x.instances[i]? = some (env, m) →
      ∃ k n entry, m.kind? = some k ∧ build x vars.idxOf env m k = .ok n ∧
        isEntry x env m = .ok entry ∧ built[i]? = some (n, entry) := by
  have hall := fun hsome => Outcome.filterMapM_eq_ok hsome h
  obtain ⟨hlen, hget⟩ := hall fun a ha o ho => by
    obtain ⟨env, m⟩ := a
    obtain ⟨k, hk⟩ := Option.isSome_iff_exists.mp (Expansion.mem_instances ha).1
    simp only [hk] at ho
    obtain ⟨n, -, ho⟩ := Outcome.bind_eq_ok.mp ho
    obtain ⟨entry, -, ho⟩ := Outcome.bind_eq_ok.mp ho
    cases ho
    rfl
  refine ⟨hlen, fun i env m hi => ?_⟩
  obtain ⟨⟨n, entry⟩, hb, hf⟩ := hget i (env, m) hi
  obtain ⟨k, hk⟩ :=
    Option.isSome_iff_exists.mp (Expansion.mem_instances (List.mem_of_getElem? hi)).1
  simp only [hk] at hf
  obtain ⟨n', hn', hf⟩ := Outcome.bind_eq_ok.mp hf
  obtain ⟨entry', hentry', hf⟩ := Outcome.bind_eq_ok.mp hf
  cases hf
  exact ⟨k, n, entry, hk, hn', hentry', hb⟩

theorem all_eq_ok {built : List (Node × Bool)} (h : all x vars = .ok built) :
    built.length = x.instances.length ∧
    ∀ (i : Nat) (env : EnvId) (m : Member), x.instances[i]? = some (env, m) →
      ∃ k n entry, m.kind? = some k ∧ Built x vars.idxOf env m k n ∧
        isEntry x env m = .ok entry ∧ built[i]? = some (n, entry) := by
  obtain ⟨hlen, hget⟩ := build_of_all h
  refine ⟨hlen, fun i env m hi => ?_⟩
  obtain ⟨k, n, entry, hk, hn, hentry, hb⟩ := hget i env m hi
  exact ⟨k, n, entry, hk, built_of_build hn, hentry, hb⟩

end Nodes
end SignalGraph
