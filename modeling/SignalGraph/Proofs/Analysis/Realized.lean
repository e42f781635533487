import SignalGraph.Proofs.Analysis.Tracing.DataTraces

/-!
# Realized documents

How a program hangs together with the document it was made from.  Every built-in block is a node
with the tables of its kind, every input of a node holds what the wires bring to it, the slots are
shared out among the nodes, and environments come after those that enclose them.
-/

namespace SignalGraph

namespace Expansion

/-- Environments come after those they are in. -/
def Descending (scopes : List Scope) : Prop :=
  ∀ (env : EnvId) (s : Scope) (parent : EnvId) (custom : Pos), scopes[env]? = some s →
    s.environment.parent = some (parent, custom) → parent < env

variable {c : Catalog} {d : Document} {x : Expansion}

theorem descending_snoc {scopes : List Scope} {s : Scope} (h : Descending scopes)
    (hs : ∀ parent custom, s.environment.parent = some (parent, custom) → parent < scopes.length) :
    Descending (scopes ++ [s]) := by
  intro env t parent custom ht hparent
  rcases of_getElem?_snoc ht with ⟨-, ht⟩ | ⟨rfl, rfl⟩
  · exact h env t parent custom ht hparent
  · exact hs parent custom hparent

theorem descending_expandGraph : ∀ (depth : Nat) (enclosing : List GraphId) (scopes : List Scope)
    (graph : Graph) (parent : Option (EnvId × Pos)) (after : List Scope),
    expandGraph c d depth enclosing scopes graph parent = .ok after → Descending scopes →
      (∀ env custom, parent = some (env, custom) → env < scopes.length) → Descending after := by
  intro depth
  induction depth with
  | zero => exact fun _ _ _ _ _ h _ _ => nomatch h
  | succ depth ih =>
    intro enclosing scopes graph parent after h hscopes hparent
    rw [expandGraph] at h
    obtain ⟨ms, -, h⟩ := Outcome.bind_eq_ok.mp h
    refine (Outcome.foldlM_induct (fun mid => Descending mid ∧ scopes.length < mid.length) h
      ⟨descending_snoc hscopes hparent, by simp⟩ ?_).1
    rintro m - mid mid' ⟨hmid, hlt⟩ hstep
    split at hstep
    · obtain ⟨⟨more, rfl⟩, -⟩ := grown_of_expandGraph _ _ _ _ _ _ hstep
      refine ⟨ih _ _ _ _ _ hstep hmid fun env custom heq => ?_, ?_⟩
      · cases heq
        exact hlt
      · rw [List.length_append]
        omega
    · cases hstep
      exact ⟨hmid, hlt⟩

theorem descending_ofDocument (h : ofDocument c d = .ok x) : Descending x.scopes := by
  unfold ofDocument at h
  obtain ⟨scopes, hscopes, h⟩ := Outcome.bind_eq_ok.mp h
  cases h
  exact descending_expandGraph _ _ _ _ _ _ hscopes (fun _ _ _ _ hs => nomatch hs) nofun

end Expansion

namespace Sharing

/-- The nodes share out the slots from the first on, in order. -/
theorem flatMap_assignSlots : ∀ (nodes : List Node) (first : SlotId),
    (assignSlots first nodes).flatMap (·.slots) = List.range' first (slotCount nodes)
  | [], _ => rfl
  | n :: rest, first => by
    have hcount : slotCount (n :: rest) = n.kind.slots.length + slotCount rest := by
      simp [slotCount]
    rw [assignSlots, List.flatMap_cons, flatMap_assignSlots rest, hcount, ← List.range'_append_1]

end Sharing

/-- What an input at a place holds: the output that the wires lead to it, or else what its pin has
when nothing is connected. -/
inductive Program.Holds (p : Program) (x : Expansion) (q : Place) (pin : Pin) : Operand → Prop
  | wire {w : Wire} {l : List Strand} : x.Way q l (some (w.source, w.type)) →
      p.Offers w.source w.type → w.type.drives pin.type = true →
      w.deref = (w.type.isPointer && !pin.type.isPointer) → Holds p x q pin (.wire w)
  | absent {l : List Strand} : x.Way q l none →
      pin.type.isPointer = true ∨ pin.optional = true → Holds p x q pin .absent
  | default {l : List Strand} {v : Value} {b : Base} : x.Way q l none →
      pin.optional = false → pin.type = .value b → v.HasBase b → Holds p x q pin (.default v)

structure Node.Realizes (p : Program) (x : Expansion) (id : NodeId) (env : EnvId) (m : Member)
    (n : Node) : Prop where
  place : n.env = env ∧ n.pos = m.decl.pos
  kind : m.block.template = .builtin n.kind
  arity : n.inputs.length = n.kind.shape.inputs.length
  inputs : ∀ (i : Nat) (pin : Pin), n.kind.shape.inputs[i]? = some pin →
    ∃ t o, m.block.dataInputs[i]? = some t ∧ t.type = pin.type ∧ n.inputs[i]? = some o ∧
      p.Holds x ⟨env, m.decl.pos, t.pos⟩ pin o
  outputs : n.outputs = n.kind.shape.dataOutputs.map (·.type)
  statement : n.statement = true ↔ ∃ s, n.kind = .statement s
  /-- The branches, and what runs after the statement. -/
  controls : n.controls.length = if n.statement then n.kind.shape.branches.length + 1 else 0
  targets : ∀ ids ∈ n.controls, ∀ target ∈ ids, p.IsStatement target
  named : ∀ type, n.kind = .expression (.getVariable type) ∨
      n.kind = .statement (.setVariable type) →
    ∃ var v, n.constant = .names var ∧ p.vars[var]? = some v ∧ type.toValue = .value v.type
  slots : n.slots.map (p.slots[·]?) =
    n.kind.slots.map fun (purpose, type) => some { owner := id, purpose, type }

structure Program.Realizes (p : Program) (x : Expansion) : Prop where
  size : p.nodes.size = x.instances.length
  nodes : ∀ (id : NodeId) (env : EnvId) (m : Member), x.instances[id]? = some (env, m) →
    ∃ n, p.nodes[id]? = some n ∧ n.Realizes p x id env m
  /-- No slot is in the lists of two nodes. -/
  disjoint : ∀ (id id' : NodeId) (n n' : Node), p.nodes[id]? = some n → p.nodes[id']? = some n' →
    id ≠ id' → n.slots.Disjoint n'.slots
  /-- Every slot is in the list of some node, and once. -/
  shared : p.nodes.toList.flatMap (·.slots) = List.range p.slots.length
  parents : ∀ (env : EnvId) (e : Environment) (parent : EnvId) (custom : Pos),
    p.environments[env]? = some e → e.parent = some (parent, custom) → parent < env

namespace Program

namespace Stages

variable {c : Catalog} {p : Program} {x : Expansion} {built : List (Node × Bool)}
  {nodes : List Node} {volatile : List NodeId}

theorem flatMap_slots (h : Stages c p x built nodes volatile) :
    p.nodes.toList.flatMap (·.slots) = List.range p.slots.length := by
  rw [h.finished, h.slots, Sharing.flatMap_assignSlots, Sharing.slotCount_tag, List.range_eq_range',
    Sharing.slots, Sharing.length_flatMap_slots]

theorem map_slots (h : Stages c p x built nodes volatile) {id : NodeId} {n : Node}
    (hn : p.nodes[id]? = some n) : n.slots.map (p.slots[·]?) =
      n.kind.slots.map fun (purpose, type) => some { owner := id, purpose, type } := by
  have hlen : n.slots.length = n.kind.slots.length := by
    obtain ⟨n₀, first, -, rfl⟩ := h.unshared hn
    exact List.length_range'
  refine List.ext_getElem? fun i => ?_
  rw [List.getElem?_map, List.getElem?_map]
  cases hslot : n.kind.slots[i]? with
  | none =>
    rw [List.getElem?_eq_none_iff, ← hlen, ← List.getElem?_eq_none_iff] at hslot
    rw [hslot]
    rfl
  | some entry =>
    obtain ⟨purpose, type⟩ := entry
    obtain ⟨slot, hget, hdecl⟩ := (h.node_fits hn).slots i purpose type hslot
    rw [hget, Option.map_some, hdecl]
    rfl

/-- The input of a built-in block holds what the wires bring to it. -/
theorem holds_of_operand (h : Stages c p x built nodes volatile) {d : Document}
    (hx : Expansion.ofDocument c d = .ok x) {env : EnvId} {s : Scope} {m : Member} {k : Kind}
    {i : Nat} {t : Terminal} {pin : Pin} {o : Operand} (hs : x.scopes[env]? = some s)
    (hm : m ∈ s.members) (ht : t ∈ m.block.dataInputs) (hb : m.block.Builtin k)
    (hk : k.isPlain = true) (hpin : k.shape.inputs[i]? = some pin) (htype : t.type = pin.type)
    (ho : Nodes.operand x env m k i t = .ok o) :
    p.Holds x ⟨env, m.decl.pos, t.pos⟩ pin (Sharing.tagOperand p.memoPoints o) := by
  have hfits := h.operand_fits hb hk hpin htype ho
  have hway : ∀ start, x.driver ⟨env, m.decl.pos, t.pos⟩ = .ok start →
      ∃ l, x.Way ⟨env, m.decl.pos, t.pos⟩ l start := fun start =>
    (Expansion.driver_eq_ok_iff h.stocked.made hx hs hm ht h.checked).mp
  rcases Nodes.operand_eq_ok ho with ⟨source, type, hdriver, -, rfl⟩ | ⟨hdriver, -, rfl⟩ |
    ⟨hdriver, -, rfl⟩
  · obtain ⟨l, hway⟩ := hway _ hdriver
    obtain ⟨memo, htag, -⟩ := Sharing.tagOperand_wire p.memoPoints
      { source, type, deref := type.isPointer && !t.type.isPointer, memo := none }
    rw [htag] at hfits ⊢
    cases hfits with
    | wire hw => exact .wire hway hw.source hw.drives hw.deref
  · obtain ⟨l, hway⟩ := hway _ hdriver
    cases hfits with
    | absent hpin => exact .absent hway hpin
  · obtain ⟨l, hway⟩ := hway _ hdriver
    cases hfits with
    | default hpin hoptional hv => exact .default hway hoptional hpin hv

theorem realizes_of_instance (h : Stages c p x built nodes volatile) {d : Document}
    (hx : Expansion.ofDocument c d = .ok x) {id : NodeId} {env : EnvId} {m : Member}
    (hi : x.instances[id]? = some (env, m)) :
    ∃ n, p.nodes[id]? = some n ∧ n.Realizes p x id env m := by
  obtain ⟨k, n₀, _, constant, hk, hbuilt, -, -, -, -, hget⟩ := h.node_of_instance hi
  obtain ⟨hplain, hb, hknown⟩ := h.builtin_of_instance (List.mem_of_getElem? hi) hk
  obtain ⟨-, s, hs, hm⟩ := Expansion.mem_instances (List.mem_of_getElem? hi)
  have hkind := hbuilt.kind
  subst hkind
  have hfits := h.node_fits hget
  refine ⟨_, hget, ⟨hbuilt.environment, hbuilt.position⟩, hb.template.trans (if_neg hknown),
    hfits.arity, fun i pin hpin => ?_, hfits.outputs, ⟨hfits.statementKind, ?_⟩, ?_, hfits.targets,
    fun type htype => ?_, h.map_slots hget⟩
  · obtain ⟨t, ht, htype⟩ := Block.exists_dataInput hb hplain hpin
    obtain ⟨o, ho, hoperand⟩ := hbuilt.inputs i t ht
    refine ⟨t, Sharing.tagOperand p.memoPoints o, ht, htype, ?_, h.holds_of_operand hx hs hm
      (List.mem_of_getElem? ht) hb hplain hpin htype hoperand⟩
    exact (List.getElem?_map ..).trans (by rw [ho]; rfl)
  · rintro ⟨st, hst⟩
    have hactive := hfits.statement
    have hplain := hfits.plain
    rw [hst] at hactive hplain
    exact hactive.trans (Statement.hasDataInputs st hplain).2
  · rw [hfits.controls, ← hfits.statement]
    split
    · rfl
    · next hs =>
      obtain ⟨e, he⟩ := hfits.expressionKind (Bool.eq_false_iff.mpr hs)
      have hplain := hfits.plain
      rw [he] at hplain ⊢
      rw [show (Kind.expression e).shape = e.shape from rfl,
        (Expression.hasDataInputs e hplain).2.2]
      rfl
  · refine hfits.named _ ?_
    rcases htype with hkind | hkind
    · rw [hkind]
      rfl
    · rw [hkind]
      rfl

/-- A node has slots of its own. -/
theorem owns (h : Stages c p x built nodes volatile) {id : NodeId} {n : Node}
    (hget : p.nodes[id]? = some n) : p.Owns id n := by
  intro slot hslot
  have hmem := List.mem_map_of_mem (f := (p.slots[·]?)) hslot
  rw [h.map_slots hget] at hmem
  obtain ⟨entry, -, hdecl⟩ := List.mem_map.mp hmem
  exact ⟨_, hdecl.symm, rfl⟩

end Stages

/-- A program that analysis returns realizes the document. -/
theorem realizes_of_analyse {c : Catalog} {d : Document} {p : Program} (hc : c.Stocked)
    (h : analyse c d = .ok p) : ∃ x, Expansion.ofDocument c d = .ok x ∧ p.Realizes x := by
  obtain ⟨x, built, nodes, volatile, hx, hstages⟩ := stages_of_analyse hc h
  refine ⟨x, hx, hstages.length_nodes.2.trans hstages.length_nodes.1,
    fun id env m hi => hstages.realizes_of_instance hx hi,
    fun id id' n n' hn hn' => (hstages.owns hn).disjoint (hstages.owns hn'),
    hstages.flatMap_slots, ?_⟩
  intro env e parent custom he hparent
  rw [hstages.environments, List.getElem?_map, Option.map_eq_some_iff] at he
  obtain ⟨s, hs, rfl⟩ := he
  exact Expansion.descending_ofDocument hx env s parent custom hs hparent

/-- Two blocks that each count up to a number of their own, wired one after the other. -/
def counting : Document where
  main := {
    id := 0
    nodes := [{ pos := ⟨0, 0, 0⟩, kind := 238 }, { pos := ⟨4, 0, 4⟩, kind := 1000 },
      { pos := ⟨8, 0, 8⟩, kind := 1000 }]
    connections := [.between ⟨0, 0, 0⟩ ⟨3, 1, 0⟩ ⟨4, 0, 4⟩ ⟨0, 1, 3⟩,
      .between ⟨4, 0, 4⟩ ⟨15, 1, 3⟩ ⟨8, 0, 8⟩ ⟨0, 1, 3⟩] }
  blocks := [{
    id := 1000
    name := "count"
    footprint := ⟨2, 1⟩
    terminals := [{ type := .void, dir := .input }, { type := .void, dir := .output }]
    graph := {
      id := 7
      nodes := [{ pos := ⟨0, 0, 0⟩, kind := 36, settings := [.int 2] },
        { pos := ⟨4, 0, 4⟩, kind := 560 }]
      connections := [.between ⟨0, 0, 0⟩ ⟨15, 1, 3⟩ ⟨4, 0, 4⟩ ⟨0, 1, 3⟩,
        .between .outside ⟨0, 1, 3⟩ ⟨4, 0, 4⟩ ⟨3, 1, 15⟩,
        .between ⟨4, 0, 4⟩ ⟨3, 1, 0⟩ .outside ⟨15, 1, 3⟩] } }]

theorem exists_analyse_counting : ∃ c p, c.Stocked ∧ analyse c counting = .ok p ∧
    p.nodes.size = 5 ∧ p.slots.map (·.owner) = [2, 4] ∧
    p.nodes.toList.map (·.slots) = [[], [], [0], [], [1]] := by
  have hsome : (Catalog.stock.bind fun c =>
    (counting.blocks.foldlM Catalog.addCustom c).bind fun c =>
      analyse c counting).toOption.any (fun p => p.nodes.size = 5 ∧
        p.slots.map (·.owner) = [2, 4] ∧
        p.nodes.toList.map (·.slots) = [[], [], [0], [], [1]]) = true := by
    decide +kernel
  obtain ⟨c, p, hc, hp, hsizes⟩ := Catalog.exists_stocked hsome
  exact ⟨c, p, hc, hp, of_decide_eq_true hsizes⟩

theorem realizes_of_analyse_counting : ∃ c p x, c.Stocked ∧ analyse c counting = .ok p ∧
    Expansion.ofDocument c counting = .ok x ∧ p.Realizes x := by
  obtain ⟨c, p, hc, hp, -⟩ := exists_analyse_counting
  obtain ⟨x, hx, hrealizes⟩ := realizes_of_analyse hc hp
  exact ⟨c, p, x, hc, hp, hx, hrealizes⟩

end Program
end SignalGraph
