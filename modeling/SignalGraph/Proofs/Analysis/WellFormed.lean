import SignalGraph.Program.Basic
import SignalGraph.Proofs.Blocks.Catalogs

/-!
# Well-formed programs

What both ways of running a program rely on: the tables of a node agree with the shape of its kind,
every reference leads to something of the right type, and neither reading nor control goes in
circles.
-/

namespace SignalGraph

namespace Program

def IsStatement (p : Program) (id : NodeId) : Prop :=
  ∃ n, p.nodes[id]? = some n ∧ n.statement = true

/-- A statement whose body runs after the physics step. -/
def IsLate (p : Program) (id : NodeId) : Prop :=
  ∃ n, p.nodes[id]? = some n ∧ n.kind = .statement .lateUpdate

def Offers (p : Program) (source : Producer) (type : WireType) : Prop :=
  ∃ n, p.nodes[source.node]? = some n ∧ n.outputs[source.output]? = some type

def Reads (p : Program) (id source : NodeId) : Prop :=
  ∃ n w, p.nodes[id]? = some n ∧ n.statement = false ∧ Operand.wire w ∈ n.inputs ∧
    w.source.node = source

/-- A statement and one that it starts. -/
def Leads (p : Program) (id target : NodeId) : Prop :=
  ∃ n ids, p.nodes[id]? = some n ∧ ids ∈ n.controls ∧ target ∈ ids

/-- Every slot of a node is its own. -/
def Owns (p : Program) (id : NodeId) (n : Node) : Prop :=
  ∀ slot ∈ n.slots, ∃ decl, p.slots[slot]? = some decl ∧ decl.owner = id

/-- Two nodes have no slot in common. -/
theorem Owns.disjoint {p : Program} {id id' : NodeId} {n n' : Node} (h : p.Owns id n)
    (h' : p.Owns id' n') (hne : id ≠ id') : ∀ slot ∈ n.slots, slot ∉ n'.slots := by
  intro slot hslot hslot'
  obtain ⟨decl, hdecl, howner⟩ := h slot hslot
  obtain ⟨decl', hdecl', howner'⟩ := h' slot hslot'
  cases hdecl.symm.trans hdecl'
  exact hne (howner.symm.trans howner')

/-- A measure of the nodes that falls along a relation. -/
structure Falls (p : Program) (r : NodeId → NodeId → Prop) (rank : NodeId → Nat) : Prop where
  bounded : ∀ id, id < p.nodes.size → rank id < p.nodes.size
  falls : ∀ id next, r id next → rank next < rank id

end Program

structure Wire.Fits (p : Program) (type : WireType) (w : Wire) : Prop where
  source : p.Offers w.source w.type
  drives : w.type.drives type = true
  deref : w.deref = (w.type.isPointer && !type.isPointer)
  memo : ∀ k, w.memo = some k → ∃ m, p.memoPoints[k]? = some m ∧ m.source = w.source

inductive Operand.Fits (p : Program) (pin : Pin) : Operand → Prop
  | default {b : Base} {v : Value} :
    pin.type = .value b → pin.optional = false → v.HasBase b → Fits p pin (.default v)
  | absent : pin.type.isPointer = true ∨ pin.optional = true → Fits p pin .absent
  | wire {w : Wire} : w.Fits p pin.type → Fits p pin (.wire w)

structure Node.Fits (p : Program) (id : NodeId) (n : Node) : Prop where
  plain : n.kind.isPlain = true
  known : n.kind ≠ .comment
  statement : n.statement = n.kind.shape.active
  arity : n.inputs.length = n.kind.shape.inputs.length
  inputs : ∀ (i : Nat) (pin : Pin), n.kind.shape.inputs[i]? = some pin →
    ∃ o, n.inputs[i]? = some o ∧ o.Fits p pin
  outputs : n.outputs = n.kind.shape.dataOutputs.map (·.type)
  controls : n.controls.length =
    n.kind.shape.branches.length + if n.kind.shape.active then 1 else 0
  targets : ∀ ids ∈ n.controls, ∀ target ∈ ids, p.IsStatement target
  slots : ∀ (i : Nat) (purpose : String) (type : Base), n.kind.slots[i]? = some (purpose, type) →
    ∃ slot, n.slots[i]? = some slot ∧ p.slots[slot]? = some { owner := id, purpose, type }
  named : ∀ type, n.kind.variableType = some type →
    ∃ var v, n.constant = .names var ∧ p.vars[var]? = some v ∧ type = .value v.type

/-- Only outputs of expressions are memo points. -/
def MemoPoint.Fits (p : Program) (m : MemoPoint) : Prop :=
  ∃ n, p.nodes[m.source.node]? = some n ∧ n.statement = false ∧
    n.outputs[m.source.output]? = some m.type

structure Program.WellFormed (p : Program) : Prop where
  nodes : ∀ (id : NodeId) (n : Node), p.nodes[id]? = some n → n.Fits p id
  entryPoints : ∀ id ∈ p.entryPoints, p.IsStatement id
  memoPoints : ∀ m ∈ p.memoPoints, m.Fits p
  reads : ∃ rank, p.Falls p.Reads rank
  leads : ∃ rank, p.Falls p.Leads rank

/-- The memo point of a wire is of the type of the wire. -/
theorem Wire.Fits.memoPoint {p : Program} (hp : p.WellFormed) {type : WireType} {w : Wire}
    (hw : w.Fits p type) {k : MemoId} (hk : w.memo = some k) :
    ∃ m, p.memoPoints[k]? = some m ∧ m.source = w.source ∧ m.type = w.type := by
  obtain ⟨m, hm, hsource⟩ := hw.memo k hk
  obtain ⟨n, hn, -, hout⟩ := hp.memoPoints m (List.mem_of_getElem? hm)
  obtain ⟨n', hn', hout'⟩ := hw.source
  rw [hsource, hn'] at hn
  cases hn
  rw [hsource, hout'] at hout
  exact ⟨m, hm, hsource, (Option.some.inj hout).symm⟩

/-- A wire is of the type of its reader, or the reader wants the value behind its pointer. -/
theorem Wire.Fits.read {p : Program} {type : WireType} {w : Wire} (hw : w.Fits p type) :
    (w.deref = false ∧ w.type = type) ∨
      ∃ b, w.deref = true ∧ w.type = .pointer b ∧ type = .value b := by
  have hdrives := hw.drives
  have hderef := hw.deref
  cases htype : w.type with
  | void =>
    rw [htype] at hdrives hderef
    cases type <;> simp [WireType.drives, WireType.isPointer] at hdrives hderef ⊢
    exact hderef
  | value b =>
    rw [htype] at hdrives hderef
    cases type <;> simp_all [WireType.drives, WireType.isPointer]
  | pointer b =>
    rw [htype] at hdrives hderef
    cases type <;> simp_all [WireType.drives, WireType.isPointer]

/-- Every wire into a node is right for the input it leads to. -/
theorem Node.Fits.fits_of_wire {p : Program} {id : NodeId} {n : Node} (h : n.Fits p id) {w : Wire}
    (hw : Operand.wire w ∈ n.inputs) : ∃ type, w.Fits p type := by
  obtain ⟨i, hi⟩ := List.getElem?_of_mem hw
  have hlt := (List.getElem?_eq_some_iff.mp hi).1
  rw [h.arity] at hlt
  obtain ⟨o, ho, hfits⟩ := h.inputs i _ (List.getElem?_eq_getElem hlt)
  rw [hi] at ho
  cases ho
  cases hfits with
  | wire hw => exact ⟨_, hw⟩

theorem Program.node_eq_ok {p : Program} {id : NodeId} {n : Node} (h : p.nodes[id]? = some n) :
    p.node id = .ok n := by
  rw [Program.node, h]

theorem Program.getElem?_of_node {p : Program} {id : NodeId} {n : Node} (h : p.node id = .ok n) :
    p.nodes[id]? = some n := by
  unfold Program.node at h
  split at h
  · next n' hn' =>
    cases h
    exact hn'
  · exact nomatch h

theorem Node.input_eq_ok {n : Node} {i : Nat} {o : Operand} (h : n.inputs[i]? = some o) :
    n.input i = .ok o := by
  rw [Node.input, h]

theorem Node.slot_eq_ok {n : Node} {i : Nat} {slot : SlotId} (h : n.slots[i]? = some slot) :
    n.slot i = .ok slot := by
  rw [Node.slot, h]

theorem Node.shape_of_statement {n : Node} {st : Statement} (h : n.kind = .statement st) :
    n.kind.shape = st.shape := by
  rw [h]
  rfl

/-- Only statements lead anywhere. -/
theorem Node.Fits.isStatement_of_controls {p : Program} {id : NodeId} {n : Node} (h : n.Fits p id)
    {ids : List NodeId} (hids : ids ∈ n.controls) : n.statement = true := by
  have hlen := List.length_pos_of_mem hids
  rw [h.controls] at hlen
  have hplain := h.plain
  have hknown := h.known
  rw [h.statement]
  cases hkind : n.kind with
  | comment => exact absurd hkind hknown
  | statement s =>
    rw [hkind] at hplain
    exact (Statement.hasDataInputs s hplain).2
  | expression x =>
    rw [hkind] at hlen hplain
    obtain ⟨-, hactive, hbranches⟩ := Expression.hasDataInputs x hplain
    rw [show (Kind.expression x).shape = x.shape from rfl, hactive, hbranches] at hlen
    exact absurd hlen (Nat.lt_irrefl 0)

theorem Node.Fits.statementKind {p : Program} {id : NodeId} {n : Node} (h : n.Fits p id)
    (hs : n.statement = true) : ∃ st, n.kind = .statement st := by
  have hplain := h.plain
  have hactive := h.statement
  cases hkind : n.kind with
  | comment => exact absurd hkind h.known
  | statement st => exact ⟨st, rfl⟩
  | expression x =>
    rw [hkind] at hplain hactive
    rw [hs, show (Kind.expression x).shape.active = false from
      (Expression.hasDataInputs x hplain).2.1] at hactive
    exact nomatch hactive

theorem Node.Fits.expressionKind {p : Program} {id : NodeId} {n : Node} (h : n.Fits p id)
    (hs : n.statement = false) : ∃ x, n.kind = .expression x := by
  have hplain := h.plain
  have hactive := h.statement
  cases hkind : n.kind with
  | comment => exact absurd hkind h.known
  | expression x => exact ⟨x, rfl⟩
  | statement st =>
    rw [hkind] at hplain hactive
    rw [hs, show (Kind.statement st).shape.active = true from
      (Statement.hasDataInputs st hplain).2] at hactive
    exact nomatch hactive

theorem Node.Fits.dataOutput {p : Program} {id : NodeId} {n : Node} (h : n.Fits p id) {i : Nat}
    {type : WireType} (hout : n.outputs[i]? = some type) :
    ∃ pin, n.kind.shape.dataOutputs[i]? = some pin ∧ pin.type = type := by
  rw [h.outputs, List.getElem?_map] at hout
  exact Option.map_eq_some_iff.mp hout

/-- A branch of the shape is a control output of the node. -/
theorem Node.Fits.branch {p : Program} {id : NodeId} {n : Node} (h : n.Fits p id) {i : Nat}
    (hi : i < n.kind.shape.branches.length) : ∃ ids ∈ n.controls, n.branch i = .ok ids := by
  have hlen : i < n.controls.dropLast.length := by
    rw [List.length_dropLast, h.controls]
    have hactive : n.kind.shape.active = true := by
      have hmem := List.getElem_mem (l := n.controls) (n := 0) (by rw [h.controls]; omega)
      rw [← h.statement]
      exact h.isStatement_of_controls hmem
    rw [if_pos hactive]
    omega
  refine ⟨n.controls.dropLast[i], List.dropLast_subset _ (List.getElem_mem hlen), ?_⟩
  rw [Node.branch, List.getElem?_eq_getElem hlen]

/-- What runs after a statement is a control output as well. -/
theorem Node.Fits.after {p : Program} {id : NodeId} {n : Node} (h : n.Fits p id)
    (hs : n.statement = true) : n.after ∈ n.controls := by
  have hne : n.controls ≠ [] := by
    intro hnil
    have hlen := h.controls
    rw [hnil, ← h.statement, hs, if_pos rfl] at hlen
    exact nomatch hlen
  rw [Node.after, List.getLastD_eq_getLast?, List.getLast?_eq_some_getLast hne, Option.getD_some]
  exact List.getLast_mem hne

theorem Program.mem_lateNodes {p : Program} {id : NodeId} : id ∈ p.lateNodes ↔ p.IsLate id := by
  rw [lateNodes, List.mem_filter, List.mem_range]
  constructor
  · rintro ⟨hlt, hlate⟩
    rw [Array.getElem?_eq_getElem hlt] at hlate
    exact ⟨_, Array.getElem?_eq_getElem hlt, of_decide_eq_true hlate⟩
  · rintro ⟨n, hget, hkind⟩
    rw [hget]
    exact ⟨(Array.getElem?_eq_some_iff.mp hget).1, decide_eq_true hkind⟩

namespace Kind

/-- The value of an unconnected input is of the type of the input. -/
theorem hasBase_inputDefault {k : Kind} {i : Nat} {pin : Pin} {b : Base}
    (hpin : k.shape.inputs[i]? = some pin) (hb : pin.type = .value b) :
    (k.inputDefault i pin.type).HasBase b := by
  unfold inputDefault
  split
  all_goals first
    | (rw [hb]; exact Value.hasBase_default b)
    | (cases hpin
       cases hb
       trivial)

end Kind
end SignalGraph
