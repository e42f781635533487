import SignalGraph.Analysis.Analyse
import SignalGraph.Proofs.Analysis.Building
import SignalGraph.Proofs.Search.Basic

namespace SignalGraph

namespace Sharing

def slotCount (nodes : List Node) : Nat := (nodes.flatMap fun n => n.kind.slots).length

theorem slotCount_tag (points : List MemoPoint) (nodes : List Node) :
    slotCount (tag points nodes) = slotCount nodes := by
  unfold slotCount tag
  rw [List.flatMap_map]

theorem getElem?_assignSlots : ∀ (nodes : List Node) (first : SlotId) (i : Nat),
    (assignSlots first nodes)[i]? = (nodes[i]?).map fun n =>
      { n with slots := List.range' (first + slotCount (nodes.take i)) n.kind.slots.length }
  | [], _, _ => rfl
  | n :: rest, first, 0 => rfl
  | n :: rest, first, i + 1 => by
    simp only [assignSlots, List.getElem?_cons_succ, List.take_succ_cons]
    rw [getElem?_assignSlots rest]
    simp [slotCount, Nat.add_assoc]

theorem length_assignSlots : ∀ (nodes : List Node) (first : SlotId),
    (assignSlots first nodes).length = nodes.length
  | [], _ => rfl
  | n :: rest, first => by
    rw [assignSlots, List.length_cons, length_assignSlots rest, List.length_cons]

def finished (points : List MemoPoint) (first : SlotId) (n : Node) : Node :=
  { n with
    inputs := n.inputs.map (tagOperand points)
    slots := List.range' first n.kind.slots.length }

theorem getElem?_finished (points : List MemoPoint) (nodes : List Node) (i : Nat) :
    (assignSlots 0 (tag points nodes))[i]? =
      (nodes[i]?).map (finished points (slotCount (nodes.take i))) := by
  rw [getElem?_assignSlots, Nat.zero_add]
  have htake : (tag points nodes).take i = tag points (nodes.take i) := by
    unfold tag
    rw [List.map_take]
  rw [htake, slotCount_tag]
  unfold tag
  rw [List.getElem?_map]
  cases nodes[i]? <;> rfl

theorem length_flatMap_slots (nodes : List Node) (first : NodeId) :
    ((nodes.zipIdx first).flatMap fun (n, owner) =>
      n.kind.slots.map fun (purpose, type) => ({ owner, purpose, type } : Slot)).length =
      slotCount nodes := by
  induction nodes generalizing first with
  | nil => rfl
  | cons n rest ih =>
    rw [List.zipIdx_cons, List.flatMap_cons, List.length_append, ih]
    simp [slotCount]

/-- The slots of a node are those it is assigned. -/
theorem getElem?_slots {nodes : List Node} {i j : Nat} {n : Node} {purpose : String} {type : Base}
    (hn : nodes[i]? = some n) (hj : n.kind.slots[j]? = some (purpose, type)) :
    (slots nodes)[slotCount (nodes.take i) + j]? = some { owner := i, purpose, type } := by
  have hzip : nodes.zipIdx[i]? = some (n, i) := by simp [List.getElem?_zipIdx, hn]
  have hget := Expansion.getElem?_flatMap
    (f := fun (n, owner) => n.kind.slots.map fun (purpose, type) =>
      ({ owner, purpose, type } : Slot)) hzip (j := j) (b := { owner := i, purpose, type })
    (by simp [hj])
  rw [Expansion.take_zipIdx, length_flatMap_slots] at hget
  exact hget

theorem mem_ofNode {wires : List Wire} {volatile : List NodeId} {n : Node} {id : NodeId}
    {m : MemoPoint} :
    m ∈ ofNode wires volatile n id ↔ id ∉ volatile ∧ m.source.node = id ∧
      n.outputs[m.source.output]? = some m.type ∧
      m.consumers = wires.countP (·.source = m.source) ∧ 1 < m.consumers := by
  unfold ofNode
  by_cases hid : id ∈ volatile
  · simp [hid]
  rw [if_neg (by simpa using hid), List.mem_filterMap]
  constructor
  · rintro ⟨⟨type, output⟩, hout, hm⟩
    dsimp only at hm
    split at hm
    · next hshared =>
      cases hm
      exact ⟨hid, rfl, List.mem_zipIdx_iff_getElem?.mp hout, rfl, hshared⟩
    · cases hm
  · rintro ⟨-, rfl, hout, hcount, hshared⟩
    refine ⟨(m.type, m.source.output), List.mem_zipIdx_iff_getElem?.mpr hout, ?_⟩
    dsimp only
    rw [← hcount, if_pos hshared]

/-- The memo points are the outputs of lasting nodes with more than one reader. -/
theorem mem_memoPoints {nodes : List Node} {volatile : List NodeId} {m : MemoPoint} :
    m ∈ memoPoints nodes volatile ↔ ∃ n, nodes[m.source.node]? = some n ∧ m.source.node ∉ volatile ∧
      n.outputs[m.source.output]? = some m.type ∧
        m.consumers = (wires nodes).countP (·.source = m.source) ∧
      1 < m.consumers := by
  unfold memoPoints
  rw [List.mem_flatMap]
  constructor
  · rintro ⟨⟨n, id⟩, hn, hm⟩
    obtain ⟨hid, rfl, hrest⟩ := mem_ofNode.mp hm
    exact ⟨n, List.mem_zipIdx_iff_getElem?.mp hn, hid, hrest⟩
  · rintro ⟨n, hn, hid, hrest⟩
    exact ⟨(n, m.source.node), List.mem_zipIdx_iff_getElem?.mpr hn,
      mem_ofNode.mpr ⟨hid, rfl, hrest⟩⟩

/-- Tagging a wire only tells it the memo point of its source. -/
theorem tagOperand_wire (points : List MemoPoint) (w : Wire) : ∃ memo,
    tagOperand points (.wire w) = .wire { w with memo } ∧
      ∀ k, memo = some k → ∃ m, points[k]? = some m ∧ m.source = w.source := by
  refine ⟨_, rfl, fun k hk => ?_⟩
  obtain ⟨hlt, hsource, -⟩ := List.findIdx?_eq_some_iff_getElem.mp hk
  exact ⟨points[k], List.getElem?_eq_getElem hlt, by simpa using hsource⟩

theorem mem_tagOperand {points : List MemoPoint} {inputs : List Operand} {w : Wire}
    (h : Operand.wire w ∈ inputs.map (tagOperand points)) :
    ∃ w', Operand.wire w' ∈ inputs ∧ w.source = w'.source := by
  obtain ⟨o, ho, htag⟩ := List.mem_map.mp h
  cases o with
  | default v => exact nomatch htag
  | absent => exact nomatch htag
  | wire w' =>
    cases htag
    exact ⟨w', ho, rfl⟩

end Sharing

/-- Naming what is inspected changes only the constants of the blocks that inspect. -/
theorem Nodes.getElem?_nameInspected (vars : List Variable) {nodes : List Node} {i : Nat} {n : Node}
    (h : nodes[i]? = some n) : ∃ constant,
      (nameInspected vars nodes)[i]? = some { n with constant } ∧
        ((∀ type, n.kind ≠ .statement (.inspect type)) → constant = n.constant) := by
  unfold nameInspected
  rw [List.getElem?_map, h, Option.map_some]
  split
  · next t hkind => exact ⟨_, rfl, fun hne => absurd hkind (hne t)⟩
  · exact ⟨n.constant, rfl, fun _ => rfl⟩

/-! ## Order -/

namespace Order

variable {nodes : Array Node}

theorem mem_sources {inputs : List Operand} {id : NodeId} :
    id ∈ sources inputs ↔ ∃ w, Operand.wire w ∈ inputs ∧ w.source.node = id := by
  unfold sources
  rw [List.mem_filterMap]
  constructor
  · rintro ⟨o, ho, hid⟩
    cases o with
    | default v => exact nomatch hid
    | absent => exact nomatch hid
    | wire w =>
      cases hid
      exact ⟨w, ho, rfl⟩
  · rintro ⟨w, hw, rfl⟩
    exact ⟨.wire w, hw, rfl⟩

theorem rank_of_search {next : Nat → List Nat} {bound : Nat} {roots closed : List Nat}
    (h : DepthFirst.search next bound roots = .ok closed) (hroots : ∀ v ∈ roots, v < bound)
    (hnext : ∀ v, v < bound → ∀ u ∈ next v, u < bound)
    (hreach : ∀ v, next v ≠ [] → v ∈ roots) :
    ∃ rank : Nat → Nat, (∀ v, v < bound → rank v < bound) ∧
      ∀ v, ∀ u ∈ next v, rank u < rank v := by
  obtain ⟨hord, hsub⟩ := DepthFirst.ordered_of_search h
  have hlt := DepthFirst.search_induct (· < bound) hnext hroots h
  refine ⟨DepthFirst.rank closed, fun v hv => ?_, fun v u hu => ?_⟩
  · by_cases hmem : v ∈ closed
    · exact Nat.lt_of_lt_of_le (DepthFirst.rank_lt_length hmem)
        (DepthFirst.length_le_of_ordered hord hlt)
    · rw [DepthFirst.rank_of_not_mem hmem]
      omega
  · have hv : v ∈ closed := hsub (hreach v (List.ne_nil_of_mem hu))
    exact (DepthFirst.rank_lt_rank hord hv hu).2

theorem volatile_of_statement {id : NodeId} (hid : (nodes[id]?).any (·.statement) = true) :
    ∀ {closed : List NodeId}, id ∈ closed → id ∈ closed.foldr (addVolatile nodes) []
  | v :: closed, hmem => by
    rw [List.foldr_cons]
    have hrest : id ∈ closed → id ∈ addVolatile nodes v (closed.foldr (addVolatile nodes) []) := by
      intro hin
      have ih := volatile_of_statement hid hin
      unfold addVolatile
      split
      · exact List.mem_cons_of_mem v ih
      · exact ih
    cases hmem with
    | tail _ hin => exact hrest hin
    | head =>
      unfold addVolatile
      rw [if_pos (Or.inl hid)]
      exact List.mem_cons_self

/-- All statements are volatile. -/
theorem mem_volatileNodes {volatile : List NodeId} (h : volatileNodes nodes = .ok volatile)
    {id : NodeId} {n : Node} (hn : nodes[id]? = some n) (hs : n.statement = true) :
    id ∈ volatile := by
  unfold volatileNodes at h
  split at h
  · next closed hclosed =>
    cases h
    have hlt : id < nodes.size := (Array.getElem?_eq_some_iff.mp hn).1
    have hmem := (DepthFirst.ordered_of_search hclosed).2 (List.mem_range.mpr hlt)
    exact volatile_of_statement (by simp [hn, hs]) hmem
  · exact nomatch h

end Order

/-! ## Analysis -/

namespace Program

/-- The nodes of a program before they are told what they share. -/
def named (x : Expansion) (built : List (Node × Bool)) : List Node :=
  Nodes.nameInspected (Nodes.vars x) (built.map (·.1))

/-- The program of an expanded document, from its nodes and which of them are volatile. -/
def assemble (x : Expansion) (built : List (Node × Bool)) (volatile : List NodeId) : Program where
  environments := x.scopes.map (·.environment)
  nodes := (Sharing.assignSlots 0
    (Sharing.tag (Sharing.memoPoints (named x built) volatile) (named x built))).toArray
  entryPoints := (built.zipIdx.filter (·.1.2)).map (·.2)
  memoPoints := Sharing.memoPoints (named x built) volatile
  slots := Sharing.slots (named x built)
  vars := Nodes.vars x

theorem analyse_eq_ok {c : Catalog} {d : Document} {p : Program} : analyse c d = .ok p ↔
    ∃ x built volatile, Expansion.ofDocument c d = .ok x ∧ Wiring.check x = .ok () ∧
      Nodes.all x (Nodes.vars x) = .ok built ∧ Order.checkControl (named x built).toArray = .ok () ∧
      Order.volatileNodes (named x built).toArray = .ok volatile ∧
        p = assemble x built volatile := by
  unfold analyse
  constructor
  · intro h
    obtain ⟨x, hx, h⟩ := Outcome.bind_eq_ok.mp h
    obtain ⟨_, hcheck, h⟩ := Outcome.bind_eq_ok.mp h
    obtain ⟨built, hbuilt, h⟩ := Outcome.bind_eq_ok.mp h
    obtain ⟨_, hcontrol, h⟩ := Outcome.bind_eq_ok.mp h
    obtain ⟨volatile, hvolatile, h⟩ := Outcome.bind_eq_ok.mp h
    cases h
    exact ⟨x, built, volatile, hx, hcheck, hbuilt, hcontrol, hvolatile, rfl⟩
  · rintro ⟨x, built, volatile, hx, hcheck, hbuilt, hcontrol, hvolatile, rfl⟩
    refine Outcome.bind_eq_ok.mpr ⟨x, hx, Outcome.bind_eq_ok.mpr ⟨(), hcheck, ?_⟩⟩
    refine Outcome.bind_eq_ok.mpr ⟨built, hbuilt, Outcome.bind_eq_ok.mpr ⟨(), hcontrol, ?_⟩⟩
    exact Outcome.bind_eq_ok.mpr ⟨volatile, hvolatile, rfl⟩

structure Stages (c : Catalog) (p : Program) (x : Expansion) (built : List (Node × Bool))
    (nodes : List Node) (volatile : List NodeId) : Prop where
  stocked : c.Stocked
  expanded : ∃ d, Expansion.ofDocument c d = .ok x
  fits : Expansion.ScopesFit c x.scopes
  checked : Wiring.check x = .ok ()
  all : Nodes.all x (Nodes.vars x) = .ok built
  named : nodes = Nodes.nameInspected (Nodes.vars x) (built.map (·.1))
  control : Order.checkControl nodes.toArray = .ok ()
  order : Order.volatileNodes nodes.toArray = .ok volatile
  vars : p.vars = Nodes.vars x
  points : p.memoPoints = Sharing.memoPoints nodes volatile
  finished : p.nodes = (Sharing.assignSlots 0 (Sharing.tag p.memoPoints nodes)).toArray
  entries : p.entryPoints = (built.zipIdx.filter (·.1.2)).map (·.2)
  slots : p.slots = Sharing.slots nodes
  environments : p.environments = x.scopes.map (·.environment)

theorem stages_of_analyse {c : Catalog} {d : Document} {p : Program} (hc : c.Stocked)
    (h : analyse c d = .ok p) : ∃ x built nodes volatile, Expansion.ofDocument c d = .ok x ∧
      Stages c p x built nodes volatile := by
  obtain ⟨x, built, volatile, hx, hcheck, hbuilt, hcontrol, hvolatile, rfl⟩ := analyse_eq_ok.mp h
  exact ⟨x, built, _, volatile, hx, hc, ⟨d, hx⟩, Expansion.scopesFit_ofDocument hx, hcheck, hbuilt,
    rfl, hcontrol, hvolatile, rfl, rfl, rfl, rfl, rfl, rfl⟩

/-- What becomes of an instance once its node is built. -/
theorem finished_of_all {x : Expansion} {vars : List Variable} {built : List (Node × Bool)}
    (hall : Nodes.all x vars = .ok built) (points : List MemoPoint) {i : Nat} {env : EnvId}
    {m : Member} (hi : x.instances[i]? = some (env, m)) :
    ∃ k n entry constant, m.kind? = some k ∧ Nodes.Built x vars.idxOf env m k n ∧
      built[i]? = some (n, entry) ∧ Nodes.isEntry x env m = .ok entry ∧
      ((∀ type, k ≠ .statement (.inspect type)) → constant = n.constant) ∧
      (Nodes.nameInspected vars (built.map (·.1)))[i]? = some { n with constant } ∧
      (Sharing.assignSlots 0
          (Sharing.tag points (Nodes.nameInspected vars (built.map (·.1)))))[i]? =
        some (Sharing.finished points
          (Sharing.slotCount ((Nodes.nameInspected vars (built.map (·.1))).take i))
          { n with constant }) := by
  obtain ⟨k, n, entry, hk, hbuilt, hentry, hget⟩ := (Nodes.all_eq_ok hall).2 i env m hi
  have hfirst : (built.map (·.1))[i]? = some n := by simp [hget]
  obtain ⟨constant, hnamed, hkeep⟩ := Nodes.getElem?_nameInspected vars hfirst
  refine ⟨k, n, entry, constant, hk, hbuilt, hget, hentry, ?_, hnamed, ?_⟩
  · rw [← hbuilt.kind]
    exact hkeep
  · rw [Sharing.getElem?_finished, hnamed, Option.map_some]

theorem length_of_all {x : Expansion} {vars : List Variable} {built : List (Node × Bool)}
    (hall : Nodes.all x vars = .ok built) (points : List MemoPoint) :
    (Sharing.assignSlots 0
      (Sharing.tag points (Nodes.nameInspected vars (built.map (·.1))))).length =
        x.instances.length := by
  rw [Sharing.length_assignSlots, Sharing.tag, List.length_map, Nodes.nameInspected,
    List.length_map,
    List.length_map, (Nodes.all_eq_ok hall).1]

namespace Stages

variable {c : Catalog} {p : Program} {x : Expansion} {built : List (Node × Bool)}
  {nodes : List Node} {volatile : List NodeId}

/-- An instance and the node that is made of it. -/
theorem node_of_instance (h : Stages c p x built nodes volatile) {i : Nat} {env : EnvId}
    {m : Member}
    (hi : x.instances[i]? = some (env, m)) :
    ∃ k n entry constant, m.kind? = some k ∧ Nodes.Built x (Nodes.vars x).idxOf env m k n ∧
      built[i]? = some (n, entry) ∧ Nodes.isEntry x env m = .ok entry ∧
      ((∀ type, k ≠ .statement (.inspect type)) → constant = n.constant) ∧
        nodes[i]? = some { n with constant } ∧
      p.nodes[i]? = some (Sharing.finished p.memoPoints (Sharing.slotCount (nodes.take i))
        { n with constant }) := by
  rw [h.finished, List.getElem?_toArray, h.named]
  exact finished_of_all h.all p.memoPoints hi

theorem length_nodes (h : Stages c p x built nodes volatile) :
    nodes.length = x.instances.length ∧ p.nodes.size = nodes.length := by
  have hlen : nodes.length = x.instances.length := by
    rw [h.named, Nodes.nameInspected, List.length_map, List.length_map, (Nodes.all_eq_ok h.all).1]
  refine ⟨hlen, ?_⟩
  rw [hlen, h.finished, List.size_toArray, h.named, length_of_all h.all]

theorem exists_instance (h : Stages c p x built nodes volatile) {i : Nat}
    (hi : i < p.nodes.size) : ∃ env m, x.instances[i]? = some (env, m) := by
  have hlt : i < x.instances.length := by
    rw [← h.length_nodes.1, ← h.length_nodes.2]
    exact hi
  exact ⟨_, _, List.getElem?_eq_getElem hlt⟩

/-- The block of an instance is that of its kind. -/
theorem builtin_of_instance (h : Stages c p x built nodes volatile) {env : EnvId} {m : Member}
    {k : Kind} (hm : (env, m) ∈ x.instances) (hk : m.kind? = some k) :
    k.isPlain = true ∧ m.block.Builtin k ∧ k ≠ .comment := by
  obtain ⟨-, s, hs, hmem⟩ := Expansion.mem_instances hm
  have hregistered := Expansion.registered_of_member h.stocked h.fits
    (Expansion.member_pos h.fits hs hmem)
  refine Block.builtin_of_template hregistered ?_
  unfold Member.kind? at hk
  split at hk
  · next k' htemplate =>
    cases hk
    exact htemplate
  · exact nomatch hk

/-- The node of a built-in block that is found by its position. -/
theorem node_of_member (h : Stages c p x built nodes volatile) {env : EnvId} {pos : Pos}
    {m : Member}
    {k : Kind} (hm : x.member env pos = .ok m) (hk : m.block.template = .builtin k) :
    ∃ n, p.nodes[m.id]? = some n ∧ n.statement = m.block.active ∧
      n.outputs = m.block.dataOutputs.map (·.type) ∧ m.block.Builtin k ∧ k.isPlain = true := by
  obtain ⟨-, s, hs, hmem⟩ := Expansion.member_eq_ok hm
  have hkind : m.kind? = some k := by
    unfold Member.kind?
    rw [hk]
  have hbuiltin : m.isBuiltin = true := by
    unfold Member.isBuiltin
    rw [hkind]
    rfl
  have hi := Expansion.instances_id h.fits hs hmem hbuiltin
  obtain ⟨k', n, _, _, hk', hbuilt, -, -, -, -, hget⟩ := h.node_of_instance hi
  rw [hkind] at hk'
  cases hk'
  obtain ⟨hplain, hb, -⟩ := h.builtin_of_instance (List.mem_of_getElem? hi) hkind
  exact ⟨_, hget, hbuilt.statement, hbuilt.outputs, hb, hplain⟩

theorem offers_of_supplies (h : Stages c p x built nodes volatile) {source : Producer}
    {type : WireType} (hs : x.Supplies source type) (htype : type ≠ .void) :
    p.Offers source type := by
  obtain ⟨env, pos, m, k, t, hm, hk, ht, hdir, rfl, rfl⟩ := hs
  obtain ⟨n, hn, -, hout, hb, -⟩ := h.node_of_member hm hk
  refine ⟨n, hn, ?_⟩
  have hgroup := Block.group_ordinal hb.placed ht
  have hdata : t.isControl = false := by simpa [Terminal.isControl] using htype
  rw [hdir, hdata] at hgroup
  rw [hout, List.getElem?_map]
  unfold Block.dataOutputs
  rw [hgroup]
  rfl

theorem isStatement_of_starts (h : Stages c p x built nodes volatile) {id : NodeId}
    (hs : x.Starts id) : p.IsStatement id := by
  obtain ⟨env, pos, m, k, t, hm, hk, ht, hdir, htype, rfl⟩ := hs
  obtain ⟨n, hn, hstatement, -, hb, hplain⟩ := h.node_of_member hm hk
  exact ⟨n, hn, hstatement.trans (Block.active_of_control hb hplain ht hdir htype)⟩

theorem operand_fits (h : Stages c p x built nodes volatile) {env : EnvId} {m : Member} {k : Kind}
    {i : Nat} {t : Terminal} {o : Operand} {pin : Pin} (hb : m.block.Builtin k)
    (hk : k.isPlain = true) (hpin : k.shape.inputs[i]? = some pin) (ht : t.type = pin.type)
    (ho : Nodes.operand x env m k i t = .ok o) :
    (Sharing.tagOperand p.memoPoints o).Fits p pin := by
  have hdata : pin.type ≠ .void := Kind.hasDataInputs hk pin (List.mem_of_getElem? hpin)
  have hoptional : m.block.optional.getD i false = pin.optional := by
    rw [hb.optional, List.getD_eq_getElem?_getD, List.getElem?_map, hpin]
    rfl
  rcases Nodes.operand_eq_ok ho with ⟨source, type, hdriver, hdrives, rfl⟩ | ⟨-, habsent, rfl⟩ |
    ⟨-, hpresent, rfl⟩
  · rw [ht] at hdrives
    have htype : type ≠ .void := fun hvoid => by
      rw [Expansion.eq_void_of_drives hdrives hvoid] at hdata
      exact hdata rfl
    have hsupplies := Expansion.supplies_of_traceBack h.checked hdriver
    obtain ⟨memo, htag, hmemo⟩ := Sharing.tagOperand_wire p.memoPoints
      { source, type, deref := type.isPointer && !t.type.isPointer, memo := none }
    rw [htag]
    refine .wire ⟨h.offers_of_supplies hsupplies htype, hdrives, ?_, hmemo⟩
    rw [ht]
  · rw [ht, hoptional, Bool.or_eq_true] at habsent
    exact .absent habsent
  · rw [ht, hoptional, Bool.or_eq_false_iff] at hpresent
    rw [ht]
    cases htype : pin.type with
    | void => exact absurd htype hdata
    | pointer b =>
      rw [htype] at hpresent
      exact nomatch hpresent.1
    | value b =>
      have hbase := Kind.hasBase_inputDefault hpin htype
      rw [htype] at hbase
      exact .default htype hpresent.2 hbase

theorem node_fits (h : Stages c p x built nodes volatile) {id : NodeId} {n : Node}
    (hn : p.nodes[id]? = some n) : n.Fits p id := by
  obtain ⟨env, m, hi⟩ := h.exists_instance (Array.getElem?_eq_some_iff.mp hn).1
  obtain ⟨k, n₀, _, constant, hk, hbuilt, -, -, hconstant, hnode, hget⟩ := h.node_of_instance hi
  rw [hn] at hget
  obtain rfl := Option.some.inj hget
  have hmem := List.mem_of_getElem? hi
  obtain ⟨hplain, hb, hknown⟩ := h.builtin_of_instance hmem hk
  have hkind : n₀.kind = k := hbuilt.kind
  subst hkind
  have htypes := Block.map_type_dataInputs hb hplain
  refine ⟨hplain, hknown, hbuilt.statement.trans hb.active, ?_, ?_, ?_, ?_, ?_, ?_, ?_⟩
  · refine (List.length_map ..).trans (hbuilt.arity.trans ?_)
    have hlen := congrArg List.length htypes
    rwa [List.length_map, List.length_map] at hlen
  · intro i pin hpin
    have hpin : n₀.kind.shape.inputs[i]? = some pin := hpin
    obtain ⟨t, ht, htype⟩ := Block.exists_dataInput hb hplain hpin
    obtain ⟨o, ho, hoperand⟩ := hbuilt.inputs i t ht
    refine ⟨Sharing.tagOperand p.memoPoints o, ?_, h.operand_fits hb hplain hpin htype hoperand⟩
    exact (List.getElem?_map ..).trans (by rw [ho]; rfl)
  · exact hbuilt.outputs.trans (Block.map_type_dataOutputs hb)
  · exact hbuilt.controls.1.trans (Block.length_controlOutputs hb)
  · intro ids hids target htarget
    obtain ⟨t, ht, hsucc⟩ := hbuilt.controls.2 ids hids
    obtain ⟨-, s, hs, hms⟩ := Expansion.mem_instances hmem
    exact h.isStatement_of_starts
      (Expansion.starts_of_successors h.stocked.made h.fits h.checked hs hms ht hsucc
        target htarget)
  · intro i purpose type hslot
    have hlt : i < n₀.kind.slots.length := (List.getElem?_eq_some_iff.mp hslot).1
    refine ⟨Sharing.slotCount (nodes.take id) + i, ?_, ?_⟩
    · refine (List.getElem?_range' hlt).trans ?_
      rw [Nat.one_mul]
    · rw [h.slots]
      exact Sharing.getElem?_slots hnode hslot
  · intro type htype
    have htype : n₀.kind.variableType = some type := htype
    obtain ⟨var, v, hvar, hv, hvtype⟩ := Nodes.names_of_constant hmem hk htype hbuilt.constant
    refine ⟨var, v, ?_, by rw [h.vars]; exact hv, hvtype⟩
    refine (hconstant ?_).trans hvar
    intro type' hinspects
    rw [hinspects] at htype
    cases htype

/-- What a node keeps of its settings, unless it inspects. -/
theorem constant_of_node (h : Stages c p x built nodes volatile) {id : NodeId} {n : Node}
    (hn : p.nodes[id]? = some n) (hkind : ∀ type, n.kind ≠ .statement (.inspect type)) :
    ∃ m, x.instances[id]? = some (n.env, m) ∧ m.kind? = some n.kind ∧
      Nodes.constant (Nodes.vars x).idxOf n.env m.decl n.kind = .ok n.constant := by
  obtain ⟨env, m, hi⟩ := h.exists_instance (Array.getElem?_eq_some_iff.mp hn).1
  obtain ⟨k, n₀, _, constant, hk, hbuilt, -, -, hconstant, -, hget⟩ := h.node_of_instance hi
  cases hn.symm.trans hget
  have hsame : n₀.kind = k := hbuilt.kind
  have henv : n₀.env = env := hbuilt.environment
  subst hsame henv
  have heq : constant = n₀.constant := hconstant hkind
  subst heq
  exact ⟨m, hi, hk, hbuilt.constant⟩

/-- Every node of the program comes from one before sharing, with the same tables. -/
theorem unshared (h : Stages c p x built nodes volatile) {id : NodeId} {n : Node}
    (hn : p.nodes[id]? = some n) : ∃ n₀ first, nodes[id]? = some n₀ ∧
      n = Sharing.finished p.memoPoints first n₀ := by
  rw [h.finished, List.getElem?_toArray, Sharing.getElem?_finished] at hn
  obtain ⟨n₀, hn₀, rfl⟩ := Option.map_eq_some_iff.mp hn
  exact ⟨n₀, _, hn₀, rfl⟩

theorem shared (h : Stages c p x built nodes volatile) {id : NodeId} {n₀ : Node}
    (hn : nodes[id]? = some n₀) : ∃ first,
      p.nodes[id]? = some (Sharing.finished p.memoPoints first n₀) := by
  rw [h.finished, List.getElem?_toArray, Sharing.getElem?_finished, hn]
  exact ⟨_, rfl⟩

theorem memoPoint_fits (h : Stages c p x built nodes volatile) {m : MemoPoint}
    (hm : m ∈ p.memoPoints) : m.Fits p := by
  rw [h.points] at hm
  obtain ⟨n₀, hn₀, hfree, hout, -⟩ := Sharing.mem_memoPoints.mp hm
  obtain ⟨first, hn⟩ := h.shared hn₀
  refine ⟨_, hn, ?_, hout⟩
  cases hs : n₀.statement with
  | false => exact hs
  | true =>
    have harray : nodes.toArray[m.source.node]? = some n₀ := by rw [List.getElem?_toArray, hn₀]
    exact absurd (Order.mem_volatileNodes h.order harray hs) hfree

/-- A wire of a node before sharing fits as well, but for its memo point. -/
theorem source_lt (h : Stages c p x built nodes volatile) {id : NodeId} {n₀ : Node} {w : Wire}
    (hn : nodes[id]? = some n₀) (hw : Operand.wire w ∈ n₀.inputs) :
    w.source.node < p.nodes.size := by
  obtain ⟨first, hget⟩ := h.shared hn
  have hfits := h.node_fits hget
  obtain ⟨i, hi⟩ :=
    List.getElem?_of_mem (List.mem_map_of_mem (f := Sharing.tagOperand p.memoPoints) hw)
  have hlt := (List.getElem?_eq_some_iff.mp hi).1
  rw [show (n₀.inputs.map (Sharing.tagOperand p.memoPoints)).length = _ from hfits.arity] at hlt
  obtain ⟨o, ho, hoperand⟩ := hfits.inputs i _ (List.getElem?_eq_getElem hlt)
  have ho' := ho.symm.trans hi
  cases ho'
  cases hoperand with
  | wire hwire =>
    obtain ⟨n, hsource, -⟩ := hwire.source
    exact (Array.getElem?_eq_some_iff.mp hsource).1

theorem reads_falls (h : Stages c p x built nodes volatile) : ∃ rank, p.Falls p.Reads rank := by
  have hsize : nodes.toArray.size = p.nodes.size := by
    rw [List.size_toArray, h.length_nodes.2]
  have hreads : ∀ id next, p.Reads id next → next ∈ Order.reads nodes.toArray id := by
    rintro id next ⟨n, w, hn, hs, hw, rfl⟩
    obtain ⟨n₀, first, hn₀, rfl⟩ := h.unshared hn
    obtain ⟨w', hw', hsource⟩ := Sharing.mem_tagOperand hw
    have hs₀ : n₀.statement = false := hs
    rw [Order.reads, List.getElem?_toArray, hn₀]
    simp only [hs₀]
    exact Order.mem_sources.mpr ⟨w', hw', congrArg Producer.node hsource.symm⟩
  have hbound : ∀ v, v < nodes.toArray.size → ∀ u ∈ Order.reads nodes.toArray v,
      u < nodes.toArray.size := by
    intro v hv u hu
    rw [Order.reads] at hu
    split at hu
    · next n₀ hn₀ =>
      by_cases hs : n₀.statement = true
      · rw [if_pos hs] at hu
        exact nomatch hu
      · rw [if_neg hs] at hu
        obtain ⟨w, hw, rfl⟩ := Order.mem_sources.mp hu
        rw [List.getElem?_toArray] at hn₀
        rw [hsize]
        exact h.source_lt hn₀ hw
    · exact nomatch hu
  have hroots : ∀ v, Order.reads nodes.toArray v ≠ [] → v ∈ List.range nodes.toArray.size := by
    intro v hv
    rw [List.mem_range]
    rcases Nat.lt_or_ge v nodes.toArray.size with hlt | hge
    · exact hlt
    · rw [Order.reads, Array.getElem?_eq_none hge] at hv
      exact absurd rfl hv
  have horder := h.order
  unfold Order.volatileNodes at horder
  split at horder
  · next closed hclosed =>
    obtain ⟨rank, hlt, hfall⟩ := Order.rank_of_search hclosed
      (fun v hv => List.mem_range.mp hv) hbound hroots
    rw [hsize] at hlt
    exact ⟨rank, hlt, fun id next hr => hfall id next (hreads id next hr)⟩
  · exact nomatch horder

theorem leads_falls (h : Stages c p x built nodes volatile) : ∃ rank, p.Falls p.Leads rank := by
  have hsize : nodes.toArray.size = p.nodes.size := by
    rw [List.size_toArray, h.length_nodes.2]
  have hfollowing : ∀ id next, next ∈ Order.following nodes.toArray id ↔ p.Leads id next := by
    intro id next
    rw [Order.following, List.getElem?_toArray]
    constructor
    · intro hmem
      split at hmem
      · next n₀ hn₀ =>
        obtain ⟨ids, hids, hnext⟩ := List.mem_flatten.mp hmem
        obtain ⟨first, hn⟩ := h.shared hn₀
        exact ⟨_, ids, hn, hids, hnext⟩
      · exact nomatch hmem
    · rintro ⟨n, ids, hn, hids, hnext⟩
      obtain ⟨n₀, first, hn₀, rfl⟩ := h.unshared hn
      rw [hn₀]
      exact List.mem_flatten.mpr ⟨ids, hids, hnext⟩
  have hbound : ∀ v, v < nodes.toArray.size → ∀ u ∈ Order.following nodes.toArray v,
      u < nodes.toArray.size := by
    intro v _ u hu
    obtain ⟨n, ids, hn, hids, hu⟩ := (hfollowing v u).mp hu
    obtain ⟨target, htarget, -⟩ := (h.node_fits hn).targets ids hids u hu
    rw [hsize]
    exact (Array.getElem?_eq_some_iff.mp htarget).1
  have hroots : ∀ v, Order.following nodes.toArray v ≠ [] → v ∈ Order.statements nodes.toArray := by
    intro v hv
    obtain ⟨u, hu⟩ := List.exists_mem_of_ne_nil _ hv
    obtain ⟨n, ids, hn, hids, -⟩ := (hfollowing v u).mp hu
    have hs := (h.node_fits hn).isStatement_of_controls hids
    obtain ⟨n₀, first, hn₀, rfl⟩ := h.unshared hn
    refine List.mem_filter.mpr ⟨List.mem_range.mpr ?_, ?_⟩
    · rw [hsize]
      exact (Array.getElem?_eq_some_iff.mp hn).1
    · rw [List.getElem?_toArray, hn₀]
      exact hs
  have hcontrol := h.control
  unfold Order.checkControl at hcontrol
  split at hcontrol
  · next closed hclosed =>
    obtain ⟨rank, hlt, hfall⟩ := Order.rank_of_search hclosed
      (fun v hv => List.mem_range.mp (List.mem_filter.mp hv).1) hbound hroots
    rw [hsize] at hlt
    exact ⟨rank, hlt, fun id next hr => hfall id next ((hfollowing id next).mpr hr)⟩
  · exact nomatch hcontrol

theorem entry_isStatement (h : Stages c p x built nodes volatile) {id : NodeId}
    (hid : id ∈ p.entryPoints) : p.IsStatement id := by
  rw [h.entries] at hid
  obtain ⟨⟨⟨n, entry⟩, i⟩, hmem, rfl⟩ := List.mem_map.mp hid
  obtain ⟨hmem, hentry⟩ := List.mem_filter.mp hmem
  have hget := List.mem_zipIdx_iff_getElem?.mp hmem
  have hlt : i < p.nodes.size := by
    rw [h.length_nodes.2, h.length_nodes.1, ← (Nodes.all_eq_ok h.all).1]
    exact (List.getElem?_eq_some_iff.mp hget).1
  obtain ⟨env, m, hi⟩ := h.exists_instance hlt
  obtain ⟨k, n₀, entry', constant, hk, hbuilt, hget', hisEntry, -, -, hnode⟩ :=
    h.node_of_instance hi
  have heq := hget.symm.trans hget'
  cases heq
  cases hentry
  obtain ⟨hplain, hb, -⟩ := h.builtin_of_instance (List.mem_of_getElem? hi) hk
  exact ⟨_, hnode, hbuilt.statement.trans (Nodes.active_of_isEntry hplain hb hisEntry)⟩

end Stages

/-- Analysis returns only well-formed programs. -/
theorem wellFormed_of_analyse {c : Catalog} {d : Document} {p : Program} (hc : c.Stocked)
    (h : analyse c d = .ok p) : p.WellFormed := by
  obtain ⟨x, built, nodes, volatile, -, hstages⟩ := stages_of_analyse hc h
  exact ⟨fun _ _ hn => hstages.node_fits hn, fun _ hid => hstages.entry_isStatement hid,
    fun _ hm => hstages.memoPoint_fits hm, hstages.reads_falls, hstages.leads_falls⟩

/-- A test of a kept variable.  One branch flips the variable behind its pointer, the other makes an
object and shows it, and the flipped value is shown after the physics step. -/
def toggling : Document where
  main := {
    id := 0
    nodes := [{ pos := ⟨0, 0, 0⟩, kind := 54, settings := [.text "!lit"] },
      { pos := ⟨4, 0, 4⟩, kind := 144 }, { pos := ⟨8, 0, 8⟩, kind := 234 },
      { pos := ⟨12, 0, 12⟩, kind := 316 }, { pos := ⟨16, 0, 16⟩, kind := 74 },
      { pos := ⟨20, 0, 20⟩, kind := 32 }, { pos := ⟨24, 0, 24⟩, kind := 566 },
      { pos := ⟨28, 0, 28⟩, kind := 28 }]
    connections := [.between ⟨0, 0, 0⟩ ⟨15, 1, 3⟩ ⟨4, 0, 4⟩ ⟨0, 1, 3⟩,
      .between ⟨0, 0, 0⟩ ⟨15, 1, 3⟩ ⟨8, 0, 8⟩ ⟨0, 1, 3⟩,
      .between ⟨8, 0, 8⟩ ⟨15, 1, 11⟩ ⟨12, 0, 12⟩ ⟨3, 1, 15⟩,
      .between ⟨8, 0, 8⟩ ⟨15, 1, 3⟩ ⟨16, 0, 16⟩ ⟨3, 1, 15⟩,
      .between ⟨8, 0, 8⟩ ⟨3, 1, 0⟩ ⟨24, 0, 24⟩ ⟨3, 1, 15⟩,
      .between ⟨0, 0, 0⟩ ⟨15, 1, 3⟩ ⟨16, 0, 16⟩ ⟨0, 1, 11⟩,
      .between ⟨4, 0, 4⟩ ⟨15, 1, 3⟩ ⟨16, 0, 16⟩ ⟨0, 1, 3⟩,
      .between ⟨12, 0, 12⟩ ⟨3, 1, 0⟩ ⟨20, 0, 20⟩ ⟨3, 1, 15⟩,
      .between ⟨12, 0, 12⟩ ⟨15, 1, 3⟩ ⟨20, 0, 20⟩ ⟨0, 1, 3⟩,
      .between ⟨24, 0, 24⟩ ⟨15, 1, 3⟩ ⟨28, 0, 28⟩ ⟨3, 1, 15⟩,
      .between ⟨4, 0, 4⟩ ⟨15, 1, 3⟩ ⟨28, 0, 28⟩ ⟨0, 1, 3⟩] }

end Program
end SignalGraph
