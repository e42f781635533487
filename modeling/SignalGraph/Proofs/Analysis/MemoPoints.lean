import SignalGraph.Proofs.Analysis.SharedOutputs
import SignalGraph.Proofs.Analysis.Volatility

/-!
# Memo points

An output is worth keeping for the rest of a frame if more than one operand of the program reads it
and no statement can change it in between.  Custom blocks are expanded by then, so every copy of a
block counts for itself.

Main statement: the memo points of an analysed program are exactly those outputs, in the order of
nodes and outputs, each with the number of its readers, and the wires from them and no others know
their number.
-/

namespace SignalGraph

open Relation (TransGen)

def Operand.isFrom (source : Producer) : Operand → Bool
  | .wire w => w.source = source
  | _ => false

namespace Program

def readers (p : Program) (source : Producer) : Nat :=
  (p.nodes.toList.flatMap (·.inputs)).countP (·.isFrom source)

/-- An output of an expression that depends on no statement. -/
def IsStable (p : Program) (source : Producer) : Prop :=
  ∃ n type, p.nodes[source.node]? = some n ∧ n.statement = false ∧
    n.outputs[source.output]? = some type ∧
    ¬∃ id, TransGen p.Reads source.node id ∧ p.IsStatement id

end Program

namespace Sharing

/-- Counting the wires, choosing and sorting comes to the same list. -/
theorem select_eq_memoPoints {nodes : List Node} {volatile : List NodeId} {counted : List MemoPoint}
    (hoffers : ∀ w ∈ wires nodes, ∃ n, nodes[w.source.node]? = some n ∧
      n.outputs[w.source.output]? = some w.type)
    (hcounted : Counted (wires nodes) counted) :
    select volatile counted = memoPoints nodes volatile := by
  refine select_eq (memoPoints_sorted nodes volatile) hcounted.once fun m => ?_
  rw [mem_memoPoints]
  constructor
  · rintro ⟨n, hn, hfree, hout, hcount, hshared⟩
    obtain ⟨w, hw, hsource⟩ := List.countP_pos_iff.mp (hcount ▸ Nat.lt_of_succ_lt hshared)
    obtain ⟨m', hm', hsame⟩ := hcounted.complete w hw
    have hsame : m'.source = m.source := hsame.trans (of_decide_eq_true hsource)
    obtain ⟨w', hw', hsource', htype'⟩ := hcounted.typed m' hm'
    obtain ⟨n', hn', hout'⟩ := hoffers w' hw'
    rw [hsource', hsame, hn] at hn'
    cases hn'
    rw [hsource', htype', hsame, hout] at hout'
    have hconsumers : m'.consumers = m.consumers := by rw [hcounted.consumers m' hm', hsame, hcount]
    have heq : m' = m := by
      rw [show m' = ⟨m'.source, m'.type, m'.consumers⟩ from rfl, hsame,
        Option.some.inj hout'.symm, hconsumers]
    exact ⟨heq ▸ hm', hshared, hfree⟩
  · rintro ⟨hm, hshared, hfree⟩
    obtain ⟨w, hw, hsource, htype⟩ := hcounted.typed m hm
    obtain ⟨n, hn, hout⟩ := hoffers w hw
    rw [hsource] at hn hout
    exact ⟨n, hn, hfree, htype ▸ hout, hcounted.consumers m hm, hshared⟩

/-! ## Finished nodes

Sharing changes only what wires know of memo points, so who reads what can be asked before or after
it. -/

theorem sources_tag (points : List MemoPoint) (inputs : List Operand) :
    Order.sources (inputs.map (tagOperand points)) = Order.sources inputs := by
  unfold Order.sources
  rw [List.filterMap_map]
  refine List.filterMap_congr fun o _ => ?_
  cases o <;> rfl

theorem isFrom_tagOperand (points : List MemoPoint) (source : Producer) (o : Operand) :
    (tagOperand points o).isFrom source = o.isFrom source := by
  cases o <;> rfl

theorem flatMap_inputs_assignSlots : ∀ (nodes : List Node) (first : SlotId),
    (assignSlots first nodes).flatMap (·.inputs) = nodes.flatMap (·.inputs)
  | [], _ => rfl
  | n :: rest, first => by
    rw [assignSlots, List.flatMap_cons, List.flatMap_cons, flatMap_inputs_assignSlots rest]

theorem countP_wires (nodes : List Node) (source : Producer) :
    (wires nodes).countP (·.source = source) =
    (nodes.flatMap (·.inputs)).countP (·.isFrom source) := by
  unfold wires
  rw [← List.filterMap_flatMap, List.countP_filterMap]
  refine List.countP_congr fun o _ => ?_
  cases o <;> simp [Operand.isFrom]

theorem mem_wires {nodes : List Node} {w : Wire} :
    w ∈ wires nodes ↔ ∃ n ∈ nodes, Operand.wire w ∈ n.inputs := by
  unfold wires
  rw [List.mem_flatMap]
  refine exists_congr fun n => and_congr_right fun _ => ?_
  rw [List.mem_filterMap]
  constructor
  · rintro ⟨o, ho, hw⟩
    cases o with
    | default v => exact nomatch hw
    | absent => exact nomatch hw
    | wire w' =>
      cases hw
      exact ho
  · exact fun hw => ⟨.wire w, hw, rfl⟩

/-- Sharing tells the wires what they know and leaves them in order. -/
theorem wires_finished (points : List MemoPoint) (nodes : List Node) :
    wires (assignSlots 0 (tag points nodes)) =
    (wires nodes).map fun w => { w with memo := points.findIdx? (·.source = w.source) } := by
  unfold wires
  rw [← List.filterMap_flatMap, ← List.filterMap_flatMap, flatMap_inputs_assignSlots, tag,
    List.flatMap_map,
    ← List.map_flatMap, List.filterMap_map, List.map_filterMap]
  refine List.filterMap_congr fun o _ => ?_
  cases o <;> rfl

theorem tally_finished (points : List MemoPoint) (nodes : List Node) :
    tally (wires (assignSlots 0 (tag points nodes))) = tally (wires nodes) := by
  rw [wires_finished]
  refine tally_map ?_ ?_ (wires nodes) <;> exact fun _ => rfl

/-- An output has as many readers after sharing as it has wires before. -/
theorem countP_finished (points : List MemoPoint) (nodes : List Node) (source : Producer) :
    ((assignSlots 0 (tag points nodes)).flatMap (·.inputs)).countP (·.isFrom source) =
      (wires nodes).countP (·.source = source) := by
  rw [flatMap_inputs_assignSlots, tag, List.flatMap_map, countP_wires, ← List.map_flatMap,
    List.countP_map]
  exact List.countP_congr fun o _ => by rw [Function.comp_apply, isFrom_tagOperand]

end Sharing

namespace Order

variable {points : List MemoPoint} {nodes : List Node}

theorem reads_finished :
    reads (Sharing.assignSlots 0 (Sharing.tag points nodes)).toArray = reads nodes.toArray := by
  funext id
  unfold reads
  rw [List.getElem?_toArray, List.getElem?_toArray, Sharing.getElem?_finished]
  cases nodes[id]? with
  | none => rfl
  | some n => simp only [Option.map_some, Sharing.finished, Sharing.sources_tag]

theorem addVolatile_finished :
    addVolatile (Sharing.assignSlots 0 (Sharing.tag points nodes)).toArray =
    addVolatile nodes.toArray := by
  funext id volatile
  unfold addVolatile
  rw [reads_finished, List.getElem?_toArray, List.getElem?_toArray, Sharing.getElem?_finished]
  cases nodes[id]? <;> rfl

theorem cycleAt_finished : cycleAt (Sharing.assignSlots 0 (Sharing.tag points nodes)).toArray =
    cycleAt nodes.toArray := by
  funext id
  unfold cycleAt
  rw [List.getElem?_toArray, List.getElem?_toArray, Sharing.getElem?_finished]
  cases nodes[id]? <;> rfl

/-- Finished nodes are as volatile as they were. -/
theorem volatileNodes_finished :
    volatileNodes (Sharing.assignSlots 0 (Sharing.tag points nodes)).toArray =
    volatileNodes nodes.toArray := by
  rw [volatileNodes_eq, volatileNodes_eq, reads_finished, addVolatile_finished, cycleAt_finished,
    List.size_toArray,
    List.size_toArray, Sharing.length_assignSlots, Sharing.tag, List.length_map]

theorem isStatement_finished {id : NodeId} :
    IsStatement (Sharing.assignSlots 0 (Sharing.tag points nodes)).toArray id ↔
      IsStatement nodes.toArray id := by
  unfold IsStatement
  rw [List.getElem?_toArray, List.getElem?_toArray, Sharing.getElem?_finished]
  cases nodes[id]? with
  | none => simp
  | some n => simp [Sharing.finished]

end Order
namespace Nodes

variable {c : Catalog} {x : Expansion} {built : List (Node × Bool)}

/-- A named node has the tables of the block behind it. -/
theorem built_of_named (hall : all x (vars x) = .ok built) {id : NodeId} {n : Node}
    (hn : (Program.named x built)[id]? = some n) : ∃ env m k n₀, x.instances[id]? = some (env, m) ∧
      Built x (vars x).idxOf env m k n₀ ∧ n.inputs = n₀.inputs := by
  have hlt : id < x.instances.length := by
    have hlen := (List.getElem?_eq_some_iff.mp hn).1
    rwa [Program.named, nameInspected, List.length_map, List.length_map, (all_eq_ok hall).1] at hlen
  have hi := List.getElem?_eq_getElem hlt
  obtain ⟨k, n₀, _, constant, -, hbuilt, -, -, -, hnamed, -⟩ := Program.finished_of_all hall [] hi
  cases hn.symm.trans hnamed
  exact ⟨_, _, k, n₀, hi, hbuilt, rfl⟩

variable (hc : c.Made) (hfit : Expansion.ScopesFit c x.scopes) (hall : all x (vars x) = .ok built)
include hc hfit hall

/-- The output that a block supplies is one of its node. -/
theorem named_of_supplies {source : Producer} {type : WireType} (hs : x.Supplies source type)
    (htype : type ≠ .void) :
    ∃ n, (Program.named x built)[source.node]? = some n ∧
      n.outputs[source.output]? = some type := by
  obtain ⟨env, pos, m, k, t, hm, hk, ht, hdir, rfl, rfl⟩ := hs
  obtain ⟨-, s, hs, hmem⟩ := Expansion.member_eq_ok hm
  have hbuiltin : m.isBuiltin = true := by simp [Member.isBuiltin, Member.kind?, hk]
  have hi := Expansion.instances_id hfit hs hmem hbuiltin
  obtain ⟨_, n, _, constant, -, hbuilt, -, -, -, hnamed, -⟩ := Program.finished_of_all hall [] hi
  have hdata : t.isControl = false := by simpa [Terminal.isControl] using htype
  have hgroup := Block.group_ordinal (Expansion.placed_of_member hc hfit hm).1 ht
  rw [hdir, hdata] at hgroup
  refine ⟨_, hnamed, ?_⟩
  rw [show ({ n with constant } : Node).outputs = n.outputs from rfl, hbuilt.outputs,
    List.getElem?_map,
    Block.dataOutputs, hgroup]
  rfl

/-- A wire comes from an output that there is, and has its type. -/
theorem offers_of_wire {u : Unit} (hcheck : Wiring.check x = .ok u) {id : NodeId}
    {n : Node} {w : Wire}
    (hn : (Program.named x built)[id]? = some n) (hw : Operand.wire w ∈ n.inputs) :
    ∃ n', (Program.named x built)[w.source.node]? = some n' ∧
      n'.outputs[w.source.output]? = some w.type := by
  obtain ⟨env, m, k, n₀, hi, hbuilt, hinputs⟩ := built_of_named hall hn
  rw [hinputs] at hw
  obtain ⟨i, hget⟩ := List.getElem?_of_mem hw
  have hlt : i < m.block.dataInputs.length := hbuilt.arity ▸ (List.getElem?_eq_some_iff.mp hget).1
  have ht := List.getElem?_eq_getElem hlt
  obtain ⟨o, ho, hoperand⟩ := hbuilt.inputs i _ ht
  cases ho.symm.trans hget
  obtain ⟨source, type, hdriver, hdrives, heq⟩ | ⟨-, -, heq⟩ | ⟨-, -, heq⟩ := operand_eq_ok hoperand
  · cases heq
    refine named_of_supplies hc hfit hall (Expansion.supplies_of_traceBack hcheck hdriver)
      fun hvoid => ?_
    have hcontrol := Expansion.eq_void_of_drives hdrives hvoid
    have hgroup := (List.mem_filter.mp (List.getElem_mem hlt)).2
    simp [Terminal.isControl, hcontrol] at hgroup
  · cases heq
  · cases heq

end Nodes

namespace Program

variable {c : Catalog} {d : Document} {p : Program} {x : Expansion} {built : List (Node × Bool)}
  {volatile : List NodeId}

theorem getElem?_assemble (id : NodeId) : (assemble x built volatile).nodes[id]? =
    ((named x built)[id]?).map (Sharing.finished (Sharing.memoPoints (named x built) volatile)
      (Sharing.slotCount ((named x built).take id))) := by
  rw [assemble, List.getElem?_toArray, Sharing.getElem?_finished]

theorem reads_assemble :
    (assemble x built volatile).Reads = Order.Reads (named x built).toArray := by
  have hreads : (assemble x built volatile).Reads = Order.Reads (assemble x built volatile).nodes :=
    rfl
  rw [hreads, ← Order.edge_reads, ← Order.edge_reads, assemble, Order.reads_finished]

theorem isStatement_assemble {id : NodeId} :
    (assemble x built volatile).IsStatement id ↔ Order.IsStatement (named x built).toArray id :=
  Order.isStatement_finished

theorem readers_assemble (source : Producer) :
    (assemble x built volatile).readers source =
      (Sharing.wires (named x built)).countP (·.source = source) :=
  Sharing.countP_finished _ _ source

theorem offers_assemble {source : Producer} {type : WireType} :
    (assemble x built volatile).Offers source type ↔
    ∃ n, (named x built)[source.node]? = some n ∧ n.outputs[source.output]? = some type := by
  unfold Offers
  rw [getElem?_assemble]
  constructor
  · rintro ⟨_, hfinished, hout⟩
    obtain ⟨n, hn, rfl⟩ := Option.map_eq_some_iff.mp hfinished
    exact ⟨n, hn, hout⟩
  · rintro ⟨n, hn, hout⟩
    exact ⟨_, Option.map_eq_some_iff.mpr ⟨n, hn, rfl⟩, hout⟩

/-- The outputs that cannot change are those of the nodes that are not told as volatile. -/
theorem isStable_assemble (hsources : Order.Sourced (named x built).toArray)
    (hvolatile : Order.volatileNodes (named x built).toArray = .ok volatile) {source : Producer} :
    (assemble x built volatile).IsStable source ↔
      source.node ∉ volatile ∧ ∃ type, (assemble x built volatile).Offers source type := by
  have hmem : source.node ∈ volatile ↔ source.node < (named x built).toArray.size ∧
      ((assemble x built volatile).IsStatement source.node ∨ ∃ id,
        TransGen (assemble x built volatile).Reads source.node id ∧
        (assemble x built volatile).IsStatement id) := by
    rw [Order.mem_iff_of_volatileNodes hsources hvolatile, Order.isVolatile_iff_transGen,
      reads_assemble]
    simp only [isStatement_assemble]
  constructor
  · rintro ⟨n, type, hn, hs, hout, hfree⟩
    refine ⟨fun hv => ?_, type, n, hn, hout⟩
    rcases (hmem.mp hv).2 with ⟨n', hn', hs'⟩ | hpath
    · cases hn.symm.trans hn'
      exact nomatch hs.symm.trans hs'
    · exact hfree hpath
  · rintro ⟨hlasting, type, hoffer⟩
    obtain ⟨n₀, hn₀, -⟩ := offers_assemble.mp hoffer
    have hlt : source.node < (named x built).toArray.size := (List.getElem?_eq_some_iff.mp hn₀).1
    obtain ⟨n, hn, hout⟩ := hoffer
    have hs : n.statement = false :=
      Bool.eq_false_iff.mpr fun hs => hlasting (hmem.mpr ⟨hlt, .inl ⟨n, hn, hs⟩⟩)
    exact ⟨n, type, hn, hs, hout, fun hpath => hlasting (hmem.mpr ⟨hlt, .inr hpath⟩)⟩

/-- The memo points of a program are the outputs of expressions that no statement can change and
that more than one operand reads, once each and in order.  Each has the number of its readers and
the type of its output, and of all wires exactly those from it have its number.  Counting the wires
gives the same memo points, in whatever order the table lists its entries. -/
theorem memoPoints_exact (hc : c.Made) (h : analyse c d = .ok p) :
    p.memoPoints.Pairwise (fun m m' => m.source.key < m'.source.key) ∧
    (∀ source, (∃ m ∈ p.memoPoints, m.source = source) ↔ p.IsStable source ∧ 2 ≤ p.readers source) ∧
    (∀ m ∈ p.memoPoints, m.consumers = p.readers m.source ∧ p.Offers m.source m.type) ∧
    (∀ (id : NodeId) (n : Node) (w : Wire), p.nodes[id]? = some n → Operand.wire w ∈ n.inputs →
      p.Offers w.source w.type ∧
        ∀ k, w.memo = some k ↔ ∃ m, p.memoPoints[k]? = some m ∧ m.source = w.source) ∧
    ∃ volatile, Order.volatileNodes p.nodes = .ok volatile ∧
      ∀ counted : List MemoPoint, counted.Perm (Sharing.tally (Sharing.wires p.nodes.toList)) →
        Sharing.select volatile counted = p.memoPoints := by
  obtain ⟨x, built, volatile, hx, hcheck, hall, -, hvolatile, rfl⟩ := analyse_eq_ok.mp h
  have hfit := Expansion.scopesFit_ofDocument hx
  have hoffers : ∀ (id : NodeId) (n : Node) (w : Wire), (named x built)[id]? = some n →
      Operand.wire w ∈ n.inputs → ∃ n', (named x built)[w.source.node]? = some n' ∧
        n'.outputs[w.source.output]? = some w.type :=
    fun _ _ _ => Nodes.offers_of_wire hc hfit hall hcheck
  have hsources : Order.Sourced (named x built).toArray := by
    intro id n w hn hw
    rw [List.getElem?_toArray] at hn
    obtain ⟨n', hn', -⟩ := hoffers id n w hn hw
    exact (List.getElem?_eq_some_iff.mp hn').1
  refine ⟨Sharing.memoPoints_sorted _ _, fun source => ?_, fun m hm => ?_, fun id n w hn hw => ?_,
    volatile, Order.volatileNodes_finished.trans hvolatile, fun counted hcounted => ?_⟩
  · rw [isStable_assemble hsources hvolatile, readers_assemble]
    constructor
    · rintro ⟨m, hm, rfl⟩
      obtain ⟨n, hn, hfree, hout, hcount, hshared⟩ := Sharing.mem_memoPoints.mp hm
      exact ⟨⟨hfree, m.type, offers_assemble.mpr ⟨n, hn, hout⟩⟩, hcount ▸ hshared⟩
    · rintro ⟨⟨hfree, type, hoffer⟩, hshared⟩
      obtain ⟨n, hn, hout⟩ := offers_assemble.mp hoffer
      exact ⟨⟨source, type, _⟩, Sharing.mem_memoPoints.mpr ⟨n, hn, hfree, hout, rfl, hshared⟩, rfl⟩
  · obtain ⟨n, hn, -, hout, hcount, -⟩ := Sharing.mem_memoPoints.mp hm
    exact ⟨hcount.trans (readers_assemble _).symm, offers_assemble.mpr ⟨n, hn, hout⟩⟩
  · rw [getElem?_assemble] at hn
    obtain ⟨n, hnamed, rfl⟩ := Option.map_eq_some_iff.mp hn
    obtain ⟨o, ho, htag⟩ := List.mem_map.mp hw
    cases o with
    | default v => exact nomatch htag
    | absent => exact nomatch htag
    | wire w' =>
      cases htag
      exact ⟨offers_assemble.mpr (hoffers id n w' hnamed ho), fun k =>
        Sharing.findIdx?_source_iff (Sharing.pairwise_memoPoints _ _)⟩
  · have htally : counted.Perm (Sharing.tally (Sharing.wires (named x built))) := by
      rwa [assemble, List.toList_toArray, Sharing.tally_finished] at hcounted
    refine Sharing.select_eq_memoPoints (fun w hw => ?_) ((Sharing.counted_tally _).perm htally)
    obtain ⟨n, hn, hw⟩ := Sharing.mem_wires.mp hw
    obtain ⟨id, hid⟩ := List.getElem?_of_mem hn
    exact hoffers id n w hid hw

/-- A number that both copies of a doubling block read twice.  The sum of one of them and the
counter of a loop is doubled once more. -/
def fanned : Document where
  main := {
    id := 0
    nodes := [{ pos := ⟨0, 0, 0⟩, kind := 36 }, { pos := ⟨4, 0, 4⟩, kind := 1000 },
      { pos := ⟨8, 0, 8⟩, kind := 1000 }, { pos := ⟨12, 0, 12⟩, kind := 560 },
      { pos := ⟨16, 0, 16⟩, kind := 92 }, { pos := ⟨20, 0, 20⟩, kind := 92 }]
    connections := [.between ⟨0, 0, 0⟩ ⟨15, 1, 3⟩ ⟨4, 0, 4⟩ ⟨0, 1, 3⟩,
      .between ⟨0, 0, 0⟩ ⟨15, 1, 3⟩ ⟨8, 0, 8⟩ ⟨0, 1, 3⟩,
      .between ⟨4, 0, 4⟩ ⟨15, 1, 3⟩ ⟨16, 0, 16⟩ ⟨0, 1, 11⟩,
      .between ⟨12, 0, 12⟩ ⟨15, 1, 3⟩ ⟨16, 0, 16⟩ ⟨0, 1, 3⟩,
      .between ⟨16, 0, 16⟩ ⟨15, 1, 3⟩ ⟨20, 0, 20⟩ ⟨0, 1, 3⟩,
      .between ⟨16, 0, 16⟩ ⟨15, 1, 3⟩ ⟨20, 0, 20⟩ ⟨0, 1, 11⟩] }
  blocks := [{
    id := 1000
    name := "double"
    footprint := ⟨2, 1⟩
    terminals := [{ type := .value .float, dir := .input },
      { type := .value .float, dir := .output }]
    graph := {
      id := 7
      nodes := [{ pos := ⟨0, 0, 0⟩, kind := 92 }]
      connections := [.between .outside ⟨0, 1, 3⟩ ⟨0, 0, 0⟩ ⟨0, 1, 3⟩,
        .between .outside ⟨0, 1, 3⟩ ⟨0, 0, 0⟩ ⟨0, 1, 11⟩,
        .between ⟨0, 0, 0⟩ ⟨15, 1, 3⟩ .outside ⟨15, 1, 3⟩] } }]

theorem exists_analyse_fanned : ∃ c p, c.Made ∧ analyse c fanned = .ok p ∧ p.nodes.size = 6 ∧
    p.memoPoints = [{ source := ⟨0, 0⟩, type := .value .float, consumers := 4 }] ∧
      p.readers ⟨2, 0⟩ = 2 := by
  have hall : (Catalog.stock.bind fun c => (fanned.blocks.foldlM Catalog.addCustom c).bind fun c =>
      analyse c fanned).toOption.any (fun p => p.nodes.size = 6 ∧
        p.memoPoints = [{ source := ⟨0, 0⟩, type := .value .float, consumers := 4 }] ∧
          p.readers ⟨2, 0⟩ = 2) = true := by
    decide +kernel
  obtain ⟨c, p, hc, hp, hfacts⟩ := Catalog.exists_stocked hall
  exact ⟨c, p, hc.made, hp, of_decide_eq_true hfacts⟩

/-- The doubled sum has two readers too, but may change with the counter. -/
theorem memoPoints_exact_fanned : ∃ c p, c.Made ∧ analyse c fanned = .ok p ∧
    p.memoPoints = [{ source := ⟨0, 0⟩, type := .value .float, consumers := 4 }] ∧
    p.IsStable ⟨0, 0⟩ ∧ p.readers ⟨0, 0⟩ = 4 ∧ p.readers ⟨2, 0⟩ = 2 ∧ ¬p.IsStable ⟨2, 0⟩ ∧
    ∀ counted : List MemoPoint, counted.Perm (Sharing.tally (Sharing.wires p.nodes.toList)) →
      ∃ volatile, Sharing.select volatile counted = p.memoPoints := by
  obtain ⟨c, p, hc, hp, -, hpoints, htwo⟩ := exists_analyse_fanned
  obtain ⟨-, hshared, hcount, -, volatile, -, hselect⟩ := memoPoints_exact hc hp
  have hmem : (⟨⟨0, 0⟩, .value .float, 4⟩ : MemoPoint) ∈ p.memoPoints := by simp [hpoints]
  have hstable := ((hshared ⟨0, 0⟩).mp ⟨_, hmem, rfl⟩).1
  refine ⟨c, p, hc, hp, hpoints, hstable, (hcount _ hmem).1.symm, htwo, fun hsum => ?_,
    fun counted hperm => ⟨volatile, hselect counted hperm⟩⟩
  obtain ⟨m, hm, hsource⟩ := (hshared ⟨2, 0⟩).mpr ⟨hsum, htwo.ge⟩
  rw [hpoints, List.mem_singleton] at hm
  cases hm
  exact nomatch hsource

end Program
end SignalGraph
