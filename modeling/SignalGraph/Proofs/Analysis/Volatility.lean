import Mathlib.Logic.Equiv.Basic
import SignalGraph.Proofs.Analysis.Analysed
import SignalGraph.Proofs.Analysis.ControlLoops

/-!
# Volatility

A statement may change what it offers while a frame runs, and so may every expression that reads it
through others.  A search along the operands meets an expression after all that it reads, so one
pass over the finished vertices tells which ones those are.

Main statement: the search refuses expressions that depend on themselves and nothing else, and marks
what reads a statement and nothing else.  In another order of the nodes it does the same, though the
node that it names in a refusal may be another one on a cycle.
-/

namespace SignalGraph

open Relation (TransGen ReflTransGen)

namespace Order

variable {nodes : Array Node}

/-- An expression and a node that it reads.  Statements read nothing here: what they offer is kept
state. -/
def Reads (nodes : Array Node) (id source : NodeId) : Prop :=
  ∃ n w, nodes[id]? = some n ∧ n.statement = false ∧ Operand.wire w ∈ n.inputs ∧
    w.source.node = source

/-- A statement, or an expression that reads one through expressions. -/
def IsVolatile (nodes : Array Node) (id : NodeId) : Prop :=
  ∃ source, ReflTransGen (Reads nodes) id source ∧ IsStatement nodes source

/-- Every operand reads a node. -/
def Sourced (nodes : Array Node) : Prop :=
  ∀ (id : NodeId) (n : Node) (w : Wire), nodes[id]? = some n → Operand.wire w ∈ n.inputs →
    w.source.node < nodes.size

/-- The search with marks on the nodes and a stack of the open ones, which tells of each node that
it closes whether it is volatile. -/
def sweepVolatile (nodes : Array Node) (steps : Nat) : Option (Except Fault (List NodeId)) :=
  (DepthFirst.Sweep.run (reads nodes) (addVolatile nodes) steps (List.range nodes.size)
    (.start [])).map
    (·.mapError (cycleAt nodes))

theorem mem_reads {id source : NodeId} : source ∈ reads nodes id ↔ Reads nodes id source := by
  unfold reads Reads
  cases nodes[id]? with
  | none => simp
  | some n => cases hs : n.statement <;> simp [mem_sources, hs]

theorem edge_reads (nodes : Array Node) : DepthFirst.Edge (reads nodes) = Reads nodes :=
  funext fun _ => funext fun _ => propext mem_reads

theorem Reads.lt_size {id source : NodeId} (h : Reads nodes id source) : id < nodes.size := by
  obtain ⟨n, -, hn, -⟩ := h
  exact (Array.getElem?_eq_some_iff.mp hn).1

theorem reads_lt (hsources : Sourced nodes) :
    ∀ id, id < nodes.size → ∀ source ∈ reads nodes id, source < nodes.size := by
  intro id _ source hsource
  obtain ⟨n, w, hn, -, hw, rfl⟩ := mem_reads.mp hsource
  exact hsources id n w hn hw

theorem range_lt : ∀ id ∈ List.range nodes.size, id < nodes.size :=
  fun _ hid => List.mem_range.mp hid

theorem any_statement {id : NodeId} :
    (nodes[id]?).any (·.statement) = true ↔ IsStatement nodes id :=
  Option.any_eq_true ..

/-- What a node reads decides whether it is volatile. -/
theorem isVolatile_iff {id : NodeId} :
    IsVolatile nodes id ↔ IsStatement nodes id ∨ ∃ source, Reads nodes id source ∧
      IsVolatile nodes source := by
  constructor
  · rintro ⟨last, hpath, hlast⟩
    rcases hpath.cases_head with rfl | ⟨source, hreads, hrest⟩
    · exact .inl hlast
    · exact .inr ⟨source, hreads, last, hrest, hlast⟩
  · rintro (hs | ⟨source, hreads, last, hpath, hlast⟩)
    · exact ⟨id, .refl, hs⟩
    · exact ⟨last, .head hreads hpath, hlast⟩

theorem mem_addVolatile {id v : NodeId} {volatile : List NodeId} :
    id ∈ addVolatile nodes v volatile ↔
    id ∈ volatile ∨ id = v ∧
      (IsStatement nodes v ∨ ∃ source, Reads nodes v source ∧ source ∈ volatile) := by
  have hcond : ((nodes[v]?).any (·.statement) = true ∨
    (reads nodes v).any volatile.contains = true) ↔
      IsStatement nodes v ∨ ∃ source, Reads nodes v source ∧ source ∈ volatile := by
    simp only [any_statement, List.any_eq_true, List.contains_iff_mem, mem_reads]
  unfold addVolatile
  split
  · next h =>
    rw [List.mem_cons]
    exact ⟨fun hid => hid.elim (fun heq => .inr ⟨heq, hcond.mp h⟩) .inl,
      fun hid => hid.elim .inr fun heq => .inl heq.1⟩
  · next h => exact ⟨.inl,
      fun hid => hid.elim (fun hold => hold) fun hnew => absurd (hcond.mpr hnew.2) h⟩

/-- Of nodes that come after all that they read, exactly the volatile ones are told. -/
theorem mem_foldr_addVolatile {closed : List NodeId}
    (hord : DepthFirst.Ordered (reads nodes) closed)
    {id : NodeId} :
    id ∈ closed.foldr (addVolatile nodes) [] ↔ id ∈ closed ∧ IsVolatile nodes id := by
  induction closed generalizing id with
  | nil => simp
  | cons v rest ih =>
    obtain ⟨-, hreads, hrest⟩ := hord
    have hread : (∃ source, Reads nodes v source ∧ source ∈ rest.foldr (addVolatile nodes) []) ↔
        ∃ source, Reads nodes v source ∧ IsVolatile nodes source :=
      exists_congr fun source => and_congr_right fun hsource => by
        rw [ih hrest]
        exact and_iff_right (hreads (mem_reads.mpr hsource))
    rw [List.foldr_cons, mem_addVolatile, ih hrest, hread, ← isVolatile_iff, List.mem_cons]
    constructor
    · rintro (⟨hmem, hvol⟩ | ⟨rfl, hvol⟩)
      · exact ⟨.inr hmem, hvol⟩
      · exact ⟨.inl rfl, hvol⟩
    · rintro ⟨rfl | hmem, hvol⟩
      · exact .inr ⟨rfl, hvol⟩
      · exact .inl ⟨hmem, hvol⟩

/-- A node is volatile by itself or by a way of some length. -/
theorem isVolatile_iff_transGen {id : NodeId} : IsVolatile nodes id ↔
    IsStatement nodes id ∨ ∃ source, TransGen (Reads nodes) id source ∧
      IsStatement nodes source := by
  constructor
  · rintro ⟨source, hpath, hs⟩
    rcases Relation.reflTransGen_iff_eq_or_transGen.mp hpath with rfl | hpath
    · exact .inl hs
    · exact .inr ⟨source, hpath, hs⟩
  · rintro (hs | ⟨source, hpath, hs⟩)
    · exact ⟨id, .refl, hs⟩
    · exact ⟨source, hpath.to_reflTransGen, hs⟩

theorem volatileNodes_eq : volatileNodes nodes =
    ((DepthFirst.search (reads nodes) nodes.size (List.range nodes.size)).map
      (·.foldr (addVolatile nodes) [])).mapError (cycleAt nodes) := by
  unfold volatileNodes
  cases DepthFirst.search (reads nodes) nodes.size (List.range nodes.size) <;> rfl

section

variable (hsources : Sourced nodes)
include hsources

/-- A search that succeeds marks the volatile nodes. -/
theorem mem_iff_of_volatileNodes {volatile : List NodeId} (h : volatileNodes nodes = .ok volatile)
    {id : NodeId} : id ∈ volatile ↔ id < nodes.size ∧ IsVolatile nodes id := by
  unfold volatileNodes at h
  split at h
  · next closed hclosed =>
    cases h
    obtain ⟨hord, hsub⟩ := DepthFirst.ordered_of_search hclosed
    have hlt := DepthFirst.search_induct (· < nodes.size) (reads_lt hsources) range_lt hclosed
    rw [mem_foldr_addVolatile hord]
    exact and_congr_left fun _ => ⟨hlt id, fun hid => hsub (List.mem_range.mpr hid)⟩
  · exact nomatch h

/-- The search refuses the nodes at one that depends on itself. -/
theorem cycle_of_volatileNodes {fault : Fault} (h : volatileNodes nodes = .error fault) :
    ∃ id n, nodes[id]? = some n ∧ TransGen (Reads nodes) id id ∧ fault = .cycle n.pos := by
  rw [volatileNodes_eq] at h
  rw [← edge_reads]
  exact cycle_of_check (reads_lt hsources) range_lt h

theorem volatileNodes_fails_iff :
    (∃ pos, volatileNodes nodes = .error (.cycle pos)) ↔ ∃ id, TransGen (Reads nodes) id id := by
  have hall : ∀ id, TransGen (DepthFirst.Edge (reads nodes)) id id →
    id ∈ List.range nodes.size := by
    intro id hid
    rw [edge_reads] at hid
    obtain ⟨source, hsource, -⟩ := TransGen.head'_iff.mp hid
    exact List.mem_range.mpr hsource.lt_size
  rw [volatileNodes_eq, ← edge_reads]
  exact check_fails_iff (reads_lt hsources) range_lt _ hall

theorem sweepVolatile_ends :
    ∃ used, ∀ steps, sweepVolatile nodes (used + steps) = some (volatileNodes nodes) := by
  rw [volatileNodes_eq]
  exact sweep_ends (reads_lt hsources) range_lt (addVolatile nodes) []

end

end Order

def Operand.renumber (f : NodeId → NodeId) : Operand → Operand
  | .wire w => .wire { w with source := { w.source with node := f w.source.node } }
  | operand => operand

def Node.renumber (f : NodeId → NodeId) (n : Node) : Node :=
  { n with inputs := n.inputs.map (·.renumber f), controls := n.controls.map (·.map f) }

namespace Order

variable {nodes nodes' : Array Node} {f : Equiv.Perm NodeId}

def Renumbers (f : Equiv.Perm NodeId) (nodes nodes' : Array Node) : Prop :=
  ∀ id, nodes'[f id]? = (nodes[id]?).map (·.renumber f)

theorem mem_renumber {n : Node} {w : Wire} : Operand.wire w ∈ (n.renumber f).inputs ↔
    ∃ v, Operand.wire v ∈ n.inputs ∧
      w = { v with source := { v.source with node := f v.source.node } } := by
  unfold Node.renumber
  rw [List.mem_map]
  constructor
  · rintro ⟨o, ho, heq⟩
    cases o with
    | default v => exact nomatch heq
    | absent => exact nomatch heq
    | wire v =>
      cases heq
      exact ⟨v, ho, rfl⟩
  · rintro ⟨v, hv, rfl⟩
    exact ⟨.wire v, hv, rfl⟩

section

variable (h : Renumbers f nodes nodes')
include h

/-- A node of the new order is one of the old order. -/
theorem Renumbers.node {id : NodeId} {n : Node} :
    nodes'[f id]? = some n ↔ ∃ m, nodes[id]? = some m ∧ m.renumber f = n := by
  rw [h id, Option.map_eq_some_iff]

theorem Renumbers.isStatement {id : NodeId} : IsStatement nodes' (f id) ↔ IsStatement nodes id := by
  constructor
  · rintro ⟨_, hn, hs⟩
    obtain ⟨m, hm, rfl⟩ := h.node.mp hn
    exact ⟨m, hm, hs⟩
  · rintro ⟨m, hm, hs⟩
    exact ⟨m.renumber f, h.node.mpr ⟨m, hm, rfl⟩, hs⟩

theorem Renumbers.reads {id source : NodeId} :
    Reads nodes' (f id) (f source) ↔ Reads nodes id source := by
  constructor
  · rintro ⟨_, w, hn, hs, hw, hsource⟩
    obtain ⟨m, hm, rfl⟩ := h.node.mp hn
    obtain ⟨v, hv, rfl⟩ := mem_renumber.mp hw
    exact ⟨m, v, hm, hs, hv, f.injective hsource⟩
  · rintro ⟨m, v, hm, hs, hv, rfl⟩
    exact ⟨m.renumber f, _, h.node.mpr ⟨m, hm, rfl⟩, hs, mem_renumber.mpr ⟨v, hv, rfl⟩, rfl⟩

theorem Renumbers.transGen {id source : NodeId} :
    TransGen (Reads nodes') (f id) (f source) ↔ TransGen (Reads nodes) id source := by
  constructor
  · intro hpath
    have hback : ∀ a b, Reads nodes' a b → Reads nodes (f.symm a) (f.symm b) := by
      intro a b hab
      rw [← h.reads, f.apply_symm_apply, f.apply_symm_apply]
      exact hab
    have hlift : TransGen (Reads nodes) (f.symm (f id)) (f.symm (f source)) :=
      hpath.lift f.symm hback
    rwa [f.symm_apply_apply, f.symm_apply_apply] at hlift
  · exact fun hpath => hpath.lift f fun a b hab => h.reads.mpr hab

theorem Renumbers.sourced (hsources : Sourced nodes) : Sourced nodes' := by
  intro id n w hn hw
  rw [← f.apply_symm_apply id] at hn
  obtain ⟨m, hm, rfl⟩ := h.node.mp hn
  obtain ⟨v, hv, rfl⟩ := mem_renumber.mp hw
  have hget := Array.getElem?_eq_getElem (hsources _ m v hm hv)
  exact (Array.getElem?_eq_some_iff.mp (h.node.mpr ⟨_, hget, rfl⟩)).1

theorem Renumbers.isVolatile {id : NodeId} : IsVolatile nodes' (f id) ↔ IsVolatile nodes id := by
  rw [isVolatile_iff_transGen, isVolatile_iff_transGen, h.isStatement, ← f.exists_congr_right]
  simp only [h.transGen, h.isStatement]

theorem Renumbers.lt_size {id : NodeId} : f id < nodes'.size ↔ id < nodes.size := by
  rw [← Nat.not_le, ← Nat.not_le, ← Array.getElem?_eq_none_iff, ← Array.getElem?_eq_none_iff, h id,
    Option.map_eq_none_iff]

/-- Nodes in another order are refused if they are refused in the first one. -/
theorem Renumbers.fails_iff (hsources : Sourced nodes) :
    (∃ pos, volatileNodes nodes' = .error (.cycle pos)) ↔
    ∃ pos, volatileNodes nodes = .error (.cycle pos) := by
  rw [volatileNodes_fails_iff hsources, volatileNodes_fails_iff (h.sourced hsources)]
  constructor
  · rintro ⟨id, hcycle⟩
    rw [← f.apply_symm_apply id] at hcycle
    exact ⟨_, h.transGen.mp hcycle⟩
  · rintro ⟨id, hcycle⟩
    exact ⟨f id, h.transGen.mpr hcycle⟩

end

/-- The search ends.  It refuses the nodes if and only if some expression depends on itself, and for
no other reason; the node that it names lies on such a cycle.  Otherwise it tells all statements and
the expressions with a way to one.  The order of the nodes changes neither whether it refuses them
nor what it tells. -/
theorem volatileNodes_exact (hsources : Sourced nodes) :
    (∃ used, ∀ steps, sweepVolatile nodes (used + steps) = some (volatileNodes nodes)) ∧
    ((∃ pos, volatileNodes nodes = .error (.cycle pos)) ↔ ∃ id, TransGen (Reads nodes) id id) ∧
    (∀ fault, volatileNodes nodes = .error fault →
      ∃ id n, nodes[id]? = some n ∧ TransGen (Reads nodes) id id ∧ fault = .cycle n.pos) ∧
    (∀ volatile, volatileNodes nodes = .ok volatile → ∀ id, id ∈ volatile ↔ id < nodes.size ∧
      (IsStatement nodes id ∨
        ∃ source, TransGen (Reads nodes) id source ∧ IsStatement nodes source)) ∧
    ∀ (f : Equiv.Perm NodeId) (nodes' : Array Node), Renumbers f nodes nodes' →
      ((∃ pos, volatileNodes nodes' = .error (.cycle pos)) ↔
        ∃ pos, volatileNodes nodes = .error (.cycle pos)) ∧
      ∀ volatile, volatileNodes nodes = .ok volatile → ∃ volatile',
        volatileNodes nodes' = .ok volatile' ∧ ∀ id, f id ∈ volatile' ↔ id ∈ volatile := by
  refine ⟨sweepVolatile_ends hsources, volatileNodes_fails_iff hsources,
    fun fault => cycle_of_volatileNodes hsources, fun volatile hvolatile id => ?_,
    fun f nodes' h => ?_⟩
  · rw [mem_iff_of_volatileNodes hsources hvolatile, isVolatile_iff_transGen]
  · refine ⟨h.fails_iff hsources, fun volatile hvolatile => ?_⟩
    have hsources' := h.sourced hsources
    cases hother : volatileNodes nodes' with
    | error fault =>
      obtain ⟨_, n, -, -, rfl⟩ := cycle_of_volatileNodes hsources' hother
      obtain ⟨pos, hpos⟩ := (h.fails_iff hsources).mp ⟨n.pos, hother⟩
      rw [hvolatile] at hpos
      exact nomatch hpos
    | ok volatile' =>
      refine ⟨volatile', rfl, fun id => ?_⟩
      rw [mem_iff_of_volatileNodes hsources' hother, mem_iff_of_volatileNodes hsources hvolatile,
        h.lt_size, h.isVolatile]

/-- To compare two orders, it is enough to look at the nodes that there are. -/
theorem renumbers_of_forall_lt (hsize : nodes'.size = nodes.size)
    (hfix : ∀ id, nodes.size ≤ id → f id = id)
    (h : ∀ id < nodes.size, nodes'[f id]? = (nodes[id]?).map (·.renumber f)) :
    Renumbers f nodes nodes' := by
  intro id
  by_cases hid : id < nodes.size
  · exact h id hid
  · have hge := Nat.le_of_not_lt hid
    rw [hfix id hge, Array.getElem?_eq_none hge, Array.getElem?_eq_none (hsize ▸ hge)]
    rfl

theorem sourced_of_forall_mem (h : ∀ n ∈ nodes, ∀ source ∈ sources n.inputs, source < nodes.size) :
    Sourced nodes :=
  fun _ n w hn hw => h n (Array.mem_of_getElem? hn) _ (mem_sources.mpr ⟨w, hw, rfl⟩)

theorem swap_of_le {id : Nat} (h : 2 ≤ id) : Equiv.swap 0 1 id = id :=
  Equiv.swap_apply_of_ne_of_ne (by omega) (by omega)

def negating (x : Int) (inputs : List Operand) : Node where
  env := 0
  pos := ⟨x, 0, x⟩
  block := 90
  kind := .operation .negate
  statement := false
  constant := .none
  inputs
  outputs := [.value .float]
  controls := []
  slots := []

/-- A loop that runs as often as some expression says. -/
def counting (x : Int) (inputs : List Operand) : Node where
  env := 0
  pos := ⟨x, 0, x⟩
  block := 560
  kind := .statement .loop
  statement := true
  constant := .none
  inputs
  outputs := [.value .float]
  controls := [[], []]
  slots := [0]

def outputOf (id : NodeId) : Operand :=
  .wire { source := ⟨id, 0⟩, type := .value .float, deref := false, memo := none }

/-- The first expression and the limit of the loop read each other, which is no cycle.  The third
node reads no statement, and the last one reads one through the first. -/
def counted : Array Node :=
  #[negating 0 [outputOf 1], counting 4 [.absent, outputOf 0], negating 8 [.absent],
    negating 12 [outputOf 0]]

/-- The same nodes, the first two of them in the other order. -/
def recounted : Array Node :=
  #[counting 4 [.absent, outputOf 1], negating 0 [outputOf 0], negating 8 [.absent],
    negating 12 [outputOf 1]]

theorem sourced_counted : Sourced counted := sourced_of_forall_mem (by decide)

theorem renumbers_counted : Renumbers (Equiv.swap 0 1) counted recounted :=
  renumbers_of_forall_lt rfl (fun _ hid => swap_of_le (Nat.le_trans (by decide) hid)) (by decide)

theorem volatileNodes_exact_counted : Sourced counted ∧
    Renumbers (Equiv.swap 0 1) counted recounted ∧
    volatileNodes counted = .ok [3, 0, 1] ∧ (¬∃ id, TransGen (Reads counted) id id) ∧
    (∃ source, TransGen (Reads counted) 3 source ∧ IsStatement counted source) ∧
    (¬∃ source, TransGen (Reads counted) 2 source ∧ IsStatement counted source) ∧
    ∃ volatile, volatileNodes recounted = .ok volatile ∧
      Equiv.swap 0 1 0 ∈ volatile ∧ Equiv.swap 0 1 2 ∉ volatile := by
  have hok : volatileNodes counted = .ok [3, 0, 1] := rfl
  obtain ⟨-, hfails, -, hflags, horders⟩ := volatileNodes_exact sourced_counted
  obtain ⟨-, hsame⟩ := horders (Equiv.swap 0 1) recounted renumbers_counted
  obtain ⟨volatile, hvolatile, hmem⟩ := hsame [3, 0, 1] hok
  refine ⟨sourced_counted, renumbers_counted, hok, fun hcycle => ?_, ?_, fun hpath => ?_, volatile,
    hvolatile, ?_, ?_⟩
  · obtain ⟨pos, hpos⟩ := hfails.mpr hcycle
    exact nomatch hok.symm.trans hpos
  · obtain ⟨n, hn, hs⟩ | hpath := ((hflags _ hok 3).mp (by decide)).2
    · cases hn
      exact nomatch hs
    · exact hpath
  · exact absurd ((hflags _ hok 2).mpr ⟨by decide, .inr hpath⟩) (by decide)
  · exact (hmem 0).mpr (by decide)
  · exact fun h => absurd ((hmem 2).mp h) (by decide)

/-- Two expressions that read each other, in both orders. -/
def circular : Array Node := #[negating 0 [outputOf 1], negating 4 [outputOf 0]]

def circularBack : Array Node := #[negating 4 [outputOf 1], negating 0 [outputOf 0]]

/-- Which node of a cycle a refusal names depends on the order. -/
theorem volatileNodes_names_first : Sourced circular ∧
    Renumbers (Equiv.swap 0 1) circular circularBack ∧
    volatileNodes circular = .error (.cycle ⟨0, 0, 0⟩) ∧
    volatileNodes circularBack = .error (.cycle ⟨4, 0, 4⟩) :=
  ⟨sourced_of_forall_mem (by decide), renumbers_of_forall_lt rfl (fun _ => swap_of_le) (by decide),
    rfl, rfl⟩

end Order
end SignalGraph
