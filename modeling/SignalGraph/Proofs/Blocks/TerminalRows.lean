import SignalGraph.Proofs.Blocks.Catalogs

/-!
# Rows of terminals

The terminals of one side stand one behind the other, the last one in the nearest row.  All of them
lie within the voxels of the block and no two in one place, so that the place of a terminal says
which one it is.

Main statement: which blocks can be laid out, where their terminals are then, and that terminals are
found again by their positions and counted through in their groups.
-/

namespace SignalGraph

def Terminal.decl (t : Terminal) : TerminalDecl := { type := t.type, dir := t.dir, name := t.name }

def Footprint.Contains (f : Footprint) (p : Pos) : Prop :=
  (0 ≤ p.x ∧ p.x < f.width * Layout.cell) ∧ (0 ≤ p.y ∧ p.y < Layout.cell) ∧
    (0 ≤ p.z ∧ p.z < f.depth * Layout.cell)

namespace Layout

variable {f : Footprint} {decls : List TerminalDecl} {active : Bool}

def face (f : Footprint) : Direction → Int
  | .input => 0
  | .output => f.width * cell - 1

/-- The place in a row, counted from the near edge. -/
def seat (f : Footprint) (dir : Direction) (row : Nat) : Pos := ⟨face f dir, height, row * cell + 3⟩

/-- The control terminals in front of those that are declared, and behind them. -/
def front (active : Bool) : List TerminalDecl :=
  if active then [{ type := .void, dir := .input, name := some beforeName }] else []

def back (active : Bool) : List TerminalDecl :=
  if active then [{ type := .void, dir := .output, name := some afterName }] else []

theorem obstacle_eq_none_iff : obstacle f decls = none ↔
    1 ≤ f.width ∧ 1 ≤ f.depth ∧ ∀ dir, (side dir decls : Int) ≤ f.depth := by
  have hsides : (∀ dir, (side dir decls : Int) ≤ f.depth) ↔
      (side .input decls : Int) ≤ f.depth ∧ (side .output decls : Int) ≤ f.depth := by
    constructor
    · exact fun h => ⟨h .input, h .output⟩
    · rintro ⟨hin, hout⟩ (_ | _)
      · exact hin
      · exact hout
  rw [hsides]
  unfold obstacle
  dsimp only
  split
  · simp only [reduceCtorEq, false_iff]
    omega
  · split
    · simp only [reduceCtorEq, false_iff]
      omega
    · split
      · simp only [reduceCtorEq, false_iff]
        omega
      · simp only [true_iff]
        omega

theorem map_decl_rows (f : Footprint) (decls : List TerminalDecl) :
    (rows f decls).map Terminal.decl = decls := by
  induction decls with
  | nil => rfl
  | cons d rest ih => rw [rows, List.map_cons, ih, Terminal.decl]

/-- The terminals of one side fill its rows from the far one to the near edge. -/
theorem map_pos_rows (f : Footprint) (dir : Direction) (decls : List TerminalDecl) :
    ((rows f decls).filter (·.dir = dir)).map (·.pos) =
      (List.range (side dir decls)).reverse.map (seat f dir) := by
  induction decls with
  | nil => rfl
  | cons d rest ih =>
    rw [rows]
    by_cases hdir : d.dir = dir
    · have hside : side dir (d :: rest) = side dir rest + 1 := by
        rw [side, List.countP_cons_of_pos (by simpa using hdir), side]
      rw [List.filter_cons_of_pos (by simpa using hdir), List.map_cons, ih, hside, List.range_succ,
        List.reverse_append, List.reverse_singleton, List.map_append, List.map_singleton, hdir]
      cases dir <;> rfl
    · have hside : side dir (d :: rest) = side dir rest := by
        rw [side, List.countP_cons_of_neg (by simpa using hdir), side]
      rw [List.filter_cons_of_neg (by simpa using hdir), ih, hside]

structure Arranged (f : Footprint) (decls : List TerminalDecl) (active : Bool)
    (ts : List Terminal) : Prop where
  /-- The control terminals of an active block are around those that are declared. -/
  parts : ∃ first declared last, ts = first ++ declared ++ last ∧
    first.map Terminal.decl = front active ∧
    declared.map Terminal.decl = decls ∧ last.map Terminal.decl = back active ∧
    ∀ dir, (declared.filter (·.dir = dir)).map (·.pos) =
      (List.range (side dir decls)).reverse.map (seat f dir)
  indices : ∀ (i : Nat) (t : Terminal), ts[i]? = some t → t.index = i
  distinct : (ts.map (·.pos)).Nodup
  within : ∀ t ∈ ts, f.Contains t.pos

def numbered (first : Nat) (l : List Terminal) : List Terminal :=
  l.mapIdx fun i t => { t with index := i + first }

theorem map_numbered {α : Type} {g : Terminal → α} (hg : ∀ t i, g { t with index := i } = g t)
    (first : Nat) (l : List Terminal) : (numbered first l).map g = l.map g :=
  map_mapIdx_eq (fun i t => hg t (i + first)) l

theorem map_decl_numbered (first : Nat) (f : Footprint) (decls : List TerminalDecl) :
    (numbered first (rows f decls)).map Terminal.decl = decls :=
  (map_numbered (fun _ _ => rfl) first _).trans (map_decl_rows f decls)

theorem map_pos_filter (dir : Direction) (l : List Terminal) :
    (l.filter (·.dir = dir)).map (·.pos) =
    ((l.map fun t => (t.dir, t.pos)).filter (·.1 = dir)).map (·.2) := by
  rw [List.filter_map, List.map_map]
  rfl

theorem map_pos_numbered (first : Nat) (f : Footprint) (decls : List TerminalDecl)
    (dir : Direction) :
    ((numbered first (rows f decls)).filter (·.dir = dir)).map (·.pos) =
      (List.range (side dir decls)).reverse.map (seat f dir) := by
  rw [map_pos_filter, map_numbered (fun _ _ => rfl), ← map_pos_filter, map_pos_rows]

theorem contains_of_mem_rows (hwidth : 1 ≤ f.width) (hfit : ∀ dir, (side dir decls : Int) ≤ f.depth)
    {t : Terminal} (ht : t ∈ rows f decls) : f.Contains t.pos := by
  have hpos : t.pos ∈ (List.range (side t.dir decls)).reverse.map (seat f t.dir) := by
    rw [← map_pos_rows f t.dir decls]
    exact List.mem_map.mpr ⟨t, List.mem_filter.mpr ⟨ht, by simp⟩, rfl⟩
  obtain ⟨row, hrow, hseat⟩ := List.mem_map.mp hpos
  have hrow : row < side t.dir decls := List.mem_range.mp (List.mem_reverse.mp hrow)
  have hdepth := hfit t.dir
  rw [← hseat]
  have hheight : 0 ≤ height ∧ height < cell := by decide
  refine ⟨?_, hheight, ?_⟩
  · cases t.dir with
    | input => simp only [seat, face, cell]; omega
    | output => simp only [seat, face, cell]; omega
  · simp only [seat, cell]
    omega

theorem arranged_terminals (hwidth : 1 ≤ f.width) (hdepth : 1 ≤ f.depth)
    (hfit : ∀ dir, (side dir decls : Int) ≤ f.depth) (active : Bool) :
    Arranged f decls active (terminals f decls active) := by
  have hrows : ∀ t ∈ rows f decls, f.Contains t.pos := fun t => contains_of_mem_rows hwidth hfit
  refine ⟨?_, fun i t => index_of_getElem?, nodup_pos_terminals hwidth hdepth, fun t ht => ?_⟩
  · -- What stands in front of the declared terminals only shifts their numbers.
    cases active with
    | false =>
      exact ⟨[], numbered 0 (rows f decls), [],
        (List.append_nil _).symm, rfl, map_decl_numbered 0 f decls, rfl,
        map_pos_numbered 0 f decls⟩
    | true =>
      refine ⟨[before f], numbered 1 (rows f decls),
        [{ after with index := (rows f decls).length + 1 }], ?_, rfl,
        map_decl_numbered 1 f decls, rfl, map_pos_numbered 1 f decls⟩
      rw [terminals_eq, unnumbered, if_pos rfl, List.mapIdx_cons, List.mapIdx_append]
      simp [numbered, before]
  · have hmem : t.pos ∈ (unnumbered f decls active).map (·.pos) := by
      rw [← map_mapIdx_index (g := (·.pos)) (fun _ _ => rfl), ← terminals_eq]
      exact List.mem_map_of_mem ht
    obtain ⟨u, hu, hpos⟩ := List.mem_map.mp hmem
    rw [← hpos]
    cases active with
    | false => exact hrows u hu
    | true =>
      simp only [unnumbered, if_true, List.mem_cons, List.mem_append, List.not_mem_nil,
        or_false] at hu
      rcases hu with rfl | hu | rfl
      · simp only [Footprint.Contains, before, height, cell]
        omega
      · exact hrows u hu
      · simp only [Footprint.Contains, after, height, cell]
        omega

end Layout

/-- The terminals of a group are counted through in their order. -/
theorem Block.map_ordinal_group {b : Block} (h : b.Placed) (dir : Direction) (control : Bool) :
    (b.group dir control).map b.ordinal = List.range (b.group dir control).length := by
  refine List.ext_getElem? fun i => ?_
  rw [List.getElem?_map]
  cases ht : (b.group dir control)[i]? with
  | none => rw [List.getElem?_eq_none (by simpa using ht)]; rfl
  | some t =>
    obtain ⟨hmem, hrole⟩ := List.mem_filter.mp (List.mem_of_getElem? ht)
    simp only [Bool.and_eq_true, decide_eq_true_eq, beq_iff_eq] at hrole
    have hown := group_ordinal h hmem
    rw [hrole.1, hrole.2] at hown
    rw [List.getElem?_range (List.getElem?_eq_some_iff.mp ht).1, Option.map_some,
      index_unique h hown ht]

/-- A block can be laid out if it has a size and no side has more terminals than rows.  Its
terminals are then the declared ones in their order with the control terminals of an active block
around them, each in a place of its own within the block, and those of one side fill its rows down
to the nearest.  So a terminal of a registered block is the one at its position, and the members of
a group are counted through in their order.  Words of 32 bits hold all of these positions for
footprints below 2^28 cells a side. -/
theorem layout_exact :
    (∀ name f decls active, (∃ ts, layout name f decls active = .ok ts) ↔
      1 ≤ f.width ∧ 1 ≤ f.depth ∧ ∀ dir, (Layout.side dir decls : Int) ≤ f.depth) ∧
    (∀ name f decls active ts, layout name f decls active = .ok ts →
      Layout.Arranged f decls active ts) ∧
    ∀ c : Catalog, c.Made → ∀ b ∈ c.blocks,
      (∀ t ∈ b.terminals, b.terminalAt t.pos = some t) ∧
      b.dataInputs.map b.ordinal = List.range b.dataInputs.length ∧
      b.dataOutputs.map b.ordinal = List.range b.dataOutputs.length ∧
      b.controlOutputs.map b.ordinal = List.range b.controlOutputs.length := by
  refine ⟨fun name f decls active => ?_, fun name f decls active ts h => ?_, fun c hc b hb => ?_⟩
  · rw [← Layout.obstacle_eq_none_iff]
    constructor
    · rintro ⟨ts, h⟩
      exact (Layout.ok_iff.mp h).1
    · exact fun h => ⟨_, Layout.ok_iff.mpr ⟨h, rfl⟩⟩
  · obtain ⟨hfits, rfl⟩ := Layout.ok_iff.mp h
    obtain ⟨hwidth, hdepth, hsides⟩ := Layout.obstacle_eq_none_iff.mp hfits
    exact Layout.arranged_terminals hwidth hdepth hsides active
  · have hplaced := (hc.placed b hb).1
    exact ⟨fun t => Block.terminalAt_pos hplaced, Block.map_ordinal_group hplaced _ _,
      Block.map_ordinal_group hplaced _ _, Block.map_ordinal_group hplaced _ _⟩

def branching : List TerminalDecl :=
  [{ type := .value .bool, dir := .input, name := some "Condition" },
    { type := .void, dir := .output, name := some "True" },
    { type := .void, dir := .output, name := some "False" }]

theorem layout_exact_branching :
    (∃ ts, layout "If" ⟨2, 2⟩ branching true = .ok ts ∧ Layout.Arranged ⟨2, 2⟩ branching true ts) ∧
    (¬∃ ts, layout "If" ⟨2, 1⟩ branching true = .ok ts) ∧
    ∃ c b, Catalog.Made c ∧ b ∈ c.blocks ∧ b.controlOutputs.map b.ordinal = [0, 1, 2] := by
  obtain ⟨hfits, harranged, hregistered⟩ := layout_exact
  have hrows : ∀ dir, (Layout.side dir branching : Int) ≤ 2 := by
    rintro (_ | _) <;> decide
  obtain ⟨ts, hts⟩ := (hfits "If" ⟨2, 2⟩ branching true).mpr ⟨by decide, by decide, hrows⟩
  refine ⟨⟨ts, hts, harranged _ _ _ _ _ hts⟩, fun h => ?_, ?_⟩
  · have houtputs := ((hfits "If" ⟨2, 1⟩ branching true).mp h).2.2 .output
    exact absurd houtputs (by decide)
  · have hadded : (Catalog.empty.addBuiltin 234 (.statement .ifThen)).toOption.any (fun c =>
        c.blocks.any fun b => b.controlOutputs.length = 3) = true := by
      decide +kernel
    obtain ⟨c, hc, hblock⟩ := Outcome.any_toOption.mp hadded
    obtain ⟨b, hb, hlen⟩ := List.any_eq_true.mp hblock
    have hmade : c.Made := .builtin .empty hc
    obtain ⟨-, -, -, hordinals⟩ := hregistered c hmade b hb
    rw [of_decide_eq_true hlen] at hordinals
    exact ⟨c, b, hmade, hb, hordinals⟩

end SignalGraph
