import Mathlib.Data.List.Nodup
import SignalGraph.Block.Catalog
import SignalGraph.Proofs.Outcome

/-!
# Placed terminals

No two terminals of a block share a position, and an input never sits where an output of another
block may.  So a position names one terminal, and a wire end on a boundary cannot be taken for one
of a block that stands at the boundary's own position.
-/

namespace SignalGraph
namespace Layout

variable {f : Footprint} {decls : List TerminalDecl} {active : Bool}

def role (t : Terminal) : WireType × Direction := (t.type, t.dir)

theorem map_role_rows (f : Footprint) (decls : List TerminalDecl) :
    (rows f decls).map role = decls.map fun d => (d.type, d.dir) := by
  induction decls with
  | nil => rfl
  | cons d rest ih => simp [rows, role, ← ih]

/-- What the numbers of elements do not change is what it was. -/
theorem map_mapIdx_eq {α β : Type} {f : Nat → α → α} {g : α → β} (hg : ∀ i a, g (f i a) = g a)
    (l : List α) : (l.mapIdx f).map g = l.map g := by
  refine List.ext_getElem? fun i => ?_
  simp only [List.getElem?_map, List.getElem?_mapIdx, Option.map_map]
  cases l[i]? with
  | none => rfl
  | some a => simp [hg]

theorem map_mapIdx_index {α : Type} {g : Terminal → α}
    (hg : ∀ t i, g { t with index := i } = g t) (l : List Terminal) :
    (l.mapIdx fun i t => { t with index := i }).map g = l.map g :=
  map_mapIdx_eq (fun i t => hg t i) l

def unnumbered (f : Footprint) (decls : List TerminalDecl) (active : Bool) : List Terminal :=
  if active then before f :: (rows f decls ++ [after]) else rows f decls

theorem terminals_eq : terminals f decls active =
    (unnumbered f decls active).mapIdx fun i t => { t with index := i } := rfl

theorem map_role_terminals : (terminals f decls active).map role =
    (if active then [(WireType.void, Direction.input)] else []) ++
      decls.map (fun d => (d.type, d.dir)) ++
      (if active then [(WireType.void, Direction.output)] else []) := by
  rw [terminals_eq, map_mapIdx_index (g := role) (fun _ _ => rfl), unnumbered]
  cases active
  · simp [map_role_rows]
  · simp [map_role_rows, before, after, role]

theorem index_of_getElem? {i : Nat} {t : Terminal} (h : (terminals f decls active)[i]? = some t) :
    t.index = i := by
  rw [terminals_eq, List.getElem?_mapIdx, Option.map_eq_some_iff] at h
  obtain ⟨u, -, rfl⟩ := h
  rfl

/-- Where the terminals of one direction may be: on their face, or in the middle of an edge. -/
def Reserved (f : Footprint) : Direction → Pos → Prop
  | .input, p => p.x = 0 ∨ (p.x = 3 ∧ p.z = f.depth * cell - 1)
  | .output, p => p.x = f.width * cell - 1 ∨ (p.x = 3 ∧ p.z = 0)

theorem pos_of_mem_rows {t : Terminal} (h : t ∈ rows f decls) :
    (t.pos.x = match t.dir with
      | .input => 0
      | .output => f.width * cell - 1) ∧
    ∃ k : Nat, k < side t.dir decls ∧ t.pos.z = k * cell + 3 := by
  induction decls with
  | nil => exact nomatch h
  | cons d rest ih =>
    rw [rows, List.mem_cons] at h
    rcases h with rfl | h
    · exact ⟨rfl, side d.dir rest, by simp [side], rfl⟩
    · obtain ⟨hx, k, hk, hz⟩ := ih h
      refine ⟨hx, k, ?_, hz⟩
      have hle : side t.dir rest ≤ side t.dir (d :: rest) := by
        simp only [side, List.countP_cons]
        omega
      omega

theorem reserved_of_mem {t : Terminal} (h : t ∈ terminals f decls active) :
    Reserved f t.dir t.pos := by
  obtain ⟨i, hi⟩ := List.getElem?_of_mem h
  rw [terminals_eq, List.getElem?_mapIdx, Option.map_eq_some_iff] at hi
  obtain ⟨u, hu, rfl⟩ := hi
  have hmem : u ∈ unnumbered f decls active := List.mem_of_getElem? hu
  have hrow : u ∈ rows f decls → Reserved f u.dir u.pos := by
    intro hrow
    obtain ⟨hx, -⟩ := pos_of_mem_rows hrow
    revert hx
    cases u.dir <;> exact fun hx => .inl hx
  show Reserved f u.dir u.pos
  cases active with
  | false => exact hrow hmem
  | true =>
    simp only [unnumbered, if_true, List.mem_cons, List.mem_append, List.not_mem_nil,
      or_false] at hmem
    rcases hmem with rfl | hmem | rfl
    · exact .inr ⟨rfl, rfl⟩
    · exact hrow hmem
    · exact .inr ⟨rfl, rfl⟩

/-- Inputs and outputs keep apart, whatever the sizes of their blocks. -/
theorem not_reserved_both {g : Footprint} (_hwidth : 1 ≤ g.width) (_hdepth : 1 ≤ f.depth) {p : Pos}
    (hin : Reserved f .input p) (hout : Reserved g .output p) : False := by
  simp only [Reserved, cell] at hin hout
  omega

theorem nodup_pos_rows (_hwidth : 1 ≤ f.width) (decls : List TerminalDecl) :
    ((rows f decls).map (·.pos)).Nodup := by
  induction decls with
  | nil => exact List.nodup_nil
  | cons d rest ih =>
    refine List.nodup_cons.mpr ⟨fun hmem => ?_, ih⟩
    obtain ⟨t, ht, hpos⟩ := List.mem_map.mp hmem
    obtain ⟨hx, k, hk, hz⟩ := pos_of_mem_rows ht
    have hx' := congrArg Pos.x hpos
    have hz' := congrArg Pos.z hpos
    have hdir : t.dir = d.dir := by
      rw [hx] at hx'
      revert hx'
      cases t.dir <;> cases d.dir <;> simp [cell] <;> omega
    rw [hdir] at hk
    simp only [hz, cell] at hz'
    omega

theorem nodup_pos_terminals (hwidth : 1 ≤ f.width) (_hdepth : 1 ≤ f.depth) :
    ((terminals f decls active).map (·.pos)).Nodup := by
  rw [terminals_eq, map_mapIdx_index (g := (·.pos)) (fun _ _ => rfl)]
  have hrows := nodup_pos_rows hwidth decls
  cases active with
  | false => exact hrows
  | true =>
    have hface : ∀ t ∈ rows f decls, t.pos.x ≠ 3 := by
      intro t ht hx
      obtain ⟨h, -⟩ := pos_of_mem_rows ht
      rw [h] at hx
      revert hx
      cases t.dir with
      | input => simp
      | output =>
        simp only [cell]
        omega
    simp only [unnumbered, if_true, List.map_cons, List.map_append, List.map_nil]
    refine List.nodup_cons.mpr ⟨?_, ?_⟩
    · rw [List.mem_append, List.mem_singleton, List.mem_map]
      rintro (⟨t, ht, hpos⟩ | hpos)
      · exact hface t ht (congrArg Pos.x hpos)
      · have hz := congrArg Pos.z hpos
        simp only [before, after, cell] at hz
        omega
    · rw [List.nodup_append]
      refine ⟨hrows, List.nodup_singleton _, ?_⟩
      intro a ha b hb hab
      obtain ⟨t, ht, rfl⟩ := List.mem_map.mp ha
      rw [List.mem_singleton.mp hb] at hab
      exact hface t ht (congrArg Pos.x hab)

/-- What the placement of a block's terminals guarantees. -/
theorem ok_iff {name : String} {ts : List Terminal} :
    layout name f decls active = .ok ts ↔
      obstacle f decls = none ∧ ts = terminals f decls active := by
  unfold layout
  cases obstacle f decls with
  | none => simp [eq_comm]
  | some m => simp

theorem size_of_obstacle (h : obstacle f decls = none) : 1 ≤ f.width ∧ 1 ≤ f.depth := by
  unfold obstacle at h
  by_cases hsize : f.width < 1 ∨ f.depth < 1
  · simp [hsize] at h
  · omega

end Layout

namespace Block

/-- A block whose terminals are where the layout puts them. -/
def Placed (b : Block) : Prop :=
  ∃ decls, Layout.obstacle b.footprint decls = none ∧
    b.terminals = Layout.terminals b.footprint decls b.active

variable {b : Block}

theorem size_of_placed (h : b.Placed) : 1 ≤ b.footprint.width ∧ 1 ≤ b.footprint.depth :=
  let ⟨_, hfits, _⟩ := h
  Layout.size_of_obstacle hfits

theorem reserved_of_placed (h : b.Placed) {t : Terminal} (ht : t ∈ b.terminals) :
    Layout.Reserved b.footprint t.dir t.pos := by
  obtain ⟨decls, -, heq⟩ := h
  rw [heq] at ht
  exact Layout.reserved_of_mem ht

theorem terminalAt_eq_some {p : Pos} {t : Terminal} (h : b.terminalAt p = some t) :
    t ∈ b.terminals ∧ t.pos = p :=
  ⟨List.mem_of_find?_eq_some h, by simpa using List.find?_some h⟩

/-- A position leads back to the terminal it was taken from. -/
theorem terminalAt_pos (h : b.Placed) {t : Terminal} (ht : t ∈ b.terminals) :
    b.terminalAt t.pos = some t := by
  obtain ⟨hwidth, hdepth⟩ := size_of_placed h
  obtain ⟨decls, -, heq⟩ := h
  cases hfind : b.terminalAt t.pos with
  | none =>
    have hnone := List.find?_eq_none.mp hfind t ht
    simp at hnone
  | some u =>
    obtain ⟨hu, hpos⟩ := terminalAt_eq_some hfind
    rw [heq] at hu ht
    have hnodup : ((Layout.terminals b.footprint decls b.active).map (·.pos)).Nodup :=
      Layout.nodup_pos_terminals hwidth hdepth
    rw [List.inj_on_of_nodup_map hnodup hu ht hpos]

/-- An output cannot be where an input of another block is. -/
theorem pos_ne_of_dir {b' : Block} (h : b.Placed) (h' : b'.Placed) {t t' : Terminal}
    (ht : t ∈ b.terminals) (ht' : t' ∈ b'.terminals) (hdir : t.dir = .input)
    (hdir' : t'.dir = .output) : t.pos ≠ t'.pos := by
  intro hpos
  have hin := reserved_of_placed h ht
  have hout := reserved_of_placed h' ht'
  rw [hdir, hpos] at hin
  rw [hdir'] at hout
  exact Layout.not_reserved_both (size_of_placed h').1 (size_of_placed h).2 hin hout

theorem getElem?_filter_countP {α : Type} {p : α → Bool} {l : List α} {i : Nat} {a : α}
    (h : l[i]? = some a) (hp : p a) : (l.filter p)[(l.take i).countP p]? = some a := by
  induction l generalizing i with
  | nil => exact nomatch h
  | cons x l ih =>
    cases i with
    | zero =>
      cases h
      simp [hp]
    | succ i =>
      have hrest := ih (i := i) (by simpa using h)
      by_cases hx : p x
      · simpa [List.filter_cons, hx] using hrest
      · simpa [List.filter_cons, hx] using hrest

/-- The ordinal of a terminal is its place in its group. -/
theorem group_ordinal (h : b.Placed) {t : Terminal} (ht : t ∈ b.terminals) :
    (b.group t.dir t.isControl)[b.ordinal t]? = some t := by
  obtain ⟨i, hi⟩ := List.getElem?_of_mem ht
  have hindex : t.index = i := by
    obtain ⟨decls, -, heq⟩ := h
    rw [heq] at hi
    exact Layout.index_of_getElem? hi
  rw [group, ordinal, hindex]
  exact getElem?_filter_countP hi (by simp)

/-- A terminal has one place in a group. -/
theorem index_unique (h : b.Placed) {dir : Direction} {control : Bool} {i j : Nat} {t : Terminal}
    (hi : (b.group dir control)[i]? = some t) (hj : (b.group dir control)[j]? = some t) :
    i = j := by
  obtain ⟨hwidth, hdepth⟩ := size_of_placed h
  obtain ⟨decls, -, heq⟩ := h
  have hnodup : (b.group dir control).Nodup := by
    rw [group, heq]
    exact ((Layout.nodup_pos_terminals hwidth hdepth).of_map _).filter _
  exact (List.getElem?_inj (List.getElem?_eq_some_iff.mp hi).1 hnodup).mp (hi.trans hj.symm)

end Block
end SignalGraph
