import Mathlib.Data.List.Nodup
import Mathlib.Data.List.Perm.Basic
import Mathlib.Logic.Function.Basic
import SignalGraph.Run.Stores

/-!
# Reads of written elements

A read tells no difference between an element that holds the default of its variable and one that
was never written.  So a write changes what one pointer reads and nothing else, although it may make
the list longer.

Main statement: what a write does to every read, to every length and to every element, and that
writes by different pointers may be made in any order.
-/

namespace SignalGraph
namespace VariableStore

variable {s : VariableStore} {p q : Pointer} {v : Value} {id : VarId} {cell : Cell}

theorem size_write (values : Array Value) (i : Nat) (fill v : Value) :
    (write values i fill v).size = max values.size (i + 1) := by
  unfold write
  by_cases hlt : i < values.size
  · rw [if_pos hlt, Array.size_setIfInBounds]
    omega
  · rw [if_neg hlt, Array.size_push, Array.size_append, Array.size_replicate]
    omega

/-- Below the written element a longer list is filled up. -/
theorem getElem?_write {values : Array Value} {i j : Nat} {fill v : Value}
    (hj : j < (write values i fill v).size) :
    (write values i fill v)[j]? = some (if j = i then v else values.getD j fill) := by
  rw [size_write] at hj
  rw [Array.getD_eq_getD_getElem?]
  unfold write
  by_cases hlt : i < values.size
  · rw [if_pos hlt, Array.getElem?_setIfInBounds]
    by_cases hji : j = i
    · simp [hji, hlt]
    · have hold : j < values.size := by omega
      simp [hji, Ne.symm hji, hold]
  · rw [if_neg hlt, Array.getElem?_push, Array.getElem?_append]
    have hsize : (values ++ Array.replicate (i - values.size) fill).size = i := by
      rw [Array.size_append, Array.size_replicate]
      omega
    rw [hsize]
    by_cases hji : j = i
    · simp [hji]
    · rw [if_neg hji, if_neg hji]
      by_cases hold : j < values.size
      · simp [hold]
      · have hnew : j - values.size < i - values.size := by omega
        rw [if_neg hold, Array.getElem?_replicate, if_pos hnew, Array.getElem?_eq_none (by omega)]
        rfl

/-- A read with a default tells nothing of how long the list is. -/
theorem getD_write (values : Array Value) (i j : Nat) (fill v : Value) :
    (write values i fill v).getD j fill = if j = i then v else values.getD j fill := by
  rw [Array.getD_eq_getD_getElem?]
  by_cases hj : j < (write values i fill v).size
  · rw [getElem?_write hj]
    rfl
  · rw [Array.getElem?_eq_none (Nat.le_of_not_lt hj)]
    rw [size_write] at hj
    have hji : j ≠ i := by omega
    rw [if_neg hji, Array.getD_eq_getD_getElem?, Array.getElem?_eq_none (by omega)]

def Accepts (s : VariableStore) (p : Pointer) : Prop :=
  p.var < s.cells.size ∧ 0 ≤ p.index.toInt ∧ p.index.toInt < capacity

instance (s : VariableStore) (p : Pointer) : Decidable (s.Accepts p) :=
  inferInstanceAs (Decidable (_ ∧ _ ∧ _))

def place (p : Pointer) : Nat := p.index.toInt.toNat

theorem set_eq (h : s.Accepts p) (v : Value) : s.set p v =
    { cells := s.cells.modify p.var fun cell =>
        { cell with values := write cell.values (place p) cell.decl.type.default v } } := by
  obtain ⟨-, hpos, hcap⟩ := h
  have hplace : place p < capacity := by
    unfold place
    omega
  unfold set position?
  rw [if_pos hpos]
  exact if_pos hplace

/-- A write elsewhere is none. -/
theorem set_eq_self (h : ¬s.Accepts p) (v : Value) : s.set p v = s := by
  unfold set position?
  by_cases hpos : 0 ≤ p.index.toInt
  · rw [if_pos hpos]
    dsimp only
    by_cases hcap : p.index.toInt.toNat < capacity
    · have hvar : s.cells.size ≤ p.var := by
        refine Nat.le_of_not_lt fun hlt => h ⟨hlt, hpos, ?_⟩
        omega
      rw [if_pos hcap]
      congr 1
      refine Array.ext_getElem? fun id => ?_
      rw [Array.getElem?_modify]
      split
      · next hid => rw [← hid, Array.getElem?_eq_none hvar, Option.map_none]
      · rfl
    · exact if_neg hcap
  · rw [if_neg hpos]

theorem size_cells_set (s : VariableStore) (p : Pointer) (v : Value) :
    (s.set p v).cells.size = s.cells.size := by
  by_cases h : s.Accepts p
  · rw [set_eq h, Array.size_modify]
  · rw [set_eq_self h]

theorem accepts_set (s : VariableStore) (p q : Pointer) (v : Value) :
    (s.set p v).Accepts q ↔ s.Accepts q := by
  unfold Accepts
  rw [size_cells_set]

theorem values_set_self (h : s.Accepts p) (hcell : s.cells[p.var]? = some cell) (v : Value) :
    (s.set p v).values p.var = write cell.values (place p) cell.decl.type.default v := by
  rw [set_eq h]
  simp only [values, Array.getElem?_modify, hcell, if_true, Option.map_some]

theorem values_set_ne (h : id ≠ p.var) (v : Value) : (s.set p v).values id = s.values id := by
  by_cases haccepts : s.Accepts p
  · rw [set_eq haccepts]
    simp only [values, Array.getElem?_modify, Ne.symm h, if_false]
  · rw [set_eq_self haccepts]

theorem size_set (s : VariableStore) (p : Pointer) (v : Value) (id : VarId) :
    (s.set p v).size id = if id = p.var ∧
      s.Accepts p then max (s.size id) (place p + 1) else s.size id := by
  unfold size
  by_cases hid : id = p.var
  · subst hid
    by_cases h : s.Accepts p
    · have hcell := Array.getElem?_eq_getElem h.1
      rw [if_pos ⟨rfl, h⟩, values_set_self h hcell, size_write]
      simp only [values, hcell]
    · rw [if_neg fun hand => h hand.2, set_eq_self h]
  · rw [if_neg fun hand => hid hand.1, values_set_ne hid]

/-- What a pointer reads, by the list of its variable. -/
theorem get_of_cell (hcell : s.cells[q.var]? = some cell) : s.get q =
    if 0 ≤ q.index.toInt then cell.values.getD
      (place q) cell.decl.type.default else cell.decl.type.default := by
  unfold get position?
  rw [hcell]
  dsimp only
  split
  · rw [Array.getD_eq_getD_getElem?]
    rfl
  · rfl

theorem get_congr {t : VariableStore} (h : s.cells[q.var]? = t.cells[q.var]?) :
    s.get q = t.get q := by
  unfold get
  rw [h]

/-- Two pointers to one variable with one place are the same. -/
theorem eq_of_place (hvar : q.var = p.var) (hq : 0 ≤ q.index.toInt) (hp : 0 ≤ p.index.toInt)
    (h : place q = place p) : q = p := by
  have hindex : q.index = p.index := by
    refine Int32.toInt_inj.mp ?_
    unfold place at h
    omega
  cases p
  cases q
  cases hvar
  cases hindex
  rfl

/-- A write changes what one pointer reads. -/
theorem get_set (s : VariableStore) (p : Pointer) (v : Value) :
    (s.set p v).get = if s.Accepts p then Function.update s.get p v else s.get := by
  by_cases h : s.Accepts p
  · rw [if_pos h]
    funext q
    by_cases hvar : q.var = p.var
    · obtain ⟨cell, hcell⟩ : ∃ cell, s.cells[q.var]? = some cell :=
        ⟨_, Array.getElem?_eq_getElem (hvar ▸ h.1)⟩
      have hcell' : (s.set p v).cells[q.var]? =
          some { cell with values := write cell.values (place p) cell.decl.type.default v } := by
        rw [set_eq h, Array.getElem?_modify, if_pos hvar.symm, hcell]
        rfl
      rw [get_of_cell hcell']
      by_cases hpos : 0 ≤ q.index.toInt
      · rw [if_pos hpos, getD_write]
        by_cases hplace : place q = place p
        · rw [if_pos hplace, eq_of_place hvar hpos h.2.1 hplace, Function.update_self]
        · have hne : q ≠ p := fun heq => hplace (heq ▸ rfl)
          rw [if_neg hplace, Function.update_of_ne hne, get_of_cell hcell, if_pos hpos]
      · have hne : q ≠ p := fun heq => hpos (heq ▸ h.2.1)
        rw [if_neg hpos, Function.update_of_ne hne, get_of_cell hcell, if_neg hpos]
    · have hne : q ≠ p := fun heq => hvar (heq ▸ rfl)
      rw [Function.update_of_ne hne]
      refine get_congr ?_
      rw [set_eq h, Array.getElem?_modify, if_neg (Ne.symm hvar)]
  · rw [if_neg h, set_eq_self h]

/-! ## Several writes -/

def writes (s : VariableStore) (ws : List (Pointer × Value)) : VariableStore :=
  ws.foldl (fun s w => s.set w.1 w.2) s

/-- No write makes room for another one, so each changes the reads or does nothing from the
start. -/
theorem get_writes (s : VariableStore) (ws : List (Pointer × Value)) : (s.writes ws).get =
    (ws.filter fun w => s.Accepts w.1).foldl
      (fun read w => Function.update read w.1 w.2) s.get := by
  induction ws generalizing s with
  | nil => rfl
  | cons w rest ih =>
    have hsame : (fun u : Pointer × Value => decide ((s.set w.1 w.2).Accepts u.1)) =
        fun u => decide (s.Accepts u.1) := by
      funext u
      rw [decide_eq_decide]
      exact accepts_set s w.1 u.1 w.2
    rw [show s.writes (w :: rest) = (s.set w.1 w.2).writes rest from rfl, ih, hsame, get_set]
    by_cases h : s.Accepts w.1
    · rw [if_pos h, List.filter_cons_of_pos (by simpa using h), List.foldl_cons]
    · rw [if_neg h, List.filter_cons_of_neg (by simpa using h)]

/-- Writes by different pointers may be made in any order. -/
theorem get_writes_perm (s : VariableStore) {ws ws' : List (Pointer × Value)} (hperm : ws.Perm ws')
    (hnodup : (ws.map (·.1)).Nodup) : (s.writes ws).get = (s.writes ws').get := by
  rw [get_writes, get_writes]
  refine (hperm.filter _).foldl_eq' (fun w hw u hu read => ?_) s.get
  by_cases hptr : w.1 = u.1
  · rw [List.inj_on_of_nodup_map hnodup (List.mem_filter.mp hw).1 (List.mem_filter.mp hu).1 hptr]
  · exact Function.update_comm hptr _ _ _

/-- After a write its pointer reads what was written, if there can be an element where it leads, and
every other pointer what it did before.  The list of its variable grows up to the element and is
filled up with the default of the variable, and no other list changes.  The order of writes by
different pointers makes no difference to any read. -/
theorem set_lawful (s : VariableStore) (p : Pointer) (v : Value) :
    (∀ q, (s.set p v).get q = if q = p ∧ s.Accepts p then v else s.get q) ∧
      (∀ id, (s.set p v).size id =
        if id = p.var ∧ s.Accepts p then max (s.size id) (p.index.toInt.toNat + 1) else s.size id) ∧
      (∀ id, id ≠ p.var → (s.set p v).values id = s.values id) ∧
      (∀ cell j, s.cells[p.var]? = some cell → j < (s.set p v).size p.var →
        ((s.set p v).values p.var)[j]? =
          some (if (j : Int) = p.index.toInt ∧ s.Accepts p then v
            else (s.values p.var).getD j cell.decl.type.default)) ∧
      ∀ ws ws' : List (Pointer × Value), (ws.map (·.1)).Nodup → ws.Perm ws' →
        ∀ q, (s.writes ws).get q = (s.writes ws').get q := by
  refine ⟨fun q => ?_, size_set s p v, fun id hid => values_set_ne hid v, fun cell j hcell hj => ?_,
    fun ws ws' hnodup hperm q => congrFun (get_writes_perm s hperm hnodup) q⟩
  · rw [get_set]
    by_cases h : s.Accepts p
    · by_cases hq : q = p
      · rw [if_pos h, if_pos ⟨hq, h⟩, hq, Function.update_self]
      · rw [if_pos h, if_neg fun hand => hq hand.1, Function.update_of_ne hq]
    · rw [if_neg h, if_neg fun hand => h hand.2]
  · have hvalues : s.values p.var = cell.values := by simp only [values, hcell]
    rw [hvalues]
    unfold size at hj
    by_cases h : s.Accepts p
    · rw [values_set_self h hcell] at hj ⊢
      rw [getElem?_write hj]
      have hplace : (j : Int) = p.index.toInt ∧ s.Accepts p ↔ j = place p := by
        have hpos := h.2.1
        unfold place
        constructor
        · rintro ⟨heq, -⟩
          omega
        · intro heq
          exact ⟨by omega, h⟩
      simp only [hplace]
    · rw [set_eq_self h, hvalues] at hj ⊢
      rw [if_neg fun hand => h hand.2, Array.getD_eq_getD_getElem?, Array.getElem?_eq_getElem hj]
      rfl

def mixed : VariableStore := ofVariables [⟨"list", .float, .within 0⟩, ⟨"flag", .bool, .within 0⟩]

theorem set_lawful_mixed : (mixed.set ⟨0, 2⟩ (.float 4)).get ⟨0, 2⟩ = .float 4 ∧
    (mixed.set ⟨0, 2⟩ (.float 4)).size 0 = 3 ∧
    (mixed.set ⟨0, 2⟩ (.float 4)).values 1 = mixed.values 1 ∧
    ((mixed.set ⟨0, 2⟩ (.float 4)).values 0)[1]? = some (.float 0) ∧
    ∀ q, (mixed.writes [(⟨0, 2⟩, .float 4), (⟨1, 0⟩, .bool true), (⟨0, -1⟩, .float 1)]).get q =
      (mixed.writes [(⟨0, -1⟩, .float 1), (⟨0, 2⟩, .float 4), (⟨1, 0⟩, .bool true)]).get q := by
  obtain ⟨hget, hsize, hvalues, helement, hwrites⟩ := set_lawful mixed ⟨0, 2⟩ (.float 4)
  have haccepts : mixed.Accepts ⟨0, 2⟩ := by decide
  refine ⟨(hget _).trans (if_pos ⟨rfl, haccepts⟩), (hsize 0).trans (if_pos ⟨rfl, haccepts⟩),
    hvalues 1 (by decide), ?_, hwrites _ _ (by decide) (by decide)⟩
  exact (helement _ 1 rfl (by decide)).trans (by decide)

end VariableStore
end SignalGraph
