import SignalGraph.Proofs.Execution.Values
import SignalGraph.Run.World

namespace SignalGraph

namespace SlotStore

structure Typed (slots : List Slot) (s : SlotStore) : Prop where
  size : s.values.size = slots.length
  holds : ∀ (id : SlotId) (slot : Slot), slots[id]? = some slot → (s.get id).HasBase slot.type

variable {slots : List Slot} {s : SlotStore}

theorem typed_empty (p : Program) : Typed p.slots (empty p) := by
  refine ⟨by simp [empty, ofTypes], fun id slot hslot => ?_⟩
  have hget : (empty p).values[id]? = some slot.type.default := by
    simp [empty, ofTypes, hslot]
  rw [get, Array.getD_eq_getD_getElem?, hget]
  exact Value.hasBase_default slot.type

theorem typed_set (h : Typed slots s) {id : SlotId} {slot : Slot} {v : Value}
    (hslot : slots[id]? = some slot) (hv : v.HasBase slot.type) : Typed slots (s.set id v) := by
  refine ⟨by rw [set, Array.size_setIfInBounds, h.size], fun i slot' hslot' => ?_⟩
  have hlt : id < s.values.size := by
    rw [h.size]
    exact (List.getElem?_eq_some_iff.mp hslot).1
  rw [get, set, Array.getD_eq_getD_getElem?, Array.getElem?_setIfInBounds]
  by_cases hi : id = i
  · subst hi
    rw [hslot] at hslot'
    cases hslot'
    simp only [if_true, hlt]
    exact hv
  · simp only [hi, if_false]
    have hold := h.holds i slot' hslot'
    rw [get, Array.getD_eq_getD_getElem?] at hold
    exact hold

end SlotStore

/-- Elements of a list of that type, within its capacity. -/
structure Elements (b : Base) (values : Array Value) : Prop where
  size : values.size ≤ VariableStore.capacity
  each : ∀ v ∈ values, v.HasBase b

namespace VariableStore

structure Typed (vars : List Variable) (s : VariableStore) : Prop where
  decls : ∀ id : VarId, (s.cells[id]?).map (·.decl) = vars[id]?
  elements : ∀ (id : VarId) (cell : Cell), s.cells[id]? = some cell →
    Elements cell.decl.type cell.values

variable {vars : List Variable} {s : VariableStore}

theorem typed_empty (p : Program) : Typed p.vars (empty p) := by
  refine ⟨fun id => by simp [empty, ofVariables, Function.comp_def], fun id cell hcell => ?_⟩
  simp only [empty, ofVariables, List.getElem?_toArray, List.getElem?_map] at hcell
  obtain ⟨decl, -, rfl⟩ := Option.map_eq_some_iff.mp hcell
  exact ⟨Nat.zero_le _, fun v hv => absurd hv (Array.not_mem_empty v)⟩

/-- Every element reads as a value of the type of its variable, whether it was written or not. -/
theorem hasBase_get (h : Typed vars s) {p : Pointer} {decl : Variable}
    (hdecl : vars[p.var]? = some decl) : (s.get p).HasBase decl.type := by
  rw [← h.decls p.var] at hdecl
  obtain ⟨cell, hcell, rfl⟩ := Option.map_eq_some_iff.mp hdecl
  simp only [get, hcell]
  cases hread : (position? p.index >>= fun i => cell.values[i]?) with
  | none => exact Value.hasBase_default _
  | some v =>
    obtain ⟨i, -, hv⟩ := Option.bind_eq_some_iff.mp hread
    exact (h.elements p.var cell hcell).each v (Array.mem_of_getElem? hv)

theorem elements_write {b : Base} {values : Array Value} {i : Nat} {v : Value}
    (h : Elements b values) (hi : i < capacity) (hv : v.HasBase b) :
    Elements b (write values i b.default v) := by
  unfold write
  by_cases hlt : i < values.size
  · rw [if_pos hlt]
    refine ⟨by rw [Array.size_setIfInBounds]; exact h.size, fun u hu => ?_⟩
    rcases Array.mem_or_eq_of_mem_setIfInBounds hu with hu | rfl
    · exact h.each u hu
    · exact hv
  · rw [if_neg hlt]
    refine ⟨?_, fun u hu => ?_⟩
    · simp only [Array.size_push, Array.size_append, Array.size_replicate]
      omega
    · rcases Array.mem_push.mp hu with hu | rfl
      · rcases Array.mem_append.mp hu with hu | hu
        · exact h.each u hu
        · rw [(Array.mem_replicate.mp hu).2]
          exact Value.hasBase_default b
      · exact hv

theorem typed_set (h : Typed vars s) {p : Pointer} {v : Value}
    (hv : ∀ decl, vars[p.var]? = some decl → v.HasBase decl.type) : Typed vars (s.set p v) := by
  unfold set
  split
  · exact h
  next i hi =>
    by_cases hcap : i < capacity
    · rw [if_pos hcap]
      refine ⟨fun id => ?_, fun id cell hcell => ?_⟩
      · rw [← h.decls id, Array.getElem?_modify]
        split
        · cases s.cells[id]? <;> rfl
        · rfl
      · simp only [Array.getElem?_modify] at hcell
        by_cases hid : p.var = id
        · subst hid
          simp only [if_true] at hcell
          obtain ⟨old, hold, rfl⟩ := Option.map_eq_some_iff.mp hcell
          have hdecl : vars[p.var]? = some old.decl := by
            rw [← h.decls p.var, hold]
            rfl
          exact elements_write (h.elements p.var old hold) hcap (hv old.decl hdecl)
        · simp only [hid, if_false] at hcell
          exact h.elements id cell hcell
    · rw [if_neg hcap]
      exact h

def EntryTyped (entry : SavedVariable) : Prop :=
  ∀ b, entry.type = .value b → Elements b entry.values

theorem typed_restore (h : Typed vars s) {entries : List SavedVariable}
    (hentries : ∀ entry ∈ entries, EntryTyped entry) : Typed vars (s.restore entries) := by
  unfold restore
  induction entries generalizing s with
  | nil => exact h
  | cons entry rest ih =>
    refine ih ?_ fun e he => hentries e (List.mem_cons_of_mem entry he)
    unfold restoreEntry
    split
    · exact h
    next i hi =>
      obtain ⟨hlt, hmatch, -⟩ := Array.findIdx?_eq_some_iff_getElem.mp hi
      have hmatch : Matches entry s.cells[i] := by simpa using hmatch
      refine ⟨fun id => ?_, fun id cell hcell => ?_⟩
      · rw [← h.decls id, Array.getElem?_modify]
        split
        · cases s.cells[id]? <;> rfl
        · rfl
      · simp only [Array.getElem?_modify] at hcell
        by_cases hid : i = id
        · subst hid
          simp only [if_true, Array.getElem?_eq_getElem hlt, Option.map_some,
            Option.some.injEq] at hcell
          subst hcell
          exact hentries entry List.mem_cons_self _ hmatch.2.2.symm
        · simp only [hid, if_false] at hcell
          exact h.elements id cell hcell

theorem entryTyped_of_saved (h : Typed vars s) : ∀ entry ∈ s.saved, EntryTyped entry := by
  intro entry hentry b hb
  obtain ⟨cell, hcell, rfl⟩ := List.mem_map.mp hentry
  obtain ⟨id, hid⟩ := Array.getElem?_of_mem (Array.mem_toList_iff.mp (List.mem_filter.mp hcell).1)
  cases hb
  exact h.elements id cell hid

end VariableStore
end SignalGraph
