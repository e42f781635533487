import SignalGraph.Proofs.Execution.KeptRuns
import SignalGraph.Proofs.Stores.Typed

/-!
# Updates of stores

A store changes when an element is written and when entries of an earlier session are taken over.  A
write grows a list within its capacity.  An entry replaces the list of the variable that it goes to,
and nothing is asked of the elements that it brings along.

Main statement: a variable holds elements of its type within its capacity unless an entry that went
to it did not, and of the entries that are taken over at once only the last one for a variable
counts.
-/

namespace SignalGraph
namespace VariableStore

inductive Update where
  | set (p : Pointer) (v : Value)
  | restore (entries : List SavedVariable)

namespace Update

def apply (s : VariableStore) : Update → VariableStore
  | set p v => s.set p v
  | restore entries => s.restore entries

/-- What is written to a variable is of its type.  Nothing is asked of entries. -/
def Fits (vars : List Variable) : Update → Prop
  | set p v => ∀ decl, vars[p.var]? = some decl → v.HasBase decl.type
  | restore _ => True

def entries : Update → List SavedVariable
  | set _ _ => []
  | restore entries => entries

end Update

def updated (p : Program) (updates : List Update) : VariableStore :=
  updates.foldl Update.apply (empty p)

def heir? (vars : List Variable) (entry : SavedVariable) : Option VarId :=
  vars.findIdx? fun decl => decide (Matches entry { decl, values := #[] })

/-- The entry whose elements a variable has in the end, if any entry goes to it. -/
def inherited? (vars : List Variable) (id : VarId) (entries : List SavedVariable) :
    Option SavedVariable :=
  entries.reverse.find? fun entry => heir? vars entry = some id

variable {vars : List Variable} {s : VariableStore} {id : VarId} {decl : Variable}

theorem exists_cell (hs : s.Declares vars) (hdecl : vars[id]? = some decl) :
    ∃ cell, s.cells[id]? = some cell ∧ cell.decl = decl := by
  rw [← show s.cells.toList.map (·.decl) = vars from hs, List.getElem?_map,
    Array.getElem?_toList] at hdecl
  exact Option.map_eq_some_iff.mp hdecl

theorem values_modify (i : VarId) (f : Cell → Cell) {cell : Cell}
    (hcell : s.cells[id]? = some cell) :
    ({ cells := s.cells.modify i f } : VariableStore).values id =
      if i = id then (f cell).values else cell.values := by
  simp only [values, Array.getElem?_modify, hcell]
  by_cases hid : i = id
  · simp only [hid, if_true, Option.map_some]
  · simp only [hid, if_false]

/-- A write of a value of the right type keeps the elements of a variable to its type and
capacity. -/
theorem elements_set (hs : s.Declares vars) (hdecl : vars[id]? = some decl)
    (h : Elements decl.type (s.values id))
    {p : Pointer} {v : Value} (hv : p.var = id → v.HasBase decl.type) :
    Elements decl.type ((s.set p v).values id) := by
  obtain ⟨cell, hcell, rfl⟩ := exists_cell hs hdecl
  have hvalues : s.values id = cell.values := by simp only [values, hcell]
  unfold set
  split
  · exact h
  next i _ =>
    by_cases hcap : i < capacity
    · rw [if_pos hcap, values_modify _ _ hcell]
      by_cases hid : p.var = id
      · rw [if_pos hid]
        exact elements_write (hvalues ▸ h) hcap (hv hid)
      · rw [if_neg hid]
        exact hvalues ▸ h
    · rw [if_neg hcap]
      exact h

/-- An entry goes to the variable that is its heir. -/
theorem findIdx?_matches (hs : s.Declares vars) (entry : SavedVariable) :
    (s.cells.findIdx? fun cell => decide (Matches entry cell)) = heir? vars entry := by
  rw [← show s.cells.toList.map (·.decl) = vars from hs, heir?, List.findIdx?_map,
    ← List.findIdx?_toArray,
    Array.toArray_toList]
  rfl

theorem values_restoreEntry (hs : s.Declares vars) (hdecl : vars[id]? = some decl)
    (entry : SavedVariable) :
    (s.restoreEntry entry).values id =
      if heir? vars entry = some id then entry.values else s.values id := by
  obtain ⟨cell, hcell, rfl⟩ := exists_cell hs hdecl
  have hvalues : s.values id = cell.values := by simp only [values, hcell]
  unfold restoreEntry
  rw [findIdx?_matches hs]
  cases hheir : heir? vars entry with
  | none => rfl
  | some i =>
    rw [hvalues]
    simp only [values_modify _ _ hcell, Option.some.injEq]

/-- A variable has the elements of the last entry that goes to it, or keeps its own. -/
theorem values_restore (hs : s.Declares vars) (hdecl : vars[id]? = some decl)
    (entries : List SavedVariable) :
    (s.restore entries).values id =
      ((inherited? vars id entries).map (·.values)).getD (s.values id) := by
  induction entries generalizing s with
  | nil => rfl
  | cons entry rest ih =>
    have hnext : (s.restoreEntry entry).Declares vars := declares_restore hs [entry]
    have hlast : inherited? vars id (entry :: rest) =
        (inherited? vars id rest).or (if heir? vars entry = some id then some entry else none) := by
      rw [inherited?, List.reverse_cons, List.find?_append, inherited?]
      by_cases hheir : heir? vars entry = some id <;> simp [hheir]
    rw [show s.restore (entry :: rest) = (s.restoreEntry entry).restore rest from rfl,
      ih hnext, hlast,
      values_restoreEntry hs hdecl]
    cases inherited? vars id rest with
    | some last => rfl
    | none => by_cases hheir : heir? vars entry = some id <;> simp [hheir]

/-- Only variables that outlive a session inherit. -/
theorem saved_of_heir {entry : SavedVariable} (hdecl : vars[id]? = some decl)
    (h : heir? vars entry = some id) :
    decl.scope = .saved := by
  obtain ⟨hlt, hmatch, -⟩ := List.findIdx?_eq_some_iff_getElem.mp h
  rw [List.getElem?_eq_getElem hlt] at hdecl
  cases hdecl
  exact (of_decide_eq_true hmatch).1

theorem inherited_mem {entries : List SavedVariable} {entry : SavedVariable}
    (h : inherited? vars id entries = some entry) : entry ∈ entries ∧ heir? vars entry = some id :=
  ⟨List.mem_reverse.mp (List.mem_of_find?_eq_some h), by simpa using List.find?_some h⟩

/-- Taking over entries leaves a variable with elements of its type within its capacity if and only
if the last entry that goes to it, if any, has such elements. -/
theorem elements_restore (hs : s.Declares vars) (hdecl : vars[id]? = some decl)
    (h : Elements decl.type (s.values id)) (entries : List SavedVariable) :
    Elements decl.type ((s.restore entries).values id) ↔
      ∀ entry, inherited? vars id entries = some entry → Elements decl.type entry.values := by
  rw [values_restore hs hdecl]
  cases inherited? vars id entries with
  | none => simpa using h
  | some entry => simp

theorem declares_apply (hs : s.Declares vars) (u : Update) : (u.apply s).Declares vars := by
  cases u with
  | set p v => exact declares_set hs p v
  | restore entries => exact declares_restore hs entries

theorem elements_apply (hs : s.Declares vars) (hdecl : vars[id]? = some decl)
    (h : Elements decl.type (s.values id)) {u : Update} (hfits : u.Fits vars)
    (hentries : ∀ entry ∈ u.entries, heir? vars entry = some id → Elements decl.type entry.values) :
    Elements decl.type ((u.apply s).values id) := by
  cases u with
  | set p v => exact elements_set hs hdecl h fun hid => hfits decl (hid ▸ hdecl)
  | restore entries =>
    refine (elements_restore hs hdecl h entries).mpr fun entry hentry => ?_
    obtain ⟨hmem, hheir⟩ := inherited_mem hentry
    exact hentries entry hmem hheir

theorem declares_updates (hs : s.Declares vars) (updates : List Update) :
    (updates.foldl Update.apply s).Declares vars := by
  induction updates generalizing s with
  | nil => exact hs
  | cons u rest ih => exact ih (declares_apply hs u)

theorem elements_updates (hs : s.Declares vars) (hdecl : vars[id]? = some decl)
    (h : Elements decl.type (s.values id)) {updates : List Update}
    (hfits : ∀ u ∈ updates, u.Fits vars)
    (hentries : ∀ u ∈ updates, ∀ entry ∈ u.entries, heir? vars entry = some id →
      Elements decl.type entry.values) :
    Elements decl.type ((updates.foldl Update.apply s).values id) := by
  induction updates generalizing s with
  | nil => exact h
  | cons u rest ih =>
    obtain ⟨hfirst, hfits⟩ := List.forall_mem_cons.mp hfits
    obtain ⟨hown, hentries⟩ := List.forall_mem_cons.mp hentries
    exact ih (declares_apply hs u) (elements_apply hs hdecl h hfirst hown) hfits hentries

theorem elements_empty {p : Program} (hdecl : p.vars[id]? = some decl) :
    Elements decl.type ((empty p).values id) := by
  obtain ⟨cell, hcell, rfl⟩ := exists_cell (declares_empty p) hdecl
  have htyped := (typed_empty p).elements id cell hcell
  rwa [values, hcell]

/-- After any calls that write values of the right types, a variable holds elements of its type
within its capacity: always if it does not outlive the session, and otherwise as long as the entries
that went to it held such elements.  Of the entries of one more call, only the last one that goes to
it can break that, and does if it holds others. -/
theorem elements_of_updates (p : Program) {updates : List Update}
    (hfits : ∀ u ∈ updates, u.Fits p.vars) :
    (updated p updates).Declares p.vars ∧ ∀ id decl, p.vars[id]? = some decl →
      (decl.scope ≠ .saved → Elements decl.type ((updated p updates).values id)) ∧
      ((∀ u ∈ updates, ∀ entry ∈ u.entries,
          heir? p.vars entry = some id → Elements decl.type entry.values) →
        Elements decl.type ((updated p updates).values id)) ∧
      (Elements decl.type ((updated p updates).values id) → ∀ entries,
        (Elements decl.type ((updated p (updates ++ [.restore entries])).values id) ↔
          ∀ entry, inherited? p.vars id entries = some entry →
            Elements decl.type entry.values)) := by
  have hs : (updated p updates).Declares p.vars := declares_updates (declares_empty p) updates
  refine ⟨hs, fun id decl hdecl => ?_⟩
  have hkeeps := elements_updates (declares_empty p) hdecl (elements_empty hdecl) hfits
  refine ⟨fun hscope => hkeeps fun _ _ entry _ hheir => ?_, hkeeps, fun h entries => ?_⟩
  · exact absurd (saved_of_heir hdecl hheir) hscope
  · have hlast : updated p (updates ++ [.restore entries]) =
        (updated p updates).restore entries := by
      rw [updated, List.foldl_append]
      rfl
    rw [hlast]
    exact elements_restore hs hdecl h entries

/-- A list, and two variables of one name that outlive the session. -/
def keeping : Program where
  environments := []
  nodes := #[]
  entryPoints := []
  memoPoints := []
  slots := []
  vars := [⟨"list", .float, .within 0⟩, ⟨"!best", .float, .saved⟩, ⟨"!best", .obj, .saved⟩]

/-- Writes within and beyond the capacity, and entries of which one goes nowhere and two to the same
variable. -/
def scores : List Update :=
  [.set ⟨0, 2⟩ (.float 4), .set ⟨0, 65536⟩ (.float 1), .set ⟨0, -1⟩ (.float 1),
  .restore [{ name := "list", type := .value .float, values := #[.bool true] },
    { name := "!best", type := .value .float, values := #[.float 1, .float 2] },
    { name := "!best", type := .value .float, values := #[.float 42] }]]

theorem elements_of_updates_keeping : (∀ u ∈ scores, u.Fits keeping.vars) ∧
    (updated keeping scores).values 0 = #[.float 0, .float 0, .float 4] ∧
    Elements .float ((updated keeping scores).values 0) ∧
    (∀ entry ∈ scores.flatMap Update.entries, heir? keeping.vars entry = some 1 →
      Elements .float entry.values) ∧
    (updated keeping scores).values 1 = #[.float 42] ∧
    Elements .float ((updated keeping scores).values 1) := by
  have hfits : ∀ u ∈ scores, u.Fits keeping.vars := by
    intro u hu
    simp only [scores, List.mem_cons, List.not_mem_nil, or_false] at hu
    rcases hu with rfl | rfl | rfl | rfl
    iterate 3
      rintro decl hdecl
      cases hdecl
      trivial
    trivial
  have hentries : ∀ u ∈ scores, ∀ entry ∈ u.entries, heir? keeping.vars entry = some 1 →
      Elements .float entry.values := by
    intro u hu entry hentry hheir
    simp only [scores, List.mem_cons, List.not_mem_nil, or_false] at hu
    rcases hu with rfl | rfl | rfl | rfl
    iterate 3
      exact absurd hentry List.not_mem_nil
    simp only [Update.entries, List.mem_cons, List.not_mem_nil, or_false] at hentry
    rcases hentry with rfl | rfl | rfl
    · exact absurd hheir (by decide)
    all_goals exact ⟨by decide, by simp [Value.HasBase]⟩
  obtain ⟨-, hall⟩ := elements_of_updates keeping hfits
  refine ⟨hfits, by decide +kernel, (hall 0 _ rfl).1 (by decide), ?_, by decide +kernel,
    (hall 1 _ rfl).2.1 hentries⟩
  intro entry hentry
  obtain ⟨u, hu, hmem⟩ := List.mem_flatMap.mp hentry
  exact hentries u hu entry hmem

/-- An entry for the number among the variables that are kept, with elements of any kind. -/
def bringing (values : Array Value) : SavedVariable :=
  { name := "!best", type := .value .float, values }

/-- Entries are taken over as they are: elements of another type than that of the variable, and more
of them than a write could add. -/
theorem foreign_elements_restored :
    (∀ u ∈ [Update.restore [bringing #[.bool true]]], u.Fits keeping.vars) ∧
    keeping.vars[1]? = some ⟨"!best", .float, .saved⟩ ∧
    (updated keeping [.restore [bringing #[.bool true]]]).values 1 = #[.bool true] ∧
    ¬Elements .float ((updated keeping [.restore [bringing #[.bool true]]]).values 1) ∧
    ¬Elements .float ((updated keeping
      [.restore [bringing (Array.replicate (capacity + 1) (.float 0))]]).values 1) := by
  have hvalues : ∀ values, (updated keeping [.restore [bringing values]]).values 1 = values := by
    intro values
    have hheir : heir? keeping.vars (bringing values) = some 1 := rfl
    have hlast : inherited? keeping.vars 1 [bringing values] = some (bringing values) := by
      simp [inherited?, hheir]
    refine (values_restore (declares_empty keeping) rfl [bringing values]).trans ?_
    rw [hlast]
    rfl
  refine ⟨by simp [Update.Fits], rfl, hvalues _, fun h => ?_, fun h => ?_⟩
  · exact h.each (.bool true) (by rw [hvalues]; exact Array.mem_singleton.mpr rfl)
  · have hsize := h.size
    rw [hvalues, Array.size_replicate] at hsize
    exact absurd hsize (Nat.not_succ_le_self capacity)

end VariableStore
end SignalGraph
