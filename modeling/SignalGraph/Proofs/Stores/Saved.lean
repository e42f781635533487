import SignalGraph.Proofs.Emission.KeptCode
import SignalGraph.Proofs.Instrumentation.Chronicle.Backends

/-!
# Saved variables

What a store keeps for the next session tells apart all variables that are kept, because no two
variables of a program are the same.  So a store that takes it over has those variables as they
were, and its own others.
-/

namespace SignalGraph

/-- Variables whose names begin with an exclamation mark. -/
def Variable.Outlives (v : Variable) : Prop := v.name.toList.head? = some '!'

instance (v : Variable) : Decidable v.Outlives := inferInstanceAs (Decidable (_ = _))

theorem Variable.scopeOf_eq_saved {name : String} {env : EnvId} :
    scopeOf name env = .saved ↔ name.toList.head? = some '!' := by
  unfold scopeOf
  split
  · next heq => simp [heq]
  · next heq => simp [heq]
  · next hsaved _ =>
    refine ⟨VariableScope.noConfusion, fun hhead => ?_⟩
    obtain ⟨rest, hrest⟩ := List.head?_eq_some_iff.mp hhead
    exact absurd hrest (hsaved rest)

theorem nodup_eraseDups {α : Type} [DecidableEq α] : ∀ l : List α, l.eraseDups.Nodup
  | [] => List.nodup_nil
  | a :: l => by
    rw [List.eraseDups_cons, List.nodup_cons]
    refine ⟨?_, nodup_eraseDups _⟩
    simp [List.mem_eraseDups]
termination_by l => l.length
decreasing_by exact Nat.lt_succ_of_le (List.length_filter_le _ _)

namespace Program

variable {c : Catalog} {d : Document} {p : Program}

/-- No two variables of a program have their name, type and scope in common. -/
theorem nodup_vars (h : analyse c d = .ok p) : p.vars.Nodup := by
  obtain ⟨x, built, volatile, -, -, -, -, -, rfl⟩ := analyse_eq_ok.mp h
  exact nodup_eraseDups _

theorem scope_eq_saved (h : analyse c d = .ok p) {v : Variable} (hv : v ∈ p.vars) :
    v.scope = .saved ↔ v.Outlives := by
  obtain ⟨x, built, volatile, -, -, -, -, -, rfl⟩ := analyse_eq_ok.mp h
  obtain ⟨env, hscope⟩ := Nodes.scope_of_mem_vars hv
  rw [hscope]
  exact Variable.scopeOf_eq_saved

end Program

namespace Cell

def entry (cell : Cell) : SavedVariable :=
  { name := cell.decl.name, type := .value cell.decl.type, values := cell.values }

def takeOver (kept cell : Cell) : Cell :=
  if cell.decl.scope = .saved then { cell with values := kept.values } else cell

theorem decl_takeOver (kept cell : Cell) : (takeOver kept cell).decl = cell.decl := by
  unfold takeOver
  split <;> rfl

theorem takeOver_self (cell : Cell) : takeOver cell cell = cell := by
  unfold takeOver
  split <;> rfl

theorem values_takeOver (kept cell : Cell) :
    (takeOver kept cell).values =
      if cell.decl.scope = .saved then kept.values else cell.values := by
  unfold takeOver
  split <;> rfl

end Cell

namespace VariableStore

variable {vars : List Variable} {s t : VariableStore} {kept cell : Cell}

/-- An entry belongs to no variable but the one it was made of. -/
theorem matches_entry (hsaved : kept.decl.scope = .saved) :
    Matches kept.entry cell ↔ cell.decl = kept.decl := by
  constructor
  · rintro ⟨hscope, hname, htype⟩
    obtain ⟨⟨name, type, scope⟩, values⟩ := cell
    cases WireType.value.inj htype
    cases hname
    cases hscope.trans hsaved.symm
    rfl
  · intro hdecl
    exact ⟨hdecl ▸ hsaved, by rw [hdecl]; rfl, by rw [hdecl]; rfl⟩

theorem restoreEntry_append {before after : List Cell} (hsaved : kept.decl.scope = .saved)
    (hdecl : cell.decl = kept.decl) (hfresh : ∀ other ∈ before, other.decl ≠ kept.decl) :
    restoreEntry ⟨(before ++ cell :: after).toArray⟩ kept.entry =
      ⟨(before ++ kept.takeOver cell :: after).toArray⟩ := by
  have hfind : (before ++ cell :: after).findIdx? (fun cell => decide (Matches kept.entry cell)) =
      some before.length := by
    have hbefore : before.findIdx? (fun cell => decide (Matches kept.entry cell)) = none := by
      simpa [matches_entry hsaved] using hfresh
    have hcell : decide (Matches kept.entry cell) = true :=
      decide_eq_true ((matches_entry hsaved).mpr hdecl)
    rw [List.findIdx?_append, hbefore, List.findIdx?_cons, if_pos hcell]
    simp
  unfold restoreEntry
  simp only [List.findIdx?_toArray, hfind, List.modify_toArray]
  rw [List.modify_eq_take_cons_drop (by simp)]
  simp [Cell.takeOver, Cell.entry, hdecl, hsaved]

/-- The entries of one store are taken over one after the other. -/
theorem restore_append : ∀ {before kept cells : List Cell},
    kept.map (·.decl) = cells.map (·.decl) → ((before ++ cells).map (·.decl)).Nodup →
    restore ⟨(before ++ cells).toArray⟩ ((kept.filter (·.decl.scope = .saved)).map Cell.entry) =
      ⟨(before ++ List.zipWith Cell.takeOver kept cells).toArray⟩
  | _, [], [], _, _ => rfl
  | before, kept :: keptRest, cell :: rest, hdecls, hnodup => by
    obtain ⟨hdecl, hdecls⟩ := List.cons.inj hdecls
    have hnext : ((before ++ [kept.takeOver cell] ++ rest).map (·.decl)).Nodup := by
      simpa [Cell.decl_takeOver] using hnodup
    have ih := restore_append hdecls hnext
    rw [List.append_assoc, List.append_assoc] at ih
    rw [List.zipWith_cons_cons]
    refine Eq.trans ?_ ih
    by_cases hsaved : kept.decl.scope = .saved
    · have hfresh : ∀ other ∈ before, other.decl ≠ kept.decl := by
        intro other hother heq
        rw [List.map_append, List.nodup_append] at hnodup
        exact hnodup.2.2 other.decl (List.mem_map_of_mem hother) cell.decl (by simp)
          (heq.trans hdecl)
      rw [List.filter_cons_of_pos (by simpa using hsaved), List.map_cons, restore, List.foldl_cons,
        restoreEntry_append hsaved hdecl.symm hfresh]
      rfl
    · have hcell : kept.takeOver cell = cell := by
        refine if_neg fun h => hsaved ?_
        rw [show kept.decl = cell.decl from hdecl]
        exact h
      rw [List.filter_cons_of_neg (by simpa using hsaved), hcell]
      rfl

theorem saved_zipWith : ∀ {kept cells : List Cell}, kept.map (·.decl) = cells.map (·.decl) →
    ((List.zipWith Cell.takeOver kept cells).filter (·.decl.scope = .saved)).map Cell.entry =
      (kept.filter (·.decl.scope = .saved)).map Cell.entry
  | [], [], _ => rfl
  | kept :: keptRest, cell :: rest, hdecls => by
    obtain ⟨hdecl, hdecls⟩ := List.cons.inj hdecls
    replace hdecl : kept.decl = cell.decl := hdecl
    have ih := saved_zipWith hdecls
    rw [List.zipWith_cons_cons]
    by_cases hsaved : kept.decl.scope = .saved
    · have hcell : (kept.takeOver cell).entry = kept.entry := by
        simp [Cell.takeOver, Cell.entry, ← hdecl, hsaved]
      rw [List.filter_cons_of_pos (by simpa [Cell.decl_takeOver, ← hdecl] using hsaved),
        List.map_cons, ih,
        List.filter_cons_of_pos (by simpa using hsaved), List.map_cons, hcell]
    · rw [List.filter_cons_of_neg (by simpa [Cell.decl_takeOver, ← hdecl] using hsaved), ih,
        List.filter_cons_of_neg (by simpa using hsaved)]

section

variable (hs : s.Declares vars) (ht : t.Declares vars) (hnodup : vars.Nodup)
include hs ht hnodup

theorem restore_saved : t.restore s.saved =
    ⟨(List.zipWith Cell.takeOver s.cells.toList t.cells.toList).toArray⟩ := by
  have hdecls : s.cells.toList.map (·.decl) = t.cells.toList.map (·.decl) := hs.trans ht.symm
  have hall : (([] ++ t.cells.toList).map fun cell : Cell => cell.decl).Nodup := ht.symm ▸ hnodup
  exact restore_append hdecls hall

theorem values_restore_saved {id : VarId} {v : Variable} (hv : vars[id]? = some v) :
    (t.restore s.saved).values id = if v.scope = .saved then s.values id else t.values id := by
  have hcell : ∀ {store : VariableStore}, store.Declares vars →
      ∃ cell, store.cells[id]? = some cell ∧ cell.decl = v := by
    intro store hstore
    rw [← show store.cells.toList.map (·.decl) = vars from hstore, List.getElem?_map,
      Array.getElem?_toList] at hv
    exact Option.map_eq_some_iff.mp hv
  obtain ⟨kept, hkept, -⟩ := hcell hs
  obtain ⟨cell, hown, rfl⟩ := hcell ht
  have hrestored : (t.restore s.saved).cells[id]? = some (kept.takeOver cell) := by
    rw [restore_saved hs ht hnodup]
    simp [List.getElem?_zipWith, hkept, hown]
  simp only [values, hrestored, hkept, hown, Cell.values_takeOver]

theorem saved_restore_saved : (t.restore s.saved).saved = s.saved := by
  rw [restore_saved hs ht hnodup]
  exact saved_zipWith (hs.trans ht.symm)

end

theorem restore_saved_self (hs : s.Declares vars) (hnodup : vars.Nodup) :
    s.restore s.saved = s := by
  rw [restore_saved hs hs hnodup]
  simp [List.zipWith_self, Cell.takeOver_self]

end VariableStore

namespace Backend

/-- A backend that a program was started in, after any calls, whether they failed or not, and
whatever its host did between them.  Unlike a reached one it may have been given values of any
type. -/
inductive Handled (strategy : Strategy) (p : Program) {σ : Type} (e : Engine σ) : Backend σ → Prop
  | start {engine : σ} {b : Backend σ} : start strategy p engine = .ok b → Handled strategy p e b
  | frame {b : Backend σ} : Handled strategy p e b → Handled strategy p e (b.runFrame e).2
  | late {b : Backend σ} (tasks : List NodeId) :
    Handled strategy p e b → Handled strategy p e (b.runLate e tasks).2
  | ask {b : Backend σ} {α : Type} (action : StateM σ α) :
    Handled strategy p e b → Handled strategy p e (b.ask action).2
  | setVariable {b : Backend σ} (pointer : Pointer) (v : Value) :
    Handled strategy p e b → Handled strategy p e (b.setVariable pointer v)
  | restore {b : Backend σ} (entries : List SavedVariable) :
    Handled strategy p e b → Handled strategy p e (b.restore entries)

variable {σ τ : Type} {e : Engine σ} {e' : Engine τ} {p : Program} {strategy strategy' : Strategy}
  {b : Backend σ} {b' : Backend τ} {vars : List Variable}

theorem declares_start {engine : σ} (h : start strategy p engine = .ok b) :
    b.vars.Declares p.vars := by
  cases strategy with
  | interpreter =>
    cases h
    exact VariableStore.declares_empty p
  | compiled =>
    obtain ⟨s, hs, rfl⟩ := Outcome.map_eq_ok.mp h
    obtain ⟨m, -, hs⟩ := Outcome.bind_eq_ok.mp hs
    split at hs
    · cases hs
    · cases hs
      exact VariableStore.declares_empty p

theorem declares_runFrame (h : b.vars.Declares vars) : (b.runFrame e).2.vars.Declares vars := by
  cases b with
  | interpreted s =>
    exact Interpreter.declares_perform (s := { s with frames := s.frames + 1 })
      (preserves_bind (Interpreter.retains_advance e _) fun _ => Interpreter.retains_frame e _) h
  | compiled s =>
    exact Compiler.declares_perform (s := { s with frames := s.frames + 1 })
      (preserves_bind (Compiler.preserves_advance e _) fun _ => Compiler.preserves_frame e _ _) h

theorem declares_runLate (h : b.vars.Declares vars) (tasks : List NodeId) :
    (b.runLate e tasks).2.vars.Declares vars := by
  cases b with
  | interpreted s => exact Interpreter.declares_perform (Interpreter.retains_late e _ tasks) h
  | compiled s => exact Compiler.declares_perform (Compiler.preserves_late e _ _ tasks) h

/-- Whatever happens to a backend, its variables are those of the program. -/
theorem Handled.declares (h : Handled strategy p e b) : b.vars.Declares p.vars := by
  induction h with
  | start hstart => exact declares_start hstart
  | frame _ ih => exact declares_runFrame ih
  | late tasks _ ih => exact declares_runLate ih tasks
  | @ask b _ _ _ ih => cases b <;> exact ih
  | @setVariable b pointer v _ ih => cases b <;> exact VariableStore.declares_set ih pointer v
  | @restore b entries _ ih => cases b <;> exact VariableStore.declares_restore ih entries

/-- A session goes on where another one of the same program, under either strategy, left off: taking
over what that one kept, it has the elements of the variables that outlive a session and keeps its
own of all others. What it keeps then is what the other one kept, and to take over what it kept
itself changes nothing. -/
theorem restored_of_handled {c : Catalog} {d : Document} (h : Program.analyse c d = .ok p)
    (hb : Handled strategy p e b) (hb' : Handled strategy' p e' b') :
    (b'.vars.restore b.vars.saved).Declares p.vars ∧
      (∀ (id : VarId) (v : Variable), p.vars[id]? = some v →
        (v.Outlives → (b'.vars.restore b.vars.saved).values id = b.vars.values id) ∧
          (¬v.Outlives → (b'.vars.restore b.vars.saved).values id = b'.vars.values id)) ∧
      (b'.vars.restore b.vars.saved).saved = b.vars.saved ∧
      b.vars.restore b.vars.saved = b.vars := by
  have hs := hb.declares
  have ht := hb'.declares
  have hnodup := Program.nodup_vars h
  refine ⟨VariableStore.declares_restore ht _, fun id v hv => ?_,
    VariableStore.saved_restore_saved hs ht hnodup, VariableStore.restore_saved_self hs hnodup⟩
  have hvalues := VariableStore.values_restore_saved hs ht hnodup hv
  have hscope := Program.scope_eq_saved h (List.mem_of_getElem? hv)
  constructor
  · intro houtlives
    rw [hvalues, if_pos (hscope.mpr houtlives)]
  · intro hpasses
    rw [hvalues, if_neg fun hsaved => hpasses (hscope.mp hsaved)]

/-- Variables of one name that differ in type or scope, each set in the main graph and in a
block. -/
def namesakes : Document where
  main := {
    id := 0
    nodes := [{ pos := ⟨0, 0, 0⟩, kind := 428, settings := [.text "!a"] },
      { pos := ⟨4, 0, 4⟩, kind := 430, settings := [.text "!a"] },
      { pos := ⟨8, 0, 8⟩, kind := 428, settings := [.text "a"] },
      { pos := ⟨12, 0, 12⟩, kind := 1000 }] }
  blocks := [{
    id := 1000
    name := "inside"
    footprint := ⟨2, 2⟩
    graph := {
      id := 7
      nodes := [{ pos := ⟨0, 0, 0⟩, kind := 428, settings := [.text "a"] },
        { pos := ⟨4, 0, 4⟩, kind := 430, settings := [.text "!a"] },
        { pos := ⟨8, 0, 8⟩, kind := 428, settings := [.text "!a"] }] } }]

theorem restored_of_handled_namesakes : ∃ c p, Program.analyse c namesakes = .ok p ∧
    p.vars = [⟨"!a", .float, .saved⟩, ⟨"!a", .obj, .saved⟩, ⟨"a", .float, .within 0⟩,
      ⟨"a", .float, .within 1⟩] ∧
    ∀ strategy strategy', ∃ b b' : Backend Headless, Handled strategy p Headless.engine b ∧
      Handled strategy' p Headless.engine b' ∧
      ([0, 1].map (b'.vars.restore b.vars.saved).values = [0, 1].map b.vars.values) ∧
      ([2, 3].map (b'.vars.restore b.vars.saved).values = [2, 3].map b'.vars.values) ∧
      (b'.vars.restore b.vars.saved).saved = b.vars.saved ∧
      b.vars.restore b.vars.saved = b.vars := by
  have hsome : (Catalog.stock.bind fun c =>
      (namesakes.blocks.foldlM Catalog.addCustom c).bind fun c =>
        Program.analyse c namesakes).toOption.any (fun p => p.vars =
          [⟨"!a", .float, .saved⟩, ⟨"!a", .obj, .saved⟩, ⟨"a", .float, .within 0⟩,
            ⟨"a", .float, .within 1⟩]) = true := by
    decide +kernel
  obtain ⟨c, p, hc, hp, hvars⟩ := Catalog.exists_stocked hsome
  replace hvars := of_decide_eq_true hvars
  refine ⟨c, p, hp, hvars, fun strategy strategy' => ?_⟩
  have hwell := Program.wellFormed_of_analyse hc hp
  obtain ⟨b, hb⟩ := exists_start hwell strategy (Headless.ofSeed 0)
  obtain ⟨b', hb'⟩ := exists_start hwell strategy' (Headless.ofSeed 0)
  have hrun : Handled strategy p Headless.engine (b.runFrame Headless.engine).2 :=
    .frame (.start hb)
  have hnew : Handled strategy' p Headless.engine b' := .start hb'
  obtain ⟨-, hvalues, hsaved, hself⟩ := restored_of_handled hp hrun hnew
  rw [hvars] at hvalues
  refine ⟨_, b', hrun, hnew, ?_, ?_, hsaved, hself⟩
  · simp only [List.map_cons, List.map_nil]
    rw [(hvalues 0 _ rfl).1 (by decide), (hvalues 1 _ rfl).1 (by decide)]
  · simp only [List.map_cons, List.map_nil]
    rw [(hvalues 2 _ rfl).2 (by decide), (hvalues 3 _ rfl).2 (by decide)]

end Backend
end SignalGraph
