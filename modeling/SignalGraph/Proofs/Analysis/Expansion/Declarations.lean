import SignalGraph.Analysis.Analyse
import SignalGraph.Proofs.Analysis.Expansion.Nesting

/-!
# Declarations

Which graph the environment of a custom block holds.  A node finds its declaration by its kind, but
the declaration finds its graph by number among all graphs of the document, where the last one
counts. So a block shows its own graph only if no later declaration carries another graph of that
number.
-/

namespace SignalGraph

/-- The declaration of a kind: that of the document, or else the first of the library. -/
def Document.declaration? (d : Document) (library : List LibraryFile) (kind : KindId) :
    Option CustomBlock :=
  (d.blocks ++ library.map (·.block)).find? (·.id = kind)

/-- The environments of a document with the blocks of a library at hand. -/
def Program.expansion (c : Catalog) (d : Document) (library : List LibraryFile) :
    Except Fault Expansion := do
  let d := d.withLibrary library
  Expansion.ofDocument (← d.blocks.foldlM Catalog.addCustom c) d

variable {d : Document} {library : List LibraryFile}

theorem Document.find?_withLibrary (d : Document) (library : List LibraryFile) (kind : KindId) :
    (d.withLibrary library).blocks.find? (·.id = kind) = d.declaration? library kind := by
  induction library generalizing d with
  | nil => simp [withLibrary, declaration?]
  | cons file rest ih =>
    rw [withLibrary, List.foldl_cons]
    by_cases hany : d.blocks.any (·.id = file.block.id)
    · rw [if_pos hany]
      refine (ih d).trans ?_
      simp only [declaration?, List.map_cons, List.find?_append, List.find?_cons]
      by_cases hkind : file.block.id = kind
      · subst hkind
        obtain ⟨decl, hdecl⟩ := Option.isSome_iff_exists.mp
          (List.find?_isSome.mpr (List.any_eq_true.mp hany))
        simp [hdecl]
      · simp [hkind]
    · rw [if_neg hany]
      refine (ih _).trans ?_
      simp [declaration?]

namespace Catalog

variable {c c' : Catalog}

theorem template_of_stock (h : Catalog.stock = .ok c) :
    ∀ b ∈ c.blocks, ∀ g, b.template ≠ .custom g := by
  refine Outcome.foldlM_induct (fun c : Catalog => ∀ b ∈ c.blocks, ∀ g, b.template ≠ .custom g) h
    (fun b hb => nomatch hb) fun entry _ c c' hc hadd b hb g => ?_
  obtain ⟨b', hb', hadd⟩ := Outcome.bind_eq_ok.mp hadd
  obtain ⟨c₁, hc₁, hadd⟩ := Outcome.bind_eq_ok.mp hadd
  cases hadd
  rcases List.mem_cons.mp (blocks_of_insert hc₁ ▸ hb) with rfl | hb
  · rw [(Block.builtin_of_ofKind hb').template]
    split <;> exact nofun
  · exact hc b hb g

theorem find?_addCustom {decl : CustomBlock} (h : c.addCustom decl = .ok c') :
    c.find? decl.id = none ∧ ∃ b, b.id = decl.id ∧ b.template = .custom decl.graph.id ∧
      ∀ kind, c'.find? kind = if decl.id = kind then some b else c.find? kind := by
  unfold addCustom at h
  obtain ⟨b, hb, h⟩ := Outcome.bind_eq_ok.mp h
  have htemplate := (Block.placed_of_ofCustom hb).2
  have hid : b.id = decl.id := by
    unfold Block.ofCustom at hb
    obtain ⟨ts, -, hb⟩ := Outcome.bind_eq_ok.mp hb
    cases hb
    rfl
  have hblocks := blocks_of_insert h
  unfold insert at h
  cases hfind : c.find? b.id with
  | some _ => simp [hfind] at h
  | none =>
    rw [hid] at hfind
    refine ⟨hfind, b, hid, htemplate, fun kind => ?_⟩
    rw [find?, hblocks, List.find?_cons, hid]
    by_cases hkind : decl.id = kind
    · simp [hkind]
    · simp only [hkind, decide_false, if_false]
      rfl

/-- The custom blocks of a catalog are those of the declarations, each the first of its number. -/
structure Declares (decls : List CustomBlock) (c : Catalog) : Prop where
  known : ∀ decl ∈ decls, (c.find? decl.id).isSome
  found : ∀ {kind b g}, c.find? kind = some b → b.template = .custom g →
    ∃ decl, decls.find? (·.id = kind) = some decl ∧ g = decl.graph.id

/-- A later declaration of a number that is taken is not let in. -/
theorem Declares.add {decls : List CustomBlock} {decl : CustomBlock} (h : Declares decls c)
    (hadd : c.addCustom decl = .ok c') : Declares (decls ++ [decl]) c' := by
  obtain ⟨hfresh, b, hid, htemplate, hnew⟩ := find?_addCustom hadd
  refine ⟨fun decl' hdecl' => ?_, fun {kind b' g'} hf hb' => ?_⟩
  · rw [hnew]
    split
    · rfl
    · next hne =>
      rcases List.mem_append.mp hdecl' with hin | hin
      · exact h.known decl' hin
      · rw [List.mem_singleton.mp hin] at hne
        exact absurd rfl hne
  · rw [hnew] at hf
    rw [List.find?_append]
    by_cases hkind : decl.id = kind
    · rw [if_pos hkind, Option.some.injEq] at hf
      subst hf hkind
      have hnone : decls.find? (·.id = decl.id) = none := by
        refine List.find?_eq_none.mpr fun decl' hdecl' heq => ?_
        have hsome := h.known decl' hdecl'
        rw [of_decide_eq_true heq, hfresh] at hsome
        exact nomatch hsome
      rw [htemplate, Template.custom.injEq] at hb'
      exact ⟨decl, by simp [hnone], hb'.symm⟩
    · rw [if_neg hkind] at hf
      obtain ⟨decl', hdecl', hg⟩ := h.found hf hb'
      exact ⟨decl', by rw [hdecl']; rfl, hg⟩

theorem declares_of_addCustom {decls : List CustomBlock}
    (hc : ∀ b ∈ c.blocks, ∀ g, b.template ≠ .custom g)
    (h : decls.foldlM Catalog.addCustom c = .ok c') : Declares decls c' := by
  have hempty : Declares [] c :=
    ⟨fun _ hd => (List.not_mem_nil hd).elim,
      fun hf hb => absurd hb (hc _ (List.mem_of_find?_eq_some hf) _)⟩
  exact Outcome.foldlM_induct_done Declares h hempty fun _ _ _ _ _ _ hdone hadd => hdone.add hadd

end Catalog

namespace Program

variable {c : Catalog} {p : Program}

theorem expansion_of_load (h : load c d library = .ok p) : ∃ x,
    expansion c d library = .ok x ∧ p.environments = x.scopes.map (·.environment) := by
  unfold load at h
  obtain ⟨c', hc', h⟩ := Outcome.bind_eq_ok.mp h
  unfold analyse at h
  obtain ⟨x, hx, h⟩ := Outcome.bind_eq_ok.mp h
  refine ⟨x, Outcome.bind_eq_ok.mpr ⟨c', hc', hx⟩, ?_⟩
  obtain ⟨-, -, h⟩ := Outcome.bind_eq_ok.mp h
  obtain ⟨built, -, h⟩ := Outcome.bind_eq_ok.mp h
  obtain ⟨-, -, h⟩ := Outcome.bind_eq_ok.mp h
  obtain ⟨volatile, -, h⟩ := Outcome.bind_eq_ok.mp h
  cases h
  rfl

/-- The environment of a custom block holds the last graph that has the number of its own graph.  It
holds its own if and only if that is the same. -/
theorem child_copies_last (hc : ∀ b ∈ c.blocks, ∀ g, b.template ≠ .custom g)
    (h : load c d library = .ok p) : ∃ x, expansion c d library = .ok x ∧
      p.environments = x.scopes.map (·.environment) ∧
      ∀ env s m g, x.scopes[env]? = some s → m ∈ s.members → m.graph? = some g →
        ∃ decl last child t, d.declaration? library m.decl.kind = some decl ∧
          (d.withLibrary library).graph? decl.graph.id = some last ∧
          x.child? env m.decl.pos = some child ∧ x.scopes[child]? = some t ∧ t.Copies last ∧
          (t.Copies decl.graph ↔ last = decl.graph) := by
  obtain ⟨x, hx, henvironments⟩ := expansion_of_load h
  refine ⟨x, hx, henvironments, fun env s m g hs hm hg => ?_⟩
  obtain ⟨c', hc', hx⟩ := Outcome.bind_eq_ok.mp hx
  obtain ⟨last, child, t, hlast, hchild, ht, hcopies⟩ := Expansion.child_of_custom hx hs hm hg
  have hblock := (Expansion.scopesFit_ofDocument hx env s hs).block m hm
  obtain ⟨decl, hdecl, rfl⟩ :=
    (Catalog.declares_of_addCustom hc hc').found hblock (Member.template_of_graph? hg)
  rw [Document.find?_withLibrary] at hdecl
  refine ⟨decl, last, child, t, hdecl, hlast, hchild, ht, hcopies, fun hown => ?_,
    fun he => he ▸ hcopies⟩
  exact hcopies.unique hown

/-- Two blocks whose graphs have one number: the first wins, the second loses. -/
def twins : Document where
  main := { id := 0, nodes := [{ pos := ⟨0, 0, 0⟩, kind := 1000 }] }
  blocks := [
    { id := 1000, name := "first", footprint := ⟨2, 2⟩
      graph := { id := 7, nodes := [{ pos := ⟨0, 0, 0⟩, kind := 252 }] } },
    { id := 1001, name := "second", footprint := ⟨2, 2⟩
      graph := { id := 7, nodes := [{ pos := ⟨0, 0, 0⟩, kind := 256 }] } }]

theorem exists_load_twins : ∃ c x p s m, (∀ b ∈ c.blocks, ∀ g, b.template ≠ .custom g) ∧
    load c twins [] = .ok p ∧ expansion c twins [] = .ok x ∧ x.scopes[0]? = some s ∧
    m ∈ s.members ∧ m.graph? = some 7 ∧ m.decl.kind = 1000 := by
  have hloads : (Catalog.stock.bind fun c => load c twins []).toOption.isSome = true := by
    decide +kernel
  have hexpands : (Catalog.stock.bind fun c => expansion c twins []).toOption.any (fun x =>
      (x.scopes[0]?.bind fun s => s.members[0]?.map fun m => (m.graph?, m.decl.kind)) =
        some (some 7, 1000)) = true := by
    decide +kernel
  obtain ⟨p, hp⟩ := Option.isSome_iff_exists.mp hloads
  obtain ⟨c, hc, hp⟩ := Outcome.bind_eq_ok.mp (Outcome.toOption_eq_some.mp hp)
  obtain ⟨c', x, hc', -, hx, hends⟩ := Catalog.exists_stock hexpands
  cases hc.symm.trans hc'
  obtain ⟨s, hs, hends⟩ := Option.bind_eq_some_iff.mp (of_decide_eq_true hends)
  obtain ⟨m, hm, hends⟩ := Option.map_eq_some_iff.mp hends
  simp only [Prod.mk.injEq] at hends
  exact ⟨c, x, p, s, m, Catalog.template_of_stock hc, hp, hx, hs, List.mem_of_getElem? hm, hends.1,
    hends.2⟩

theorem child_copies_last_twins : ∃ c x p s m child t,
    (∀ b ∈ c.blocks, ∀ g, b.template ≠ .custom g) ∧ load c twins [] = .ok p ∧
      expansion c twins [] = .ok x ∧ x.scopes[0]? = some s ∧ m ∈ s.members ∧
      x.child? 0 m.decl.pos = some child ∧ x.scopes[child]? = some t ∧
      t.Copies { id := 7, nodes := [{ pos := ⟨0, 0, 0⟩, kind := 256 }] } := by
  obtain ⟨c, x, p, s, m, hc, hp, hx, hs, hm, hg, hkind⟩ := exists_load_twins
  obtain ⟨x', hx', -, hall⟩ := child_copies_last hc hp
  rw [hx] at hx'
  cases hx'
  obtain ⟨decl, last, child, t, hdecl, hlast, hchild, ht, hcopies, -⟩ := hall 0 s m 7 hs hm hg
  rw [hkind] at hdecl
  cases hdecl
  cases hlast
  exact ⟨c, x, p, s, m, child, t, hc, hp, hx, hs, hm, hchild, ht, hcopies⟩

/-- The block that wins has the environment of the one that loses. -/
theorem child_of_first_twin : ∃ c x p s m decl child t,
    (∀ b ∈ c.blocks, ∀ g, b.template ≠ .custom g) ∧ load c twins [] = .ok p ∧
      expansion c twins [] = .ok x ∧ x.scopes[0]? = some s ∧ m ∈ s.members ∧ m.graph?.isSome ∧
      twins.declaration? [] m.decl.kind = some decl ∧ x.child? 0 m.decl.pos = some child ∧
      x.scopes[child]? = some t ∧ ¬t.Copies decl.graph := by
  obtain ⟨c, x, p, s, m, hc, hp, hx, hs, hm, hg, hkind⟩ := exists_load_twins
  obtain ⟨_, -, hof⟩ := Outcome.bind_eq_ok.mp hx
  obtain ⟨last, child, t, hlast, hchild, ht, hcopies⟩ := Expansion.child_of_custom hof hs hm hg
  refine ⟨c, x, p, s, m, _, child, t, hc, hp, hx, hs, hm, by rw [hg]; rfl, by rw [hkind]; rfl,
    hchild, ht, fun hown => ?_⟩
  have heq := hcopies.unique hown
  rw [← Option.some_inj, ← hlast] at heq
  exact absurd heq (by decide)

end Program
end SignalGraph
