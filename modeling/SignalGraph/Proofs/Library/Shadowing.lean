import Mathlib.Data.List.Induction
import SignalGraph.Analysis.Loading
import SignalGraph.Proofs.Analysis.Faults
import SignalGraph.Proofs.Blocks.Added
import SignalGraph.Proofs.Blocks.Registrations

/-!
# Shadowed blocks

What a library adds to a document: the first block of every number that the document does not have.
All others might as well not be there, and those that are added clash with nothing but the given
catalog.
-/

namespace SignalGraph

def ids (blocks : List CustomBlock) : List KindId := blocks.map (·.id)

theorem any_id_iff {blocks : List CustomBlock} {id : KindId} :
    blocks.any (·.id = id) = true ↔ id ∈ ids blocks := by
  simp [ids, List.any_eq_true]

namespace Document

variable {d : Document} {library : List LibraryFile}

/-- The blocks of a library whose number neither the document nor an earlier file has. -/
def newcomers (d : Document) (library : List LibraryFile) : List CustomBlock :=
  (library.zipIdx.filter fun (file, i) =>
    file.block.id ∉ ids (d.blocks ++ (library.take i).map (·.block))).map (·.1.block)

theorem newcomers_snoc (d : Document) (library : List LibraryFile) (file : LibraryFile) :
    d.newcomers (library ++ [file]) = d.newcomers library ++
      if file.block.id ∈ ids (d.blocks ++ library.map (·.block)) then [] else [file.block] := by
  have hold : library.zipIdx.filter (fun (file', i) =>
      decide (file'.block.id ∉ ids (d.blocks ++ ((library ++ [file]).take i).map (·.block)))) =
      library.zipIdx.filter fun (file', i) =>
        decide (file'.block.id ∉ ids (d.blocks ++ (library.take i).map (·.block))) := by
    refine List.filter_congr fun (file', i) hmem => ?_
    have hlt := (List.getElem?_eq_some_iff.mp (List.mem_zipIdx_iff_getElem?.mp hmem)).1
    simp only [List.take_append_of_le_length (Nat.le_of_lt hlt)]
  rw [newcomers, List.zipIdx_append, List.filter_append, hold, List.map_append]
  congr 1
  by_cases hmem : file.block.id ∈ ids (d.blocks ++ library.map (·.block))
  · simp [hmem]
  · simp [hmem]

/-- A document is given the newcomers, in their order. -/
theorem withLibrary_eq (d : Document) (library : List LibraryFile) :
    d.withLibrary library = { d with blocks := d.blocks ++ d.newcomers library } ∧
      ∀ id, id ∈ ids (d.blocks ++ d.newcomers library) ↔
        id ∈ ids (d.blocks ++ library.map (·.block)) := by
  induction library using List.reverseRecOn with
  | nil => simp [withLibrary, newcomers]
  | append_singleton library file ih =>
    obtain ⟨heq, hids⟩ := ih
    have hlast : d.withLibrary (library ++ [file]) =
        if (d.withLibrary library).blocks.any (·.id = file.block.id) then d.withLibrary library
        else { d.withLibrary library with blocks := (d.withLibrary library).blocks ++
          [file.block] } :=
      List.foldl_append
    have hany : (d.withLibrary library).blocks.any (·.id = file.block.id) = true ↔
        file.block.id ∈ ids (d.blocks ++ library.map (·.block)) := by
      rw [heq, any_id_iff, hids]
    rw [hlast, newcomers_snoc]
    by_cases hmem : file.block.id ∈ ids (d.blocks ++ library.map (·.block))
    · rw [if_pos (hany.mpr hmem), if_pos hmem, List.append_nil]
      refine ⟨heq, fun id => (hids id).trans ?_⟩
      simp only [ids, List.map_append, List.map_cons, List.map_nil, List.mem_append,
        List.mem_singleton] at hmem ⊢
      exact ⟨fun h => h.elim .inl fun h => .inr (.inl h),
        fun h => h.elim .inl fun h => h.elim .inr fun h => h ▸ hmem⟩
    · rw [if_neg (mt hany.mp hmem), if_neg hmem, heq, ← List.append_assoc]
      refine ⟨rfl, fun id => ?_⟩
      have hid := hids id
      simp only [ids, List.map_append, List.map_cons, List.map_nil, List.mem_append] at hid ⊢
      rw [hid, or_assoc]

/-- Newcomers have numbers of their own, which the document does not have. -/
theorem ids_newcomers (d : Document) (library : List LibraryFile) :
    (ids (d.newcomers library)).Nodup ∧
    ∀ id ∈ ids (d.newcomers library), id ∈ ids (library.map (·.block)) ∧ id ∉ ids d.blocks := by
  induction library using List.reverseRecOn with
  | nil => exact ⟨List.nodup_nil, nofun⟩
  | append_singleton library file ih =>
    obtain ⟨hnodup, hnew⟩ := ih
    have hold : ∀ id ∈ ids (d.newcomers library),
        id ∈ ids ((library ++ [file]).map (·.block)) ∧ id ∉ ids d.blocks := by
      intro id hid
      rw [List.map_append, ids, List.map_append]
      exact ⟨List.mem_append_left _ (hnew id hid).1, (hnew id hid).2⟩
    rw [newcomers_snoc]
    split
    · rw [List.append_nil]
      exact ⟨hnodup, hold⟩
    · next hmem =>
      rw [← (d.withLibrary_eq library).2] at hmem
      rw [ids, List.map_append] at hmem ⊢
      rw [List.mem_append, not_or] at hmem
      refine ⟨List.nodup_append.mpr ⟨hnodup, List.nodup_singleton _, fun id hid id' hid' heq => ?_⟩,
        fun id hid => ?_⟩
      · rw [heq, List.mem_singleton.mp hid'] at hid
        exact hmem.2 hid
      · rcases List.mem_append.mp hid with hid | hid
        · exact hold id hid
        · rw [List.mem_singleton.mp hid]
          exact ⟨by simp [ids], hmem.1⟩

/-- A file whose number is known adds nothing. -/
theorem withLibrary_shadowed {before after : List LibraryFile} {file : LibraryFile}
    (h : file.block.id ∈ ids (d.blocks ++ before.map (·.block))) :
    d.withLibrary (before ++ file :: after) = d.withLibrary (before ++ after) := by
  have hany : (d.withLibrary before).blocks.any (·.id = file.block.id) = true := by
    rw [(d.withLibrary_eq before).1, any_id_iff, (d.withLibrary_eq before).2]
    exact h
  rw [withLibrary, withLibrary, List.foldl_append, List.foldl_append, List.foldl_cons]
  exact congrArg (List.foldl _ · after) (if_pos hany)

end Document

namespace Catalog

variable {c c' : Catalog} {blocks : List CustomBlock} {id : KindId}

theorem isSome_find?_addAll (h : blocks.foldlM addCustom c = .ok c') :
    (c'.find? id).isSome ↔ (c.find? id).isSome ∨ id ∈ ids blocks := by
  simp only [Option.isSome_iff_exists, find?_addAll h, ids, List.mem_map]
  constructor
  · rintro ⟨b, hb | ⟨decl, hdecl, hid, -⟩⟩
    · exact .inl ⟨b, hb⟩
    · exact .inr ⟨decl, hdecl, hid⟩
  · rintro (⟨b, hb⟩ | ⟨decl, hdecl, hid⟩)
    · exact ⟨b, .inl hb⟩
    · obtain ⟨-, b, hb, -⟩ := fresh_of_addAll h hdecl
      exact ⟨b, .inr ⟨decl, hdecl, hid, hb⟩⟩

theorem duplicate_of_addCustom {decl : CustomBlock}
    (h : c.addCustom decl = .error (.duplicateKind id)) :
    decl.id = id ∧ (c.find? id).isSome := by
  have hrun := run_register_eq c (.custom decl)
  rw [show c.add (.custom decl) = .error (.duplicateKind id) from h] at hrun
  rcases register_cases c (.custom decl) with ⟨f, hcall, hwhy⟩ | ⟨b, hcall, -, -⟩
  · cases hcall.symm.trans hrun
    rcases hwhy with hb | ⟨-, htaken, heq⟩
    · have hlayout : layout decl.name decl.footprint decl.terminals decl.active =
          .error (.duplicateKind id) :=
        Registration.block_eq_error_iff.mp hb
      unfold layout at hlayout
      split at hlayout <;> exact nomatch hlayout
    · cases heq
      exact ⟨rfl, htaken⟩
  · exact nomatch hcall.symm.trans hrun

theorem duplicate_of_addAll (h : blocks.foldlM addCustom c = .error (.duplicateKind id))
    (hnodup : (ids blocks).Nodup) : (c.find? id).isSome ∧ id ∈ ids blocks := by
  obtain ⟨before, decl, after, mid, rfl, hmid, hfail⟩ := Outcome.foldlM_eq_error_split h
  obtain ⟨rfl, htaken⟩ := duplicate_of_addCustom hfail
  refine ⟨((isSome_find?_addAll hmid).mp htaken).resolve_right fun hmem => ?_, by simp [ids]⟩
  rw [ids, List.map_append, List.map_cons, List.nodup_append] at hnodup
  exact hnodup.2.2 decl.id hmem decl.id List.mem_cons_self rfl

end Catalog

namespace Program

variable {c : Catalog} {d : Document} {library : List LibraryFile}

theorem run_onCopy {work : Catalog.InPlace Unit} {s : Catalogs} {answer : Except Fault Unit}
    {copy : Catalog}
    (h : work.run.run s.copy = (answer, copy)) :
    (onCopy work).run.run s = (answer, { s with copy }) := by
  show ((work.run.run s.copy).1, { s with copy := (work.run.run s.copy).2 }) = _
  rw [h]

/-- Registering on the copy is registering, and does not touch what is given. -/
theorem run_registerCopy : ∀ (blocks : List CustomBlock) (s : Catalogs), ∃ copy,
    (blocks.forM fun block => onCopy (Catalog.register (.custom block))).run.run s =
        ((blocks.foldlM Catalog.addCustom s.copy).map fun _ => (), { s with copy }) ∧
      ∀ c', blocks.foldlM Catalog.addCustom s.copy = .ok c' → copy = c'
  | [], s => ⟨s.copy, rfl, fun _ h => Except.ok.inj h⟩
  | block :: rest, s => by
    have hcall := Catalog.run_register_eq s.copy (.custom block)
    rw [List.forM_eq_forM, List.forM_cons, List.foldlM_cons, ExceptT.run_bind, StateT.run_bind]
    cases hadd : s.copy.addCustom block with
    | error f =>
      rw [show s.copy.add (.custom block) = .error f from hadd] at hcall
      rw [run_onCopy hcall]
      exact ⟨s.copy, rfl, nofun⟩
    | ok mid =>
      rw [show s.copy.add (.custom block) = .ok mid from hadd] at hcall
      rw [run_onCopy hcall]
      exact run_registerCopy rest { s with copy := mid }

/-- Loading in place answers what loading answers, and leaves the catalog of the caller alone. -/
theorem run_loading (d : Document) (library : List LibraryFile) (s : Catalogs) : ∃ copy,
    (loading d library).run.run s = (load s.given d library, { s with copy }) := by
  obtain ⟨copy, hrun, hcopy⟩ :=
    run_registerCopy (d.withLibrary library).blocks { s with copy := s.given }
  refine ⟨copy, ?_⟩
  have hsteps : (loading d library).run.run s =
      (((d.withLibrary library).blocks.forM fun block =>
        onCopy (Catalog.register (.custom block))) >>= fun _ =>
        (do analyse (← get).copy (d.withLibrary library) : Loading Program)).run.run
          { s with copy := s.given } := rfl
  rw [hsteps, ExceptT.run_bind, StateT.run_bind, hrun, load]
  cases hadd : (d.withLibrary library).blocks.foldlM Catalog.addCustom s.given with
  | error f => rfl
  | ok c' =>
    cases hcopy c' hadd
    show ((analyse copy (d.withLibrary library) : Except Fault Program) : Loading Program).run.run
      { s with copy } = _
    simp only [bind, Except.bind]
    cases analyse copy (d.withLibrary library) <;> rfl

theorem ne_duplicateKind_of_refusal {f : Fault} (h : Refusal c d f) (id : KindId) :
    f ≠ .duplicateKind id := by
  rintro rfl
  cases h with
  | expansion h => cases h
  | wiring _ h =>
    cases h with
    | stray _ _ _ h => cases h
  | nodes h => cases h

/-- A number is a duplicate because it is one without the library, or because a newcomer shares it
with the catalog. -/
theorem duplicate_of_load {id : KindId} (h : load c d library = .error (.duplicateKind id)) :
    load c d [] = .error (.duplicateKind id) ∨
      (c.find? id).isSome ∧ id ∈ ids (library.map (·.block)) ∧ id ∉ ids d.blocks := by
  have hanalyse : ∀ {c' : Catalog} {d' : Document}, analyse c' d' ≠ .error (.duplicateKind id) :=
    fun {c' d'} hfail => ne_duplicateKind_of_refusal (analyse_fails c' d' _ hfail) id rfl
  rw [load, (d.withLibrary_eq library).1, List.foldlM_append] at h
  cases hdocument : d.blocks.foldlM Catalog.addCustom c with
  | error f =>
    rw [hdocument] at h
    cases h
    refine .inl ?_
    show d.blocks.foldlM Catalog.addCustom c >>= (analyse · d) = _
    rw [hdocument]
    rfl
  | ok c' =>
    simp only [hdocument, bind, Except.bind] at h
    cases hadded : (d.newcomers library).foldlM Catalog.addCustom c' with
    | ok c'' =>
      simp only [hadded] at h
      exact absurd h hanalyse
    | error f =>
      simp only [hadded] at h
      cases h
      obtain ⟨hnodup, hnew⟩ := d.ids_newcomers library
      obtain ⟨htaken, hmem⟩ := Catalog.duplicate_of_addAll hadded hnodup
      obtain ⟨hlibrary, hfree⟩ := hnew id hmem
      exact .inr ⟨((Catalog.isSome_find?_addAll hdocument).mp htaken).resolve_right hfree,
        hlibrary, hfree⟩

/-- Loading a document with a library is analysing the document with the newcomers.  A file whose
number is known makes no difference, a number that only the library brings is a duplicate of none
but the catalog's, and the catalog of the caller stays what it was. -/
theorem load_extended (c : Catalog) (d : Document) (library : List LibraryFile) :
    (load c d library = do
      analyse (← (d.blocks ++ d.newcomers library).foldlM Catalog.addCustom c)
        { d with blocks := d.blocks ++ d.newcomers library }) ∧
    (∀ before file after, library = before ++ file :: after →
      file.block.id ∈ ids (d.blocks ++ before.map (·.block)) →
        load c d library = load c d (before ++ after)) ∧
    (∀ id, load c d library = .error (.duplicateKind id) →
      load c d [] = .error (.duplicateKind id) ∨
      (c.find? id).isSome ∧ id ∈ ids (library.map (·.block)) ∧ id ∉ ids d.blocks) ∧
    ∀ copy, ∃ copy', (loading d library).run.run ⟨c, copy⟩ = (load c d library, ⟨c, copy'⟩) := by
  refine ⟨?_, ?_, fun id => duplicate_of_load, fun copy => run_loading d library ⟨c, copy⟩⟩
  · rw [load, (d.withLibrary_eq library).1]
  · rintro before file after rfl hknown
    rw [load, load, Document.withLibrary_shadowed hknown]

def lone (id : KindId) (graph : GraphId) (kind : KindId) : CustomBlock where
  id := id
  name := "lone"
  footprint := ⟨2, 2⟩
  graph := { id := graph, nodes := [{ pos := ⟨0, 0, 0⟩, kind }] }

def borrowing : Document where
  main :=
    { id := 0, nodes := [{ pos := ⟨0, 0, 0⟩, kind := 1000 }, { pos := ⟨4, 0, 4⟩, kind := 1001 }] }
  blocks := [lone 1000 7 252]

/-- A library with two blocks of one number, and with one of a number that the document has. -/
def rivalry : List LibraryFile :=
  [⟨["a.json"], lone 1001 8 252⟩, ⟨["b.json"], lone 1001 9 256⟩, ⟨["c.json"], lone 1000 10 256⟩]

/-- The same with a block that has the number of a built-in one. -/
def clashing : List LibraryFile := rivalry ++ [⟨["d.json"], lone 36 11 252⟩]

theorem load_extended_borrowing : ∃ c, Catalog.stock = .ok c ∧
    (load c borrowing rivalry).toOption.isSome ∧
    load c borrowing rivalry = load c borrowing (rivalry.take 1) ∧
    load c borrowing clashing = .error (.duplicateKind 36) ∧ (c.find? 36).isSome := by
  have hloads : (Catalog.stock.toOption.any fun c => (load c borrowing rivalry).toOption.isSome ∧
      (load c borrowing clashing).map (fun _ => ()) = .error (.duplicateKind 36) ∧
      (load c borrowing []).map (fun _ => ()) = .error (.unknownKind 1001 ⟨4, 0, 4⟩)) = true := by
    decide +kernel
  obtain ⟨c, hc, hloads⟩ := Outcome.any_toOption.mp hloads
  obtain ⟨hrivalry, hclashing, halone⟩ := of_decide_eq_true hloads
  rw [Outcome.map_eq_error] at hclashing halone
  have hfirst := (load_extended c borrowing rivalry).2.1 (rivalry.take 1)
    ⟨["b.json"], lone 1001 9 256⟩ (rivalry.drop 2) rfl (by decide)
  have hsecond := (load_extended c borrowing _).2.1 (rivalry.take 1)
    ⟨["c.json"], lone 1000 10 256⟩ [] rfl (by decide)
  refine ⟨c, hc, hrivalry, hfirst.trans hsecond, hclashing, ?_⟩
  rcases (load_extended c borrowing clashing).2.2.1 36 hclashing with hclash | ⟨htaken, -⟩
  · exact nomatch halone.symm.trans hclash
  · exact htaken

end Program
end SignalGraph
