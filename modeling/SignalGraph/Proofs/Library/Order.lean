import SignalGraph.Library.Load
import SignalGraph.Proofs.Library.ByteOrder
import SignalGraph.Proofs.Outcome

/-!
# Order of the documents in a library

The search takes the entries of a directory in the order of their names and exhausts one before it
turns to the next.  A name decides about two paths only after the names before it, so the search
comes by the documents in the order of their paths, whatever the names of files and directories have
in common.
-/

namespace SignalGraph

namespace FileTree

variable {t u : FileTree} {entries : List (String × FileTree)} {name : String}

/-- What holds of files and passes from the entries of a directory to the directory holds of all
trees. -/
theorem induct {P : FileTree → Prop} (file : ∀ content, P (.file content))
    (directory : ∀ entries, (∀ name t, (name, t) ∈ entries → P t) → P (.directory entries)) :
    ∀ t, P t
  | .file content => file content
  | .directory entries => directory entries fun _ t _ => induct file directory t
termination_by t => t
decreasing_by
  have := List.sizeOf_lt_of_mem ‹_ ∈ entries›
  simp only [Prod.mk.sizeOf_spec, FileTree.directory.sizeOf_spec] at this ⊢
  omega

/-- No directory in the tree has two entries of one name. -/
def Tidy (t : FileTree) : Prop :=
  ∀ place entries, t.at? place = some (directory entries) → (entries.map (·.1)).Nodup

theorem lookup_eq_some_iff : ∀ {entries : List (String × FileTree)}, (entries.map (·.1)).Nodup →
    (entries.lookup name = some t ↔ (name, t) ∈ entries)
  | [], _ => by simp
  | (other, u) :: rest, h => by
    rw [List.map_cons, List.nodup_cons] at h
    rw [List.lookup_cons, List.mem_cons, Prod.mk.injEq]
    by_cases hname : name = other
    · subst hname
      have hrest : (name, t) ∉ rest := fun hmem => h.1 (List.mem_map.mpr ⟨(name, t), hmem, rfl⟩)
      simp [hrest, eq_comm]
    · rw [beq_eq_false_iff_ne.mpr hname]
      simp [hname, lookup_eq_some_iff h.2]

theorem at?_cons (h : (entries.map (·.1)).Nodup) {rest : Place} :
    (directory entries).at? (name :: rest) = some u ↔ ∃ t, (name, t) ∈ entries ∧
      t.at? rest = some u := by
  simp only [← lookup_eq_some_iff h, at?]
  cases entries.lookup name with
  | none => simp
  | some t => simp

theorem tidy_file (content : ByteArray) : (file content).Tidy := fun place entries h => by
  cases place <;> cases h

theorem tidy_directory : (directory entries).Tidy ↔
    (entries.map (·.1)).Nodup ∧ ∀ e ∈ entries, e.2.Tidy := by
  constructor
  · intro h
    have hnodup := h [] entries rfl
    exact ⟨hnodup, fun (name, t) hmem place inner hat =>
      h (name :: place) inner ((at?_cons hnodup).mpr ⟨t, hmem, hat⟩)⟩
  · rintro ⟨hnodup, hentry⟩ place inner hat
    cases place with
    | nil =>
      cases hat
      exact hnodup
    | cons name rest =>
      obtain ⟨t, hmem, hat⟩ := (at?_cons hnodup).mp hat
      exact hentry (name, t) hmem rest inner hat

theorem Tidy.nodup (h : (directory entries).Tidy) :
    (entries.map (·.1)).Nodup := (tidy_directory.mp h).1

theorem Tidy.entry (h : (directory entries).Tidy) (hmem : (name, t) ∈ entries) : t.Tidy :=
  (tidy_directory.mp h).2 (name, t) hmem

end FileTree

namespace Library

open FileTree

variable {entries : List (String × FileTree)} {t : FileTree} {name : String} {path : List String}
variable {content : ByteArray}

/-- The extension of a name stands after its last point, when something stands before that point. -/
def HasExtension (name extension : String) : Prop :=
  name ≠ ".." ∧ '.' ∉ extension.toList ∧ ∃ stem, stem ≠ "" ∧ name = stem ++ "." ++ extension

theorem isDocument_iff (name : String) : isDocument name = true ↔ HasExtension name "json" := by
  have hpoint : ('.' : Char) ∉ "json".toList := by decide
  have hsuffix : name.endsWith ".json" = true ↔ ∃ stem : String, name = stem ++ "." ++ "json" := by
    rw [String.endsWith_eq_endsWith_toSlice, String.Slice.endsWith_string_iff, String.copy_toSlice]
    constructor
    · rintro ⟨stem, h⟩
      exact ⟨String.ofList stem, String.toList_inj.mp (by simp [← h])⟩
    · rintro ⟨stem, rfl⟩
      exact ⟨stem.toList, by simp⟩
  rw [isDocument, Bool.and_eq_true, hsuffix, decide_eq_true_iff]
  constructor
  · rintro ⟨⟨stem, rfl⟩, hname⟩
    refine ⟨fun h => ?_, hpoint, stem, fun h => hname (by rw [h]; rfl), rfl⟩
    have := congrArg (·.toList.getLast?) h
    simp at this
  · rintro ⟨-, -, stem, hstem, rfl⟩
    refine ⟨⟨stem, rfl⟩, fun h => hstem ?_⟩
    have h : stem.toList ++ ".json".toList = [] ++ ".json".toList := by
      simpa [List.append_assoc] using congrArg String.toList h
    exact String.toList_inj.mp (List.append_cancel_right h)

/-- A file of a tree that belongs to the library in it. -/
def IsDocument (t : FileTree) (path : List String) (content : ByteArray) : Prop :=
  t.at? path = some (.file content) ∧ ∃ name ∈ path.getLast?, HasExtension name "json"

/-- The documents in an entry of a directory, with their paths from there. -/
def found (name : String) : FileTree → List (List String × ByteArray)
  | .file content => if isDocument name then [([], content)] else []
  | .directory entries => documents (.directory entries)

theorem mem_found_file {rest : List String} {content' : ByteArray} :
    (rest, content) ∈ found name (.file content') ↔ isDocument name = true ∧ rest = [] ∧
      content = content' := by
  rw [found]
  split <;> simp [*]

theorem entryDocuments_eq : ∀ entries : List (String × FileTree),
    entryDocuments entries = entries.map fun (name, t) => (name, found name t)
  | [] => by simp [entryDocuments]
  | (name, .file content) :: rest => by simp [entryDocuments, entryDocuments_eq rest, found]
  | (name, .directory inner) :: rest => by simp [entryDocuments, entryDocuments_eq rest, found]

/-- The entries of a directory in the order in which they are searched. -/
def searched (entries : List (String × FileTree)) :
    List (String × List (List String × ByteArray)) :=
  (entryDocuments entries).mergeSort fun a b => decide (a.1 ≤ b.1)

theorem mem_searched {found' : List (List String × ByteArray)} :
    (name, found') ∈ searched entries ↔ ∃ t, (name, t) ∈ entries ∧ found name t = found' := by
  rw [searched, (List.mergeSort_perm _ _).mem_iff, entryDocuments_eq, List.mem_map]
  constructor
  · rintro ⟨⟨name', t⟩, hmem, heq⟩
    cases heq
    exact ⟨t, hmem, rfl⟩
  · rintro ⟨t, hmem, rfl⟩
    exact ⟨(name, t), hmem, rfl⟩

theorem documents_directory (entries : List (String × FileTree)) :
    documents (.directory entries) = (searched entries).flatMap fun (name, found') =>
      found'.map fun (path, content) => (name :: path, content) := by
  rw [documents, searched]

theorem mem_documents_directory : (path, content) ∈ documents (.directory entries) ↔
    ∃ name t rest, (name, t) ∈ entries ∧ (rest, content) ∈ found name t ∧ path = name :: rest := by
  simp only [documents_directory, List.mem_flatMap, List.mem_map]
  constructor
  · rintro ⟨⟨name, found'⟩, hname, ⟨rest, content'⟩, hrest, heq⟩
    cases heq
    obtain ⟨t, ht, rfl⟩ := mem_searched.mp hname
    exact ⟨name, t, rest, ht, hrest, rfl⟩
  · rintro ⟨name, t, rest, ht, hrest, rfl⟩
    exact ⟨(name, found name t), mem_searched.mpr ⟨t, ht, rfl⟩, (rest, content), hrest, rfl⟩

/-- The search finds exactly the documents. -/
theorem mem_documents :
    ∀ (path : List String) {entries : List (String × FileTree)}, (directory entries).Tidy →
    ((path, content) ∈ documents (.directory entries) ↔
      IsDocument (.directory entries) path content)
  | [], entries, _ => by simp [mem_documents_directory, IsDocument]
  | name :: rest, entries, htidy => by
    -- the induction is on the path: its first name leads to an entry, whose documents the rest
    -- finds
    have hentry : ∀ t, (name, t) ∈ entries → ((rest, content) ∈ found name t ↔
        t.at? rest = some (.file content) ∧
        ∃ last ∈ (name :: rest).getLast?, HasExtension last "json") := by
      intro t ht
      cases t with
      | file content' =>
        rw [mem_found_file, isDocument_iff]
        cases rest with
        | nil => simp [at?, and_comm, eq_comm (a := content)]
        | cons next rest => simp [at?]
      | directory inner =>
        rw [found, mem_documents rest (htidy.entry ht), IsDocument]
        cases rest with
        | nil => simp [at?]
        | cons next rest => rw [List.getLast?_cons_cons]
    rw [mem_documents_directory, IsDocument, at?_cons htidy.nodup]
    constructor
    · rintro ⟨name', t, rest', ht, hrest, heq⟩
      cases heq
      exact ⟨⟨t, ht, ((hentry t ht).mp hrest).1⟩, ((hentry t ht).mp hrest).2⟩
    · rintro ⟨⟨t, ht, hat⟩, hname⟩
      exact ⟨name, t, rest, ht, (hentry t ht).mpr ⟨hat, hname⟩, rfl⟩

/-- Distinct names are searched in strictly increasing order. -/
theorem searched_pairwise (h : (entries.map (·.1)).Nodup) :
    (searched entries).Pairwise fun a b => a.1 < b.1 := by
  have hsorted : (searched entries).Pairwise fun a b => a.1 ≤ b.1 := by
    have hchecked : (searched entries).Pairwise fun a b => decide (a.1 ≤ b.1) = true := by
      refine List.pairwise_mergeSort (fun a b c hab hbc => ?_) (fun a b => ?_)
        (entryDocuments entries)
      · exact decide_eq_true (String.le_trans (of_decide_eq_true hab) (of_decide_eq_true hbc))
      · simpa using String.le_total a.1 b.1
    exact hchecked.imp fun h => of_decide_eq_true h
  have hnames : (searched entries).Pairwise fun a b => a.1 ≠ b.1 := by
    have hperm := (List.mergeSort_perm (entryDocuments entries)
      fun a b => decide (a.1 ≤ b.1)).map (·.1)
    refine List.pairwise_map.mp (hperm.nodup_iff.mpr ?_)
    rw [entryDocuments_eq, List.map_map]
    exact h
  exact hsorted.imp₂
    (fun a b hle hne => String.not_le.mp fun hge => hne (String.le_antisymm hle hge)) hnames

theorem documents_pairwise :
    ∀ t : FileTree, t.Tidy → (documents t).Pairwise fun a b => a.1 < b.1 := by
  refine FileTree.induct (fun content _ => by rw [documents]; exact .nil) fun entries ih htidy => ?_
  rw [documents_directory, List.pairwise_flatMap]
  constructor
  · rintro ⟨name, found'⟩ hmem
    obtain ⟨t, ht, rfl⟩ := mem_searched.mp hmem
    have hfound : (found name t).Pairwise fun a b => a.1 < b.1 := by
      cases t with
      | file content => rw [found]; split <;> simp
      | directory inner => exact ih name _ ht (htidy.entry ht)
    exact List.pairwise_map.mpr (hfound.imp fun h => List.cons_lt_cons_self.mpr h)
  · refine (searched_pairwise htidy.nodup).imp fun {a b} hlt x hx y hy => ?_
    obtain ⟨x', -, rfl⟩ := List.mem_map.mp hx
    obtain ⟨y', -, rfl⟩ := List.mem_map.mp hy
    exact List.cons_lt_cons_iff.mpr (.inl hlt)

theorem parseFile_eq_ok {file : LibraryFile} :
    parseFile path content = .ok file ↔ file.path = path ∧
    ∃ text, String.fromUTF8? content = some text ∧ CustomBlock.parse text = .ok file.block := by
  unfold parseFile
  cases String.fromUTF8? content with
  | none => simp
  | some text =>
    simp only [Option.some.injEq, exists_eq_left', Outcome.bind_eq_ok]
    constructor
    · rintro ⟨block, hblock, heq⟩
      cases heq
      exact ⟨rfl, hblock⟩
    · rintro ⟨rfl, hblock⟩
      exact ⟨file.block, hblock, rfl⟩

/-- A document that cannot be read, while all documents before it can. -/
structure FirstFault (t : FileTree) (path : List String) (content : ByteArray)
    (f : Fault) : Prop where
  document : IsDocument t path content
  fault : parseFile path content = .error f
  before : ∀ path' content', IsDocument t path' content' →
    path'.map Text.bytes < path.map Text.bytes →
    ∃ file, parseFile path' content' = .ok file

/-- A library is read completely and in the order of its paths, which are compared name by name and
these by their bytes.  If documents are faulty, the first of them in this order decides.  Names are
texts, so nothing is said of directories with names that are not Unicode. -/
theorem load_exact {entries : List (String × FileTree)} (h : (directory entries).Tidy) :
    ((∀ path content, IsDocument (.directory entries) path content →
        ∃ file, parseFile path content = .ok file) →
      ∃ files, load (some (.directory entries)) = .ok files ∧
        (files.map fun file => file.path.map Text.bytes).Pairwise (· < ·) ∧
        ∀ file, file ∈ files ↔
          ∃ content, IsDocument (.directory entries) file.path content ∧
            parseFile file.path content = .ok file) ∧
    ((∃ path content f, IsDocument (.directory entries) path content ∧
        parseFile path content = .error f) →
      ∃ path content f, FirstFault (.directory entries) path content f ∧
        load (some (.directory entries)) = .error f) := by
  have hmem : ∀ path content, (path, content) ∈ documents (.directory entries) ↔
      IsDocument (.directory entries) path content := fun path content => mem_documents path h
  have hsorted := documents_pairwise _ h
  constructor
  · intro hall
    obtain ⟨files, hfiles⟩ := Outcome.mapM_ok (l := documents (.directory entries))
      (f := fun d => parseFile d.1 d.2) fun d hd => hall d.1 d.2 ((hmem d.1 d.2).mp hd)
    have hpaths : files.map (·.path) = (documents (.directory entries)).map (·.1) :=
      Outcome.map_of_mapM (fun d file hfile => (parseFile_eq_ok.mp hfile).1) hfiles
    refine ⟨files, hfiles, ?_, fun file => ?_⟩
    · have hpairs : (files.map (·.path)).Pairwise (· < ·) := hpaths ▸ List.pairwise_map.mpr hsorted
      exact List.pairwise_map.mpr ((List.pairwise_map.mp hpairs).imp Text.map_bytes_lt_iff.mpr)
    · rw [Outcome.mem_of_mapM hfiles]
      constructor
      · rintro ⟨⟨path, content⟩, hd, hparse⟩
        obtain rfl := (parseFile_eq_ok.mp hparse).1
        exact ⟨content, (hmem _ _).mp hd, hparse⟩
      · rintro ⟨content, hd, hparse⟩
        exact ⟨(file.path, content), (hmem _ _).mpr hd, hparse⟩
  · rintro ⟨path, content, f, hdoc, hfault⟩
    obtain ⟨before, ⟨path, content⟩, after, f, hsplit, hbefore, hfault, hload⟩ :=
      Outcome.mapM_eq_error (f := fun d => parseFile d.1 d.2) ((hmem path content).mpr hdoc) hfault
    refine ⟨path, content, f,
      ⟨(hmem _ _).mp (by simp [hsplit]), hfault, fun path' content' hdoc' hlt => ?_⟩, hload⟩
    rw [hsplit, List.pairwise_append, List.pairwise_cons] at hsorted
    have hdoc' := (hmem path' content').mpr hdoc'
    rw [hsplit, List.mem_append, List.mem_cons] at hdoc'
    have hlt := Text.map_bytes_lt_iff.mp hlt
    -- what comes later in the list is no smaller
    rcases hdoc' with hd | heq | hd
    · exact hbefore _ hd
    · cases heq
      exact absurd hlt (List.lt_irrefl _)
    · exact absurd hlt (List.lt_asymm (hsorted.2.1.1 _ hd))

def blank : String :=
  "\x7b\"id\": 7, \"name\": \"\", \"footprint\": \x7b\"width\": 1, \"depth\": 1\x7d, " ++
    "\"graph\": \x7b\"id\": 1\x7d\x7d"

/-- Names that begin alike, of files and of directories.  By their paths the documents are
`a/z.json`, `a-b.json`, `a.json` and `b.json/c.json`. -/
def rivals (content : ByteArray) : List (String × FileTree) :=
  [("b.json", .directory [("c.json", .file content)]),
   ("a.json", .file blank.toUTF8),
   ("a", .directory [(".json", .file .empty), ("z.json", .file blank.toUTF8)]),
   ("a-b.json", .file blank.toUTF8),
   ("a.jsonl", .file .empty)]

theorem tidy_rivals (content : ByteArray) : (directory (rivals content)).Tidy := by
  simp [rivals, tidy_directory, tidy_file]

theorem content_of_rivals {path : List String} {content : ByteArray}
    (h : IsDocument (directory (rivals blank.toUTF8)) path content) : content = blank.toUTF8 := by
  have hbare : isDocument ".json" = false := by decide +kernel
  have hlonger : isDocument "a.jsonl" = false := by decide +kernel
  obtain ⟨name, t, rest, ht, hrest, -⟩ :=
    mem_documents_directory.mp ((mem_documents path (tidy_rivals _)).mpr h)
  simp only [rivals, List.mem_cons, Prod.mk.injEq, List.not_mem_nil, or_false] at ht
  rcases ht with ⟨rfl, rfl⟩ | ⟨rfl, rfl⟩ | ⟨rfl, rfl⟩ | ⟨rfl, rfl⟩ | ⟨rfl, rfl⟩
  · obtain ⟨name, t, rest', ht, hrest, -⟩ := mem_documents_directory.mp hrest
    simp only [List.mem_cons, Prod.mk.injEq, List.not_mem_nil, or_false] at ht
    obtain ⟨rfl, rfl⟩ := ht
    exact (mem_found_file.mp hrest).2.2
  · exact (mem_found_file.mp hrest).2.2
  · obtain ⟨name, t, rest', ht, hrest, -⟩ := mem_documents_directory.mp hrest
    simp only [List.mem_cons, Prod.mk.injEq, List.not_mem_nil, or_false] at ht
    rcases ht with ⟨rfl, rfl⟩ | ⟨rfl, rfl⟩
    · exact absurd (mem_found_file.mp hrest).1 (by simp [hbare])
    · exact (mem_found_file.mp hrest).2.2
  · exact (mem_found_file.mp hrest).2.2
  · exact absurd (mem_found_file.mp hrest).1 (by simp [hlonger])

theorem load_exact_rivals :
    (∃ files, load (some (.directory (rivals blank.toUTF8))) = .ok files ∧
      (files.map fun file => file.path.map Text.bytes).Pairwise (· < ·)) ∧
    ∃ path content f, FirstFault (.directory (rivals .empty)) path content f ∧
      load (some (.directory (rivals .empty))) = .error f := by
  have hblank : ((String.fromUTF8? blank.toUTF8).bind fun text =>
      (CustomBlock.parse text).toOption).isSome = true := by
    decide +kernel
  constructor
  · obtain ⟨text, htext, block, hparse⟩ : ∃ text, String.fromUTF8? blank.toUTF8 = some text ∧
        ∃ block, CustomBlock.parse text = .ok block := by
      obtain ⟨block, h⟩ := Option.isSome_iff_exists.mp hblank
      obtain ⟨text, htext, hblock⟩ := Option.bind_eq_some_iff.mp h
      exact ⟨text, htext, block, Outcome.toOption_eq_some.mp hblock⟩
    have hall : ∀ path content,
        IsDocument (.directory (rivals blank.toUTF8)) path content →
          ∃ file, parseFile path content = .ok file := fun path content hdoc =>
      ⟨⟨path, block⟩, parseFile_eq_ok.mpr ⟨rfl, text, content_of_rivals hdoc ▸ htext, hparse⟩⟩
    obtain ⟨files, hload, hsorted, -⟩ := (load_exact (tidy_rivals blank.toUTF8)).1 hall
    exact ⟨files, hload, hsorted⟩
  · exact (load_exact (tidy_rivals .empty)).2 ⟨["b.json", "c.json"], .empty, .malformed,
      ⟨rfl, "c.json", rfl, (isDocument_iff _).mp (by decide +kernel)⟩, rfl⟩

end Library
end SignalGraph
