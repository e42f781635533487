import Mathlib.Data.List.Nodup
import SignalGraph.Block.Registration
import SignalGraph.Proofs.Outcome

/-!
# Registered blocks

What a catalog answers after any calls that register blocks.  The calls that succeeded, in order,
tell all: a number stands for the one block that was let in under it, and a kind for the number
under which it was last let in.  A call that fails has written nothing.
-/

namespace SignalGraph

namespace Registration

variable {r : Registration}

theorem id_of_block {b : Block} (h : r.block = .ok b) : b.id = r.id := by
  cases r with
  | builtin id kind =>
    obtain ⟨_, -, h⟩ := Outcome.bind_eq_ok.mp h
    cases h
    rfl
  | custom decl =>
    obtain ⟨_, -, h⟩ := Outcome.bind_eq_ok.mp h
    cases h
    rfl

/-- Nothing but the terminals can keep a block from being made. -/
theorem block_eq_error_iff {f : Fault} : r.block = .error f ↔ r.terminals = .error f := by
  cases r with
  | builtin id kind => exact Outcome.map_eq_error (f := fun _ => _)
  | custom decl => exact Outcome.map_eq_error (f := fun _ => _)

end Registration

namespace Catalog

variable {c c' : Catalog} {r : Registration} {b : Block} {f : Fault}

def extend (c : Catalog) (r : Registration) (b : Block) : Catalog where
  blocks := b :: c.blocks
  numbers := (r.kind?.map (·, r.id)).toList ++ c.numbers

theorem run_enter (c : Catalog) (b : Block) : (enter b).run.run c =
    if (c.find? b.id).isSome then (.error (.duplicateKind b.id), c)
    else (.ok (), { c with blocks := b :: c.blocks }) := by
  show (if (c.find? b.id).isSome then (throw (Fault.duplicateKind b.id) : InPlace Unit)
    else modify fun c => { c with blocks := b :: c.blocks }).run.run c = _
  split <;> rfl

/-- A call fails before it writes, or it writes to both tables. -/
theorem run_register (c : Catalog) (r : Registration) : (register r).run.run c =
    match r.block with
    | .error f => (.error f, c)
    | .ok b =>
      if (c.find? r.id).isSome then (.error (.duplicateKind r.id), c) else (.ok (),
        c.extend r b) := by
  unfold register
  cases hb : r.block with
  | error f => rfl
  | ok b =>
    have henter := run_enter c b
    rw [Registration.id_of_block hb] at henter
    show (ExceptT.run (enter b >>= fun _ => _)).run c = _
    simp only [ExceptT.run_bind, StateT.run_bind]
    rw [henter]
    split
    · rfl
    · cases hk : r.kind? <;> simp [extend, hk] <;> rfl

theorem register_cases (c : Catalog) (r : Registration) :
    (∃ f, (register r).run.run c = (.error f, c) ∧
      (r.block = .error f ∨ (∃ b, r.block = .ok b) ∧
        (c.find? r.id).isSome ∧ f = .duplicateKind r.id)) ∨
    ∃ b, (register r).run.run c = (.ok (), c.extend r b) ∧ r.block = .ok b ∧
      c.find? r.id = none := by
  rw [run_register]
  cases hb : r.block with
  | error f => exact .inl ⟨f, rfl, .inl rfl⟩
  | ok b =>
    cases hfind : c.find? r.id with
    | some b' => exact .inl ⟨_, rfl, .inr ⟨⟨b, rfl⟩, rfl, rfl⟩⟩
    | none => exact .inr ⟨b, rfl, rfl, rfl⟩

/-- A call that returns a new catalog does what the call in place does. -/
theorem run_register_eq (c : Catalog) (r : Registration) : (register r).run.run c =
    match c.add r with
    | .error f => (.error f, c)
    | .ok c' => (.ok (), c') := by
  have hinsert : ∀ {b : Block}, r.block = .ok b → c.insert b = if (c.find? r.id).isSome then
      .error (.duplicateKind r.id) else .ok { c with blocks := b :: c.blocks } := by
    intro b hb
    rw [insert, Registration.id_of_block hb]
    cases c.find? r.id <;> rfl
  have hadd : c.add r = do
      let c ← c.insert (← r.block)
      return { c with numbers := (r.kind?.map (·, r.id)).toList ++ c.numbers } := by
    cases r with
    | builtin id kind => rfl
    | custom decl =>
      show Block.ofCustom decl >>= c.insert = _
      cases hb : Block.ofCustom decl with
      | error f => simp [Registration.block, hb, bind, Except.bind]
      | ok b =>
        simp only [Registration.block, hb, bind, Except.bind]
        cases c.insert b <;> rfl
  rw [run_register, hadd]
  cases hb : r.block with
  | error f => rfl
  | ok b =>
    simp only [bind, Except.bind, hinsert hb]
    cases (c.find? r.id).isSome <;> rfl

def accepted (rs : List Registration) (answers : List (Except Fault Unit)) : List Registration :=
  (rs.zip answers).filterMap fun (r, answer) => if answer.toBool then some r else none

/-- What a catalog answers after the successful calls `done`. -/
structure Registry (done : List Registration) (c : Catalog) : Prop where
  known : ∀ r ∈ done, ∃ b, r.block = .ok b ∧ c.find? r.id = some b
  found : ∀ {id b}, c.find? id = some b → ∃ r ∈ done, r.id = id
  /-- No number was let in twice. -/
  once : (done.map (·.id)).Nodup
  size : c.size = done.length
  isEmpty : c.isEmpty = done.isEmpty
  /-- A kind has the number under which it was last let in. -/
  number : ∀ kind, c.numberOf? kind = ((done.filter (·.kind? = some kind)).getLast?).map (·.id)

variable {done : List Registration}

theorem registry_empty : Registry [] empty :=
  ⟨nofun, nofun, List.nodup_nil, rfl, rfl, fun _ => rfl⟩

theorem find?_extend (hb : r.block = .ok b) (id : KindId) :
    (c.extend r b).find? id = if r.id = id then some b else c.find? id := by
  rw [find?, extend, List.find?_cons, Registration.id_of_block hb]
  by_cases h : r.id = id
  · simp [h]
  · simp only [h, decide_false, if_false]
    rfl

theorem numberOf?_extend (kind : Kind) :
    (c.extend r b).numberOf? kind =
      if r.kind? = some kind then some r.id else c.numberOf? kind := by
  rw [numberOf?, extend]
  cases hk : r.kind? with
  | none => simp [numberOf?]
  | some k =>
    by_cases h : k = kind
    · simp [h]
    · have hne : (kind == k) = false := beq_eq_false_iff_ne.mpr (Ne.symm h)
      simp [h, List.lookup_cons, hne, numberOf?]

/-- A block is let in under a number that is free. -/
theorem Registry.extend (h : Registry done c) (hb : r.block = .ok b) (hfree : c.find? r.id = none) :
    Registry (done ++ [r]) (c.extend r b) := by
  have hnew : ∀ r' ∈ done, r.id ≠ r'.id := by
    intro r' hr' hid
    obtain ⟨b', -, hfind⟩ := h.known r' hr'
    rw [← hid, hfree] at hfind
    exact nomatch hfind
  refine ⟨fun r' hr' => ?_, fun {id b'} hfind => ?_, ?_, ?_, ?_, fun kind => ?_⟩
  · rw [find?_extend hb]
    rcases List.mem_append.mp hr' with hr' | hr'
    · rw [if_neg (hnew r' hr')]
      exact h.known r' hr'
    · rw [List.mem_singleton.mp hr', if_pos rfl]
      exact ⟨b, hb, rfl⟩
  · rw [find?_extend hb] at hfind
    split at hfind
    · next hid => exact ⟨r, List.mem_append_right _ List.mem_cons_self, hid⟩
    · obtain ⟨r', hr', hid⟩ := h.found hfind
      exact ⟨r', List.mem_append_left _ hr', hid⟩
  · rw [List.map_append]
    refine List.nodup_append.mpr ⟨h.once, List.nodup_singleton _, fun id hid id' hid' heq => ?_⟩
    obtain ⟨r', hr', rfl⟩ := List.mem_map.mp hid
    exact hnew r' hr' (heq.trans (List.mem_singleton.mp hid')).symm
  · rw [List.length_append]
    exact congrArg (· + 1) h.size
  · simp [Catalog.isEmpty, Catalog.extend]
  · rw [numberOf?_extend, List.filter_append, h.number]
    by_cases hk : r.kind? = some kind
    · simp [hk]
    · simp [hk]

theorem run_registerAll_cons (c : Catalog) (r : Registration) (rest : List Registration) :
    (registerAll (r :: rest)).run c =
      let (answer, next) := (register r).run.run c
      let (answers, last) := (registerAll rest).run next
      (answer :: answers, last) := by
  rw [registerAll, List.mapM_cons]
  rfl

theorem registry_registerAll : ∀ {rs done : List Registration} {c c' : Catalog}
    {answers : List (Except Fault Unit)}, Registry done c → (registerAll rs).run c = (answers, c') →
      answers.length = rs.length ∧ Registry (done ++ accepted rs answers) c'
  | [], done, c, c', answers, h, hrun => by
    cases hrun
    exact ⟨rfl, by rwa [accepted, List.zip_nil_left, List.filterMap_nil, List.append_nil]⟩
  | r :: rest, done, c, c', answers, h, hrun => by
    rw [run_registerAll_cons] at hrun
    rcases register_cases c r with ⟨f, hcall, -⟩ | ⟨b, hcall, hb, hfree⟩
    · rw [hcall] at hrun
      cases hrun
      obtain ⟨hlen, hlast⟩ := registry_registerAll h rfl
      exact ⟨congrArg (· + 1) hlen, hlast⟩
    · rw [hcall] at hrun
      cases hrun
      obtain ⟨hlen, hlast⟩ := registry_registerAll (h.extend hb hfree) rfl
      refine ⟨congrArg (· + 1) hlen, ?_⟩
      rw [List.append_assoc] at hlast
      exact hlast

theorem registry_stock (h : stock = .ok c) : Registry Stock.registrations c := by
  refine Outcome.foldlM_induct_all
    (fun done c => Registry (done.map fun entry => .builtin entry.1 entry.2) c) h registry_empty
    fun before entry after hsplit c c' hc hadd => ?_
  obtain ⟨id, kind⟩ := entry
  have hrun := run_register_eq c (.builtin id kind)
  rw [show c.add (.builtin id kind) = .ok c' from hadd] at hrun
  rcases register_cases c (.builtin id kind) with ⟨f, hcall, -⟩ | ⟨b, hcall, hb, hfree⟩
  · exact nomatch hcall.symm.trans hrun
  · cases hcall.symm.trans hrun
    rw [List.map_append]
    exact hc.extend hb hfree

/-- The catalogs to begin with, and the calls that have been made on them. -/
inductive Initial : List Registration → Catalog → Prop
  | empty : Initial [] empty
  | stock {c : Catalog} : Catalog.stock = .ok c → Initial Stock.registrations c

theorem Initial.registry {start : List Registration} (h : Initial start c) : Registry start c := by
  cases h with
  | empty => exact registry_empty
  | stock h => exact registry_stock h

/-- The number of a kind leads to a block of that kind. -/
theorem Registry.block_of_number (h : Registry done c) {kind : Kind} {id : KindId}
    (hnumber : c.numberOf? kind = some id) :
    ∃ b, c.find? id = some b ∧ Block.ofKind id kind = .ok b := by
  rw [h.number, Option.map_eq_some_iff] at hnumber
  obtain ⟨r, hlast, rfl⟩ := hnumber
  obtain ⟨hr, hkind⟩ := List.mem_filter.mp (List.mem_of_getLast? hlast)
  obtain ⟨b, hb, hfind⟩ := h.known r hr
  refine ⟨b, hfind, ?_⟩
  cases r with
  | builtin id kind' =>
    cases of_decide_eq_true hkind
    exact hb
  | custom decl => exact nomatch of_decide_eq_true hkind

theorem register_fails_iff : (∃ f c', (register r).run.run c = (.error f, c')) ↔
    (∃ f, r.terminals = .error f) ∨ (c.find? r.id).isSome := by
  rw [show (∃ f, r.terminals = .error f) ↔ ∃ f, r.block = .error f from
    exists_congr fun _ => Registration.block_eq_error_iff.symm]
  rcases register_cases c r with ⟨f, hcall, hwhy⟩ | ⟨b, hcall, hb, hfree⟩
  · refine ⟨fun _ => ?_, fun _ => ⟨f, c, hcall⟩⟩
    rcases hwhy with hb | ⟨-, htaken, -⟩
    · exact .inl ⟨f, hb⟩
    · exact .inr htaken
  · refine ⟨(fun ⟨_, _, hfail⟩ => nomatch hcall.symm.trans hfail), fun hwhy => ?_⟩
    rcases hwhy with ⟨f, hf⟩ | htaken
    · exact nomatch hb.symm.trans hf
    · exact nomatch hfree ▸ htaken

/-- After any calls on one of the first catalogs, it answers what the successful calls say.  The
next call fails if its terminals cannot be placed or its number is taken, and not otherwise, and a
failure leaves the catalog as it was. -/
theorem registry_exact {start : List Registration} {base : Catalog} (hbase : Initial start base)
    (rs : List Registration) : ∃ answers c, (registerAll rs).run base = (answers, c) ∧
      answers.length = rs.length ∧ Registry (start ++ accepted rs answers) c ∧
      (∀ kind id, c.numberOf? kind = some id →
        ∃ b, c.find? id = some b ∧ Block.ofKind id kind = .ok b) ∧
      ∀ r, ((∃ f c', (register r).run.run c = (.error f, c')) ↔
          (∃ f, r.terminals = .error f) ∨ (c.find? r.id).isSome) ∧
        (∀ f c', (register r).run.run c = (.error f, c') → c' = c) ∧
        (register r).run.run c = match c.add r with
          | .error f => (.error f, c)
          | .ok c' => (.ok (), c') := by
  obtain ⟨hlen, hregistry⟩ :=
    registry_registerAll hbase.registry (show (registerAll rs).run base = _ from rfl)
  refine ⟨_, _, rfl, hlen, hregistry, fun _ _ => hregistry.block_of_number, fun r =>
    ⟨register_fails_iff, fun f c' hfail => ?_, run_register_eq _ r⟩⟩
  rcases register_cases ((registerAll rs).run base).2 r with ⟨f', hcall, -⟩ | ⟨b, hcall, -, -⟩
  · cases hcall.symm.trans hfail
    rfl
  · exact nomatch hcall.symm.trans hfail

/-- A number that is taken, a new one for the same kind, that one again, and terminals without
room. -/
def rivals : List Registration :=
  [.builtin 36 (.expression (.literal .number)), .builtin 5000 (.expression (.literal .number)),
    .custom { id := 5000, name := "late", footprint := ⟨1, 1⟩, graph := { id := 7 } },
    .custom { id := 5001, name := "crowded", footprint := ⟨1, 1⟩, graph := { id := 8 }
              terminals := [{ type := .void, dir := .input }, { type := .void, dir := .input }] }]

theorem registry_exact_rivals : ∃ base answers c, Initial Stock.registrations base ∧
    (registerAll rivals).run base = (answers, c) ∧
    answers = [.error (.duplicateKind 36), .ok (), .error (.duplicateKind 5000),
      .error (.layout "crowded" "2 input terminals do not fit a depth of 1")] ∧
    Registry (Stock.registrations ++ [.builtin 5000 (.expression (.literal .number))]) c ∧
    c.numberOf? (.expression (.literal .number)) = some 5000 := by
  have hanswers : (stock.toOption.any fun base => ((registerAll rivals).run base).1 =
      [.error (.duplicateKind 36), .ok (), .error (.duplicateKind 5000),
        .error (.layout "crowded" "2 input terminals do not fit a depth of 1")]) = true := by
    decide +kernel
  obtain ⟨base, hbase, hanswers⟩ := Outcome.any_toOption.mp hanswers
  have hinitial := Initial.stock hbase
  obtain ⟨answers, c, hrun, -, hregistry, -⟩ := registry_exact hinitial rivals
  rw [hrun] at hanswers
  cases of_decide_eq_true hanswers
  refine ⟨base, _, c, hinitial, hrun, rfl, hregistry, (hregistry.number _).trans ?_⟩
  rw [List.filter_append, List.getLast?_append]
  rfl

end Catalog
end SignalGraph
