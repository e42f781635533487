import SignalGraph.Proofs.Analysis.Expansion.Environments

/-!
# Nesting

How the environments of a document lie in one another: each custom block has one environment, which
holds the graph that the block stands for, and every environment but the first belongs to one block.
-/

namespace SignalGraph

structure Scope.Copies (s : Scope) (g : Graph) : Prop where
  graph : s.environment.graph = g.id
  nodes : s.members.map (·.decl) = g.nodes
  wires : s.connections = g.connections

/-- An environment is a copy of one graph only. -/
theorem Scope.Copies.unique {s : Scope} {g g' : Graph} (h : s.Copies g) (h' : s.Copies g') :
    g = g' := by
  obtain ⟨id, nodes, connections⟩ := g
  obtain ⟨id', nodes', connections'⟩ := g'
  rw [Graph.mk.injEq]
  exact ⟨h.graph.symm.trans h'.graph, h.nodes.symm.trans h'.nodes, h.wires.symm.trans h'.wires⟩

theorem Member.template_of_graph? {m : Member} {g : GraphId} (h : m.graph? = some g) :
    m.block.template = .custom g := by
  unfold Member.graph? at h
  split at h
  · next g' hg' =>
    cases h
    exact hg'
  · exact nomatch h

namespace Expansion

variable {c : Catalog} {d : Document}

theorem map_decl_members {graph : GraphId} {enclosing : List GraphId} :
    ∀ {decls : List NodeDecl} {id : NodeId} {seen : List Pos} {ms : List Member},
      members c d graph enclosing id seen decls = .ok ms →
      ms.map (·.decl) = decls ∧
        ∀ m ∈ ms, ∀ g, m.graph? = some g → (d.graph? g).isSome ∧ g ∉ enclosing
  | [], _, _, ms, h => by
    rw [members] at h
    cases h
    exact ⟨rfl, fun _ hm => (List.not_mem_nil hm).elim⟩
  | decl :: rest, id, seen, ms, h => by
    obtain ⟨block, more, -, -, hknown, hmore, rfl⟩ := members_cons h
    obtain ⟨hdecls, hrest⟩ := map_decl_members hmore
    exact ⟨by rw [List.map_cons, hdecls], List.forall_mem_cons.mpr ⟨hknown, hrest⟩⟩

/-- The environments from `first` on, where the custom blocks of `first` that are not in `done` have
none yet. -/
structure Nested (d : Document) (first : EnvId) (done : List Member) (scopes : List Scope) :
    Prop where
  /-- The custom block that an environment stands for. -/
  up : ∀ {env t}, first < env → scopes[env]? = some t → ∃ parent s m g inner,
    scopes[parent]? = some s ∧ m ∈ s.members ∧ t.environment.parent = some (parent, m.decl.pos) ∧
      m.graph? = some g ∧ d.graph? g = some inner ∧ t.Copies inner ∧
      first ≤ parent ∧ (parent = first → m ∈ done)
  /-- The environment of a custom block. -/
  down : ∀ {env s m g}, first ≤ env → scopes[env]? = some s → m ∈ s.members →
    (env = first → m ∈ done) → m.graph? = some g →
      ∃ child t, first < child ∧ scopes[child]? = some t ∧
        t.environment.parent = some (env, m.decl.pos)
  distinct : ∀ {i j s t}, first < i → first < j → scopes[i]? = some s → scopes[j]? = some t →
    s.environment.parent = t.environment.parent → i = j

structure Grown (d : Document) (graph : Graph) (parent : Option (EnvId × Pos))
    (before after : List Scope) : Prop where
  keeps : before <+: after
  head : ∃ s, after[before.length]? = some s ∧ s.environment.parent = parent ∧ s.Copies graph ∧
    Nested d before.length s.members after

theorem nested_snoc (before : List Scope) (s : Scope) :
    Nested d before.length [] (before ++ [s]) := by
  have hnone : ∀ {env t}, before.length < env → (before ++ [s])[env]? ≠ some t := by
    intro env t henv ht
    have hlt := (List.getElem?_eq_some_iff.mp ht).1
    simp only [List.length_append, List.length_cons, List.length_nil] at hlt
    omega
  refine ⟨fun henv ht => absurd ht (hnone henv), fun henv hs _ hdone _ => ?_,
    fun hi _ hs => absurd hs (hnone hi)⟩
  rcases Nat.lt_or_eq_of_le henv with hlt | heq
  · exact absurd hs (hnone hlt)
  · exact nomatch hdone heq.symm

theorem Nested.skip {first : EnvId} {done : List Member} {scopes : List Scope} {m : Member}
    (h : Nested d first done scopes) (hg : m.graph? = none) :
    Nested d first (done ++ [m]) scopes := by
  refine ⟨fun henv ht => ?_, fun henv hs hm hdone hg' => ?_, h.distinct⟩
  · obtain ⟨parent, s, m', g, inner, hs, hm, hup, hg', hinner, hc, hle, hdone⟩ := h.up henv ht
    exact ⟨parent, s, m', g, inner, hs, hm, hup, hg', hinner, hc, hle,
      fun he => List.mem_append_left _ (hdone he)⟩
  · refine h.down henv hs hm (fun he => ?_) hg'
    rcases List.mem_append.mp (hdone he) with hin | hin
    · exact hin
    · rw [List.mem_singleton.mp hin, hg] at hg'
      exact nomatch hg'

/-- Every environment but the first hangs at a position of an earlier one. -/
theorem Nested.exists_parent {first env : EnvId} {done : List Member} {scopes : List Scope}
    {t : Scope} (h : Nested d first done scopes) (henv : first < env)
    (ht : scopes[env]? = some t) : ∃ parent pos, t.environment.parent = some (parent, pos) ∧
      first ≤ parent ∧ parent < scopes.length ∧
      (parent = first → ∃ m ∈ done, m.decl.pos = pos) := by
  obtain ⟨parent, s, m, -, -, hs, -, hup, -, -, -, hle, hdone⟩ := h.up henv ht
  exact ⟨parent, m.decl.pos, hup, hle, (List.getElem?_eq_some_iff.mp hs).1,
    fun he => ⟨m, hdone he, rfl⟩⟩

section

variable {first : EnvId} {done ms : List Member} {mid more : List Scope} {t : Scope} {pos : Pos}
  (h : Nested d first done mid) (hnested : Nested d mid.length ms (mid ++ more))
  (hfirst : first < mid.length) (ht : (mid ++ more)[mid.length]? = some t)
  (hparent : t.environment.parent = some (first, pos))
  (hfree : ∀ m ∈ done, m.decl.pos ≠ pos)

include hnested hfirst hparent in
/-- What lies below an environment does not hang where the environment does. -/
theorem Nested.root_ne {env : EnvId} {u : Scope} (henv : mid.length < env)
    (hu : (mid ++ more)[env]? = some u) : t.environment.parent ≠ u.environment.parent := by
  intro heq
  obtain ⟨parent, pos', hup, hle, -⟩ := hnested.exists_parent henv hu
  rw [hparent, hup, Option.some.injEq, Prod.mk.injEq] at heq
  exact absurd (heq.1 ▸ hle) (Nat.not_le_of_lt hfirst)

include h hnested ht hparent hfree in
/-- Older environments hang at older ones, and not at the block whose environments are added. -/
theorem Nested.older_ne {i j : EnvId} {u v : Scope} (hi : first < i) (hj : mid.length ≤ j)
    (hu : mid[i]? = some u) (hv : (mid ++ more)[j]? = some v) :
    u.environment.parent ≠ v.environment.parent := by
  intro heq
  obtain ⟨parent, pos', hup, -, hlt, hdone⟩ := h.exists_parent hi hu
  rcases Nat.lt_or_eq_of_le hj with hgt | rfl
  · obtain ⟨parent', pos'', hup', hle, -⟩ := hnested.exists_parent hgt hv
    rw [hup, hup', Option.some.injEq, Prod.mk.injEq] at heq
    exact absurd (heq.1 ▸ hle) (Nat.not_le_of_lt hlt)
  · rw [ht] at hv
    cases hv
    rw [hup, hparent, Option.some.injEq, Prod.mk.injEq] at heq
    obtain ⟨m, hm, hpos⟩ := hdone heq.1
    exact hfree m hm (hpos.trans heq.2)

include h hnested hfirst ht hparent hfree in
theorem Nested.distinct_append {i j : EnvId} {u v : Scope} (hi : first < i) (hj : first < j)
    (hu : (mid ++ more)[i]? = some u) (hv : (mid ++ more)[j]? = some v)
    (heq : u.environment.parent = v.environment.parent) : i = j := by
  have hother {k l : EnvId} {w w' : Scope} (hk : first < k) (hlt : k < mid.length)
      (hl : mid.length ≤ l) (hw : (mid ++ more)[k]? = some w) (hw' : (mid ++ more)[l]? = some w') :
      w.environment.parent ≠ w'.environment.parent := by
    rw [List.getElem?_append_left hlt] at hw
    exact h.older_ne hnested ht hparent hfree hk hl hw hw'
  rcases Nat.lt_trichotomy i mid.length with hil | rfl | hil
  · rcases Nat.lt_or_ge j mid.length with hjl | hjl
    · rw [List.getElem?_append_left hil] at hu
      rw [List.getElem?_append_left hjl] at hv
      exact h.distinct hi hj hu hv heq
    · exact absurd heq (hother hi hil hjl hu hv)
  · rcases Nat.lt_trichotomy j mid.length with hjl | rfl | hjl
    · exact absurd heq.symm (hother hj hjl (Nat.le_refl _) hv hu)
    · rfl
    · rw [ht] at hu
      cases hu
      exact absurd heq (hnested.root_ne hfirst hparent hjl hv)
  · rcases Nat.lt_trichotomy j mid.length with hjl | rfl | hjl
    · exact absurd heq.symm (hother hj hjl (Nat.le_of_lt hil) hv hu)
    · rw [ht] at hv
      cases hv
      exact absurd heq.symm (hnested.root_ne hfirst hparent hil hu)
    · exact hnested.distinct hil hjl hu hv heq

end

/-- The next custom block gets its environments after all that are there. -/
theorem Nested.add {first : EnvId} {done : List Member} {mid after : List Scope} {s : Scope}
    {m : Member} {g : GraphId} {inner : Graph} (h : Nested d first done mid)
    (hs : mid[first]? = some s) (hm : m ∈ s.members) (hg : m.graph? = some g)
    (hinner : d.graph? g = some inner) (hfree : ∀ m' ∈ done, m'.decl.pos ≠ m.decl.pos)
    (hgrown : Grown d inner (some (first, m.decl.pos)) mid after) :
    Nested d first (done ++ [m]) after := by
  obtain ⟨⟨more, rfl⟩, t, ht, hparent, hcopies, hnested⟩ := hgrown
  have hfirst : first < mid.length := (List.getElem?_eq_some_iff.mp hs).1
  have hold : ∀ {env u}, mid[env]? = some u → (mid ++ more)[env]? = some u := fun hu => by
    rw [List.getElem?_append_left (List.getElem?_eq_some_iff.mp hu).1, hu]
  have hget : ∀ {env u}, env < mid.length → (mid ++ more)[env]? = some u → mid[env]? = some u :=
    fun hlt hu => by rwa [List.getElem?_append_left hlt] at hu
  -- every environment is an older one, that of the block, or one below it
  refine ⟨fun {env u} henv hu => ?_, fun {env u m' g'} henv hu hm' hdone hg' => ?_,
    h.distinct_append hnested hfirst ht hparent hfree⟩
  · rcases Nat.lt_trichotomy env mid.length with hlt | rfl | hgt
    · obtain ⟨parent, s', m', g', inner', hs', hm', hup, hg', hinner', hc, hle, hdone⟩ :=
        h.up henv (hget hlt hu)
      exact ⟨parent, s', m', g', inner', hold hs', hm', hup, hg', hinner', hc, hle,
        fun he => List.mem_append_left _ (hdone he)⟩
    · rw [ht] at hu
      cases hu
      exact ⟨first, s, m, g, inner, hold hs, hm, hparent, hg, hinner, hcopies, Nat.le_refl _,
        fun _ => List.mem_append_right _ List.mem_cons_self⟩
    · obtain ⟨parent, s', m', g', inner', hs', hm', hup, hg', hinner', hc, hle, -⟩ :=
        hnested.up hgt hu
      exact ⟨parent, s', m', g', inner', hs', hm', hup, hg', hinner', hc,
        Nat.le_trans (Nat.le_of_lt hfirst) hle,
        fun he => absurd (he ▸ hle) (Nat.not_le_of_lt hfirst)⟩
  · rcases Nat.lt_or_ge env mid.length with hlt | hge
    · by_cases hlast : env = first ∧ m' = m
      · obtain ⟨rfl, rfl⟩ := hlast
        exact ⟨mid.length, t, hfirst, ht, hparent⟩
      · have hdone' : env = first → m' ∈ done := fun he => by
          rcases List.mem_append.mp (hdone he) with hin | hin
          · exact hin
          · exact absurd ⟨he, List.mem_singleton.mp hin⟩ hlast
        obtain ⟨child, v, hchild, hv, hup⟩ := h.down henv (hget hlt hu) hm' hdone' hg'
        exact ⟨child, v, hchild, hold hv, hup⟩
    · have hall : env = mid.length → m' ∈ t.members := fun he => by
        rw [he, ht] at hu
        cases hu
        exact hm'
      obtain ⟨child, v, hchild, hv, hup⟩ := hnested.down hge hu hm' hall hg'
      exact ⟨child, v, Nat.lt_trans hfirst hchild, hv, hup⟩

theorem grown_of_expandGraph : ∀ (depth : Nat) (enclosing : List GraphId) (before : List Scope)
    (graph : Graph) (parent : Option (EnvId × Pos)) (after : List Scope),
    expandGraph c d depth enclosing before graph parent = .ok after →
      Grown d graph parent before after := by
  intro depth
  induction depth with
  | zero => exact fun _ _ _ _ _ h => nomatch h
  | succ depth ih =>
    intro enclosing before graph parent after h
    rw [expandGraph] at h
    obtain ⟨ms, hms, h⟩ := Outcome.bind_eq_ok.mp h
    obtain ⟨-, hnodup, -, -⟩ := members_fit hms
    obtain ⟨hdecls, hknown⟩ := map_decl_members hms
    let copy := before.countP fun s => s.environment.graph = graph.id
    let scope : Scope :=
      { environment := { graph := graph.id, copy, parent }, members := ms,
        connections := graph.connections }
    have hall : (before ++ [scope]) <+: after ∧ Nested d before.length ([] ++ ms) after := by
      refine Outcome.foldlM_induct_done
        (fun done mid => (before ++ [scope]) <+: mid ∧ Nested d before.length done mid) h
        ⟨List.prefix_refl _, nested_snoc before scope⟩ ?_
      rintro done m rest hsplit mid mid' ⟨hkeeps, hnested⟩ hstep
      have hm : m ∈ ms := by
        rw [List.nil_append] at hsplit
        rw [hsplit]
        exact List.mem_append_right _ List.mem_cons_self
      have hscope : mid[before.length]? = some scope := by
        obtain ⟨more, rfl⟩ := hkeeps
        simp
      have hfree : ∀ m' ∈ done, m'.decl.pos ≠ m.decl.pos := by
        rw [List.nil_append] at hsplit
        rw [hsplit, List.map_append, List.map_cons] at hnodup
        exact fun m' hm' => (List.nodup_append.mp hnodup).2.2 _ (List.mem_map_of_mem hm') _
          List.mem_cons_self
      cases hg : m.graph? with
      | none =>
        simp only [hg] at hstep
        cases hstep
        exact ⟨hkeeps, hnested.skip hg⟩
      | some g =>
        obtain ⟨inner, hinner⟩ := Option.isSome_iff_exists.mp (hknown m hm g hg).1
        simp only [hg, Option.bind_eq_bind, Option.bind_some, hinner] at hstep
        have hgrown := ih _ _ _ _ _ hstep
        exact ⟨hkeeps.trans hgrown.keeps, hnested.add hscope hm hg hinner hfree hgrown⟩
    obtain ⟨⟨more, rfl⟩, hnested⟩ := hall
    have hscope : (before ++ [scope] ++ more)[before.length]? = some scope := by simp
    exact ⟨⟨scope :: more, by simp⟩, scope, hscope, rfl, ⟨rfl, hdecls, rfl⟩, hnested⟩

variable {x : Expansion}

/-- The first environment is that of the main graph, and all others hang below it. -/
theorem nested_ofDocument (h : ofDocument c d = .ok x) : ∃ s, x.scopes[0]? = some s ∧
    s.environment.parent = none ∧ s.Copies d.main ∧ Nested d 0 s.members x.scopes := by
  unfold ofDocument at h
  obtain ⟨scopes, hscopes, h⟩ := Outcome.bind_eq_ok.mp h
  cases h
  exact (grown_of_expandGraph _ _ _ _ _ _ hscopes).head

/-- Every environment is a copy of a graph of the document. -/
theorem copies_of_mem (h : ofDocument c d = .ok x) {s : Scope} (hs : s ∈ x.scopes) :
    ∃ g ∈ d.main :: d.blocks.map (·.graph), s.Copies g := by
  obtain ⟨root, hroot, -, hcopies, hnested⟩ := nested_ofDocument h
  obtain ⟨env, hs⟩ := List.getElem?_of_mem hs
  rcases Nat.eq_zero_or_pos env with rfl | hpos
  · cases hroot.symm.trans hs
    exact ⟨d.main, List.mem_cons_self, hcopies⟩
  · obtain ⟨-, -, -, g, inner, -, -, -, -, hinner, hcopies, -⟩ := hnested.up hpos hs
    obtain ⟨b, hb, rfl⟩ := Option.map_eq_some_iff.mp hinner
    refine ⟨b.graph, List.mem_cons_of_mem _ (List.mem_map_of_mem ?_), hcopies⟩
    exact List.mem_reverse.mp (List.mem_of_find?_eq_some hb)

/-- Only one environment stands for a custom block. -/
theorem child_of_parent (h : ofDocument c d = .ok x) {env parent : EnvId} {pos : Pos}
    (hparent : x.parent? env = some (parent, pos)) : x.child? parent pos = some env := by
  obtain ⟨root, hroot, hnone, -, hnested⟩ := nested_ofDocument h
  have hpositive : ∀ {i t}, x.scopes[i]? = some t → t.environment.parent = some (parent, pos) →
      0 < i := by
    intro i t ht hup
    refine Nat.pos_of_ne_zero fun he => ?_
    rw [he, hroot] at ht
    cases ht
    rw [hnone] at hup
    exact nomatch hup
  cases ht : x.scopes[env]? with
  | none => simp [parent?, ht] at hparent
  | some t =>
    simp only [parent?, ht, Option.bind_eq_bind, Option.bind_some] at hparent
    obtain ⟨hlt, hget⟩ := List.getElem?_eq_some_iff.mp ht
    refine List.findIdx?_eq_some_iff_getElem.mpr ⟨hlt, by simp [hget, hparent], fun j hj => ?_⟩
    intro hfound
    have hs := List.getElem?_eq_getElem (Nat.lt_trans hj hlt)
    have hup := of_decide_eq_true hfound
    have heq := hnested.distinct (hpositive hs hup) (hpositive ht hparent) hs ht
      (hup.trans hparent.symm)
    exact absurd heq (Nat.ne_of_lt hj)

/-- An environment with a parent stands for a custom block there. -/
theorem custom_of_parent (h : ofDocument c d = .ok x) {env parent : EnvId} {pos : Pos}
    (hparent : x.parent? env = some (parent, pos)) : ∃ m g inner t, x.member parent pos = .ok m ∧
      m.graph? = some g ∧ d.graph? g = some inner ∧ x.scopes[env]? = some t ∧ t.Copies inner := by
  obtain ⟨root, hroot, hnone, -, hnested⟩ := nested_ofDocument h
  cases ht : x.scopes[env]? with
  | none => simp [parent?, ht] at hparent
  | some t =>
    simp only [parent?, ht, Option.bind_eq_bind, Option.bind_some] at hparent
    have hpositive : 0 < env := Nat.pos_of_ne_zero fun he => by
      rw [he, hroot] at ht
      cases ht
      rw [hnone] at hparent
      exact nomatch hparent
    obtain ⟨_, s, m, g, inner, hs, hm, hup, hg, hinner, hcopies, -⟩ := hnested.up hpositive ht
    rw [hparent] at hup
    cases hup
    exact ⟨m, g, inner, t, member_pos (scopesFit_ofDocument h) hs hm, hg, hinner, rfl, hcopies⟩

/-- A custom block has an environment, which holds the graph it stands for. -/
theorem child_of_custom (h : ofDocument c d = .ok x) {env : EnvId} {s : Scope} {m : Member}
    {g : GraphId} (hs : x.scopes[env]? = some s) (hm : m ∈ s.members) (hg : m.graph? = some g) :
    ∃ inner child t, d.graph? g = some inner ∧ x.child? env m.decl.pos = some child ∧
      x.scopes[child]? = some t ∧ t.Copies inner := by
  obtain ⟨root, hroot, -, -, hnested⟩ := nested_ofDocument h
  have hdone : env = 0 → m ∈ root.members := fun he => by
    rw [he, hroot] at hs
    cases hs
    exact hm
  obtain ⟨child, t, -, ht, hup⟩ := hnested.down (Nat.zero_le env) hs hm hdone hg
  have hparent : x.parent? child = some (env, m.decl.pos) := by
    simp [parent?, ht, hup]
  obtain ⟨m', g', inner, t', hm', hg', hinner, ht', hcopies⟩ := custom_of_parent h hparent
  rw [member_pos (scopesFit_ofDocument h) hs hm] at hm'
  cases hm'
  rw [hg] at hg'
  cases hg'
  exact ⟨inner, child, t', hinner, child_of_parent h hparent, ht', hcopies⟩

end Expansion
end SignalGraph
