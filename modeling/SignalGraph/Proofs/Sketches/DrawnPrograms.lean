import SignalGraph.Proofs.Analysis.Faults
import SignalGraph.Proofs.Analysis.Realized
import SignalGraph.Proofs.Sketches.Drawings

/-!
# Programs of sketches

What analysis makes of a sketch.  It finds nodes and terminals by the positions that the sketch has
written down, in every environment anew, and it finds what was named.
-/

namespace SignalGraph

/-- A number of a built-in block that does something leads to that block. -/
theorem Catalog.find?_of_kind? {c : Catalog} (hstock : Catalog.stock = .ok c)
    {id : KindId} {k : Kind}
    (hk : Stock.kind? id = some k) (hcomment : k ≠ .comment) :
    ∃ b, c.find? id = some b ∧ b.id = id ∧ b.template = .builtin k := by
  have hall : Catalog.stock.toOption.any (fun c => Stock.all.all fun entry => entry.2 = .comment ||
      (c.find? entry.1).any fun b => b.id = entry.1 && b.template = .builtin entry.2) = true := by
    decide +kernel
  obtain ⟨c', hc', hall⟩ := Outcome.any_toOption.mp hall
  cases hstock.symm.trans hc'
  have hmem : (id, k) ∈ Stock.all := by
    obtain ⟨before, after, heq, -⟩ := List.lookup_eq_some_iff.mp hk
    rw [heq]
    exact List.mem_append_right _ List.mem_cons_self
  have hentry := List.all_eq_true.mp hall _ hmem
  simp only [hcomment, decide_false, Bool.false_or] at hentry
  obtain ⟨b, hb, hentry⟩ := (Option.any_eq_true _ _).mp hentry
  simp only [Bool.and_eq_true, decide_eq_true_eq] at hentry
  exact ⟨b, hb, hentry⟩

namespace Sketch

open Expansion (ScopesFit)

variable {c : Catalog} {s : Sketch} {j : Journal} {x : Expansion} {env : EnvId}

/-- The positions of a node and of a terminal lead, in an environment, to the end that is named. -/
inductive Tip.Resolves (x : Expansion) (env : EnvId) (near far : Direction) : Tip → Pos → Pos → Prop
  | node {index : Nat} {name : String} {terminal : Pos} {u : Scope} {m : Member} {t : Terminal} :
    x.scopes[env]? = some u → u.members[index]? = some m → x.owner env (spot index) = .ok m.block →
      named m.block.terminals near name = some t → m.block.terminalAt terminal = some t →
        Resolves x env near far (.node index name) (spot index) terminal
  | outside {name : String} {terminal : Pos} {b : Block} {t : Terminal} :
      x.owner env .outside = .ok b →
    named b.terminals far name = some t → b.terminalAt terminal = some t →
      Resolves x env near far (.outside name) .outside terminal

structure Link.Resolves (x : Expansion) (env : EnvId) (l : Link) (w : Connection) : Prop where
  source : l.source.Resolves x env .output .input w.source w.sourceTerminal
  target : l.target.Resolves x env .input .output w.target w.targetTerminal

theorem mem_of_named {ts : List Terminal} {dir : Direction} {name : String} {t : Terminal}
    (h : named ts dir name = some t) : t ∈ ts ∧ t.text = name ∧ t.dir = dir :=
  ⟨List.mem_of_find?_eq_some h, by simpa using List.find?_some h⟩

/-- Where the end of a wire leads there is a terminal of the right direction. -/
theorem Tip.Resolves.exists_terminal {tip : Tip} {near far : Direction} {node terminal : Pos}
    (h : tip.Resolves x env near far node terminal) : ∃ b t, x.owner env node = .ok b ∧
      b.terminalAt terminal = some t ∧ t.dir = if node = .outside then far else near := by
  cases h with
  | node _ _ howner hnamed ht =>
    exact ⟨_, _, howner, ht, by rw [if_neg (spot_ne_outside _), (mem_of_named hnamed).2.2]⟩
  | outside howner hnamed ht =>
    exact ⟨_, _, howner, ht, by rw [if_pos rfl, (mem_of_named hnamed).2.2]⟩

theorem Link.Resolves.attached {l : Link} {w : Connection} (h : l.Resolves x env w) :
    Wiring.Attached x env w := by
  obtain ⟨b, t, howner, ht, hdir⟩ := h.source.exists_terminal
  obtain ⟨b', t', howner', ht', hdir'⟩ := h.target.exists_terminal
  exact ⟨⟨t, b, howner, ht, hdir⟩, t', b', howner', ht', hdir'⟩

/-- In an environment that copies a faithful graph, wires lead where they are drawn. -/
theorem Faithful.resolves {g : Graph} {boundary : List Terminal} {links : List Link} {u : Scope}
    (h : Faithful c g boundary links) (hc : c.Made) (hfit : ScopesFit c x.scopes)
    (hu : x.scopes[env]? = some u)
    (hcopies : u.Copies g)
    (houtside : boundary ≠ [] → ∃ b, x.owner env .outside = .ok b ∧ b.Placed ∧
      b.terminals = boundary) :
    List.Forall₂ (Link.Resolves x env) links u.connections := by
  have htip : ∀ {tip : Tip} {near far : Direction} {node terminal : Pos},
      tip.Marks c (g.nodes.map (·.kind)) boundary near far node terminal →
        tip.Resolves x env near far node terminal := by
    intro tip near far node terminal hmarks
    cases hmarks with
    | @node index name kind b t hkind hfind hnamed =>
      rw [List.getElem?_map, Option.map_eq_some_iff] at hkind
      obtain ⟨n, hn, rfl⟩ := hkind
      have hpos := h.pos_of_getElem? hn
      rw [← hcopies.nodes, List.getElem?_map, Option.map_eq_some_iff] at hn
      obtain ⟨m, hm, rfl⟩ := hn
      have hmem := List.mem_of_getElem? hm
      obtain rfl : m.block = b := Option.some.inj (((hfit env u hu).block m hmem).symm.trans hfind)
      have howner := Expansion.owner_of_member (hpos ▸ spot_ne_outside index)
        (Expansion.member_pos hfit hu hmem)
      have hplaced := (hc.placed _ (List.mem_of_find?_eq_some hfind)).1
      exact .node hu hm (hpos ▸ howner) hnamed
        (Block.terminalAt_pos hplaced (mem_of_named hnamed).1)
    | outside hnamed =>
      obtain ⟨b, howner, hplaced, rfl⟩ := houtside (List.ne_nil_of_mem (mem_of_named hnamed).1)
      exact .outside howner hnamed (Block.terminalAt_pos hplaced (mem_of_named hnamed).1)
  rw [hcopies.wires]
  exact h.wires.imp fun _ _ hw => ⟨htip hw.source, htip hw.target⟩

/-- Every environment but the first is the inside of a custom block that was placed. -/
theorem Sound.exists_part (h : Sound c s j) (hdistinct : j.Distinct)
    (hc : ∀ b ∈ c.blocks, ∀ g, b.template ≠ .custom g)
    (hx : Expansion.ofDocument s.catalog s.document = .ok x) {u : Scope}
    (hu : x.scopes[env]? = some u)
    (hinner : env ≠ 0) : ∃ p ∈ j.parts, u.Copies p.block.graph ∧
      ∃ b, x.owner env .outside = .ok b ∧ Block.ofCustom p.block = .ok b := by
  obtain ⟨root, hroot, -, -, hnested⟩ := Expansion.nested_ofDocument hx
  obtain ⟨parent, up, m, g, inner, hup, hm, hparent, hg, hgraph, hcopies, -⟩ :=
    hnested.up (Nat.pos_of_ne_zero hinner) hu
  have hfit := Expansion.scopesFit_ofDocument hx
  have howner : x.owner env .outside = .ok m.block := by
    have hlink : x.parent? env = some (parent, m.decl.pos) := by
      simp [Expansion.parent?, hu, hparent]
    unfold Expansion.owner
    simp only [if_true, hlink, Expansion.member_pos hfit hup hm]
    rfl
  -- the block is found by its kind, and its graph by its number: both belong to one declaration
  have htemplate := Member.template_of_graph? hg
  rcases (Catalog.find?_addAll h.registered).mp
    ((hfit parent up hup).block m hm) with hstock | ⟨decl, hdecl, -, hb⟩
  · exact absurd htemplate (hc _ (List.mem_of_find?_eq_some hstock) g)
  · obtain ⟨p, hp, rfl⟩ := h.known decl hdecl
    obtain ⟨decl', hdecl', rfl⟩ := Option.map_eq_some_iff.mp hgraph
    obtain ⟨q, hq, rfl⟩ := h.known decl' (List.mem_reverse.mp (List.mem_of_find?_eq_some hdecl'))
    have hid : q.block.graph.id = g := by simpa using List.find?_some hdecl'
    rw [(Block.placed_of_ofCustom hb).2, Template.custom.injEq] at htemplate
    rw [hdistinct q hq p hp (.inr (hid.trans htemplate.symm))] at hcopies
    exact ⟨p, hp, hcopies, m.block, howner, hb⟩

theorem terminals_of_ofCustom {decl : CustomBlock} {b : Block} (h : Block.ofCustom decl = .ok b) :
    b.terminals = boundaryOf decl := by
  obtain ⟨ts, hts, h⟩ := Outcome.bind_eq_ok.mp h
  cases h
  exact (Layout.ok_iff.mp hts).2

/-- No graph of a sketch has two nodes in one place. -/
theorem Sound.nodup (h : Sound c s j) {g : Graph} (hg : g ∈ s.graph :: s.blocks.map (·.graph)) :
    (g.nodes.map (·.pos)).Nodup := by
  rcases List.mem_cons.mp hg with rfl | hg
  · exact h.graph.nodup
  · obtain ⟨b, hb, rfl⟩ := List.mem_map.mp hg
    obtain ⟨p, hp, rfl⟩ := h.known b hb
    exact (h.parts p hp).nodup

section Resolved

variable (h : Sound c s j) (hdistinct : j.Distinct) (hstock : Catalog.stock = .ok c)
include h hstock

theorem Sound.stocked : s.catalog.Stocked :=
  Outcome.foldlM_induct Catalog.Stocked h.registered (.stock hstock)
    fun _ _ _ _ hc hadd => .custom hc hadd

theorem Sound.resolves_main (hmain : s.outline = none)
    (hx : Expansion.ofDocument s.catalog s.document = .ok x)
    {u : Scope} (hu : x.scopes[0]? = some u) :
    List.Forall₂ (Link.Resolves x 0) j.links u.connections := by
  obtain ⟨root, hroot, -, hcopies, -⟩ := Expansion.nested_ofDocument hx
  cases hroot.symm.trans hu
  refine h.graph.resolves (h.stocked hstock).made (Expansion.scopesFit_ofDocument hx) hu hcopies
    fun hne => ?_
  rw [h.boundary, hmain] at hne
  exact absurd rfl hne

include hdistinct

/-- The wires of a block that was placed, in each of its environments. -/
theorem Sound.resolves_part (hx : Expansion.ofDocument s.catalog s.document = .ok x) {u : Scope}
    (hu : x.scopes[env]? = some u) (hinner : env ≠ 0) {p : Part} (hp : p ∈ j.parts)
    (hid : u.environment.graph = p.block.graph.id) :
    List.Forall₂ (Link.Resolves x env) p.links u.connections := by
  obtain ⟨q, hq, hcopies, b, howner, hb⟩ :=
    h.exists_part hdistinct (Catalog.template_of_stock hstock) hx hu hinner
  have heq : q.block = p.block := hdistinct q hq p hp (.inr (hcopies.graph.symm.trans hid))
  rw [heq] at hcopies hb
  exact (h.parts p hp).resolves (h.stocked hstock).made
    (Expansion.scopesFit_ofDocument hx) hu hcopies
    fun _ => ⟨b, howner, (Block.placed_of_ofCustom hb).1, terminals_of_ofCustom hb⟩

theorem Sound.attached (hmain : s.outline = none)
    (hx : Expansion.ofDocument s.catalog s.document = .ok x)
    {u : Scope} (hu : x.scopes[env]? = some u) {w : Connection} (hw : w ∈ u.connections) :
    Wiring.Attached x env w := by
  have hall : ∃ links, List.Forall₂ (Link.Resolves x env) links u.connections := by
    by_cases hinner : env = 0
    · subst hinner
      exact ⟨_, h.resolves_main hstock hmain hx hu⟩
    · obtain ⟨p, hp, hcopies, -⟩ :=
        h.exists_part hdistinct (Catalog.template_of_stock hstock) hx hu hinner
      exact ⟨_, h.resolves_part hdistinct hstock hx hu hinner hp hcopies.graph⟩
  obtain ⟨links, hall⟩ := hall
  obtain ⟨i, hi, rfl⟩ := List.mem_iff_getElem.mp hw
  exact ((List.forall₂_iff_get.mp hall).2 i (hall.length_eq ▸ hi) hi).attached

/-- No fault of a sketch is about where its nodes and wires are. -/
theorem Sound.refusal (hmain : s.outline = none) {f : Fault}
    (hf : Program.Refusal s.catalog s.document f) :
    ¬Wiring.Stray f ∧
      (∀ g, f ≠ .unknownGraph g) ∧ ∀ pos g, f ≠ .breach (.sharedPosition pos g) := by
  cases hf with
  | wiring hx hf =>
    cases hf with
    | stray hu hw hloose => exact absurd (h.attached hdistinct hstock hmain hx hu hw) hloose
    | typeMismatch => exact ⟨nofun, nofun, nofun⟩
    | multipleDrivers => exact ⟨nofun, nofun, nofun⟩
  | nodes hf => cases hf <;> exact ⟨nofun, nofun, nofun⟩
  | expansion hf =>
    cases hf with
    | unknownKind => exact ⟨nofun, nofun, nofun⟩
    | selfInstance => exact ⟨nofun, nofun, nofun⟩
    | sharedPosition _ hg hshared => exact absurd (h.nodup hg) hshared
    | @unknownGraph b g hb htemplate hnone =>
      rcases Catalog.mem_blocks_addAll h.registered hb with hb | ⟨decl, hdecl, hb⟩
      · exact absurd htemplate (Catalog.template_of_stock hstock b hb g)
      · rw [(Block.placed_of_ofCustom hb).2, Template.custom.injEq] at htemplate
        have hfound := List.find?_eq_none.mp (Option.map_eq_none_iff.mp hnone) decl
          (List.mem_reverse.mpr hdecl)
        exact absurd (decide_eq_true htemplate) hfound

end Resolved

theorem getElem?_filter_of_le {α : Type} {p : α → Bool} {l : List α} {i : Nat} {a : α}
    (ha : l[i]? = some a)
    (hp : ∀ i' ≤ i, ∀ a, l[i']? = some a → p a) : (l.filter p)[i]? = some a := by
  have hcount : (l.take i).countP p = i := by
    rw [List.countP_eq_length.mpr fun b hb => ?_, List.length_take]
    · exact Nat.min_eq_left (Nat.le_of_lt (List.getElem?_eq_some_iff.mp ha).1)
    · obtain ⟨i', hi', hb⟩ := List.mem_take_iff_getElem.mp hb
      exact hp i' (by omega) b (List.getElem?_eq_some_iff.mpr ⟨by omega, hb⟩)
  have hget := Block.getElem?_filter_countP ha (hp i (Nat.le_refl i) a ha)
  rwa [hcount] at hget

/-- As long as only built-in blocks that do something are placed, a node has the number that the
call answered. -/
theorem Sound.node_of_placed (h : Sound c s j) (hstock : Catalog.stock = .ok c) {p : Program}
    (hp : s.analyse = .ok p) {index : Nat} {id : KindId} (hplaced : (index, id) ∈ j.placed)
    (hbuiltin : ∀ e ∈ j.placed, e.1 ≤ index → ∃ k, Stock.kind? e.2 = some k ∧ k ≠ .comment) :
    ∃ decl n, s.graph.nodes[index]? = some decl ∧ decl.kind = id ∧
      p.nodes[index]? = some n ∧ n.env = 0 ∧
      n.pos = decl.pos ∧ Stock.kind? id = some n.kind := by
  obtain ⟨x, hx, hrealizes⟩ := Program.realizes_of_analyse (h.stocked hstock) hp
  obtain ⟨root, hroot, -, hcopies, -⟩ := Expansion.nested_ofDocument hx
  have hfit := Expansion.scopesFit_ofDocument hx
  have hentry : ∀ {i : Nat} {kind : KindId},
      (i, kind) ∈ j.placed ↔ ∃ m, root.members[i]? = some m ∧ m.decl.kind = kind := by
    intro i kind
    rw [h.placed, show s.graph.nodes = _ from hcopies.nodes.symm]
    simp [List.mem_zipIdx_iff_getElem?]
  have htemplate : ∀ i ≤ index, ∀ m, root.members[i]? = some m →
    ∃ k, Stock.kind? m.decl.kind = some k ∧
      m.block.template = .builtin k := by
    intro i hi m hm
    obtain ⟨k, hk, hcomment⟩ := hbuiltin (i, m.decl.kind) (hentry.mpr ⟨m, hm, rfl⟩) hi
    obtain ⟨b, hb, -, htemplate⟩ := Catalog.find?_of_kind? hstock hk hcomment
    have hfind := (Catalog.find?_addAll h.registered).mpr (.inl hb)
    cases ((hfit 0 root hroot).block m (List.mem_of_getElem? hm)).symm.trans hfind
    exact ⟨k, hk, htemplate⟩
  have hkinds : ∀ i ≤ index, ∀ m, root.members[i]? = some m → m.isBuiltin = true := by
    intro i hi m hm
    obtain ⟨k, -, htemplate⟩ := htemplate i hi m hm
    simp [Member.isBuiltin, Member.kind?, htemplate]
  obtain ⟨m, hm, rfl⟩ := hentry.mp hplaced
  have hnumber : m.id = index := by
    have hid := Expansion.id_of_numbered (hfit 0 root hroot).numbered
      (getElem?_filter_of_le hm hkinds)
    simpa [Expansion.builtinCount] using hid
  have hinstance :=
    Expansion.instances_id hfit hroot (List.mem_of_getElem? hm) (hkinds index (Nat.le_refl _) m hm)
  rw [hnumber] at hinstance
  obtain ⟨n, hn, hnode⟩ := hrealizes.nodes index 0 m hinstance
  obtain ⟨k, hk, hkind⟩ := htemplate index (Nat.le_refl _) m hm
  refine ⟨m.decl, n, ?_, rfl, hn, hnode.place.1, hnode.place.2, ?_⟩
  · rw [show s.graph.nodes = _ from hcopies.nodes.symm, List.getElem?_map, hm]
    rfl
  · rw [hk, Option.some.injEq]
    exact Template.builtin.inj (hkind.symm.trans hnode.kind)

/-- A sketch of a main graph, with blocks inside of blocks, is a document in which no two nodes
share a place. Analysis does not refuse it for its wires or graphs: it takes every wire, in every
environment, from one terminal that was named to the other.  And nodes are numbered as they were
placed, up to the first that is no built-in block or is a comment. -/
theorem analyse_drawn {c : Catalog} {s : Sketch} {j : Journal} (hstock : Catalog.stock = .ok c)
    (hdrawn : Drawn c s j) (hmain : s.outline = none) (hdistinct : j.Distinct) :
    (∀ g ∈ s.document.main :: s.document.blocks.map (·.graph), (g.nodes.map (·.pos)).Nodup) ∧
    (∀ f, s.analyse = .error f →
      ¬Wiring.Stray f ∧ (∀ g, f ≠ .unknownGraph g) ∧ ∀ pos g, f ≠ .breach (.sharedPosition pos g)) ∧
    (∀ x, Expansion.ofDocument s.catalog s.document = .ok x → ∀ env u, x.scopes[env]? = some u →
      (env = 0 → List.Forall₂ (Link.Resolves x env) j.links u.connections) ∧
      (env ≠ 0 → (∃ p ∈ j.parts, u.Copies p.block.graph) ∧
        ∀ p ∈ j.parts, u.environment.graph = p.block.graph.id →
          List.Forall₂ (Link.Resolves x env) p.links u.connections)) ∧
    (∀ p, s.analyse = .ok p → ∀ index id, (index, id) ∈ j.placed →
      (∀ e ∈ j.placed, e.1 ≤ index → ∃ k, Stock.kind? e.2 = some k ∧ k ≠ .comment) →
        ∃ decl n, s.graph.nodes[index]? = some decl ∧ decl.kind = id ∧
          p.nodes[index]? = some n ∧ n.env = 0 ∧ n.pos = decl.pos ∧
          Stock.kind? id = some n.kind) := by
  have h := sound_of_drawn hdrawn hdistinct
  refine ⟨fun g hg => h.nodup hg, fun f hf => ?_,
    fun x hx env u hu => ⟨?_, fun hinner => ⟨?_, fun p hp hid => ?_⟩⟩,
    fun p hp index id => h.node_of_placed hstock hp⟩
  · exact h.refusal hdistinct hstock hmain (Program.analyse_fails _ _ f hf)
  · rintro rfl
    exact h.resolves_main hstock hmain hx hu
  · obtain ⟨p, hp, hcopies, -⟩ := h.exists_part hdistinct
      (Catalog.template_of_stock hstock) hx hu hinner
    exact ⟨p, hp, hcopies⟩
  · exact h.resolves_part hdistinct hstock hx hu hinner hp hid

theorem placeKind_eq_ok {s s' : Sketch} {kind : Kind} {settings : List Setting} {index : Nat}
    (h : s.placeKind kind settings = .ok (index, s')) :
    ∃ id, s.catalog.numberOf? kind = some id ∧ s.place id settings = (index, s') := by
  unfold placeKind at h
  split at h
  · next id hid => exact ⟨id, hid, Except.ok.inj h⟩
  · cases h

def nestedJournal (block : CustomBlock) : Journal where
  placed := [(0, 256), (1, 1000)]
  links := [⟨.node 0 Layout.afterName, .node 1 Layout.beforeName⟩]
  parts := [⟨block, [⟨.outside Layout.beforeName, .node 0 Layout.beforeName⟩]⟩]

theorem drawn_nested {c : Catalog} {s : Sketch}
    (hlose : c.numberOf? (.statement (.effect .lose)) = some 256)
    (h : nested c = .ok s) : ∃ block, Drawn c s (nestedJournal block) := by
  obtain ⟨inner₀, hinside, h⟩ := Outcome.bind_eq_ok.mp h
  obtain ⟨⟨win, inner₁⟩, hwin, h⟩ := Outcome.bind_eq_ok.mp h
  obtain ⟨inner, hinner, h⟩ := Outcome.bind_eq_ok.mp h
  obtain ⟨⟨lose, outer₀⟩, hplaced, h⟩ := Outcome.bind_eq_ok.mp h
  obtain ⟨⟨custom, outer⟩, hcustom, hflow⟩ := Outcome.bind_eq_ok.mp h
  obtain ⟨o, mid, ho, hmid, hlast⟩ := placeCustom_eq_ok hcustom
  obtain ⟨id, hid, hfirst⟩ := placeKind_eq_ok hwin
  obtain ⟨id', hid', hsecond⟩ := placeKind_eq_ok hplaced
  cases hid'.symm.trans hlose
  have hwin₀ : win = 0 := by
    unfold inside at hinside
    split at hinside
    · cases hinside
      exact (congrArg Prod.fst hfirst).symm
    · cases hinside
    · cases hinside
  have hlose₀ : lose = 0 := (congrArg Prod.fst hsecond).symm
  have hcustom₁ : custom = 1 := by
    cases hsecond
    have hrest := (registers_of_addBlocks rfl hmid).rest
    rw [hrest] at hlast
    exact (congrArg Prod.fst hlast).symm
  subst hwin₀ hlose₀ hcustom₁
  have hinside := Drawn.fromOutside (.placeKind (.inside hinside) hid hwin) hinner
  exact ⟨_, .wire (.placeCustom (.placeKind .main hid' hplaced) hinside ho hcustom) hflow⟩

theorem analyse_drawn_nested : ∃ c s j p, Catalog.stock = .ok c ∧ nested c = .ok s ∧ Drawn c s j ∧
    s.outline = none ∧ j.Distinct ∧ s.analyse = .ok p ∧
    (∃ n, p.nodes[0]? = some n ∧ n.env = 0 ∧ n.kind = .statement (.effect .lose)) ∧
    ∀ x u, Expansion.ofDocument s.catalog s.document = .ok x → x.scopes[1]? = some u →
      List.Forall₂ (Link.Resolves x 1) [⟨.outside Layout.beforeName, .node 0 Layout.beforeName⟩]
        u.connections := by
  have hall : Catalog.stock.toOption.any (fun c =>
      c.numberOf? (.statement (.effect .lose)) = some 256 ∧
      (nested c).toOption.any fun s => s.outline.isNone && s.analyse.toOption.isSome) = true := by
    decide +kernel
  obtain ⟨c, hstock, hall⟩ := Outcome.any_toOption.mp hall
  obtain ⟨hlose, hall⟩ := of_decide_eq_true hall
  obtain ⟨s, hs, hall⟩ := Outcome.any_toOption.mp hall
  rw [Bool.and_eq_true] at hall
  obtain ⟨p, hp⟩ := Option.isSome_iff_exists.mp hall.2
  have hp := Outcome.toOption_eq_some.mp hp
  have hmain := Option.isNone_iff_eq_none.mp hall.1
  obtain ⟨block, hdrawn⟩ := drawn_nested hlose hs
  have hdistinct : (nestedJournal block).Distinct := by simp [nestedJournal, Journal.Distinct]
  obtain ⟨-, -, hwires, hnumbers⟩ := analyse_drawn hstock hdrawn hmain hdistinct
  refine ⟨c, s, nestedJournal block, p, hstock, hs, hdrawn, hmain, hdistinct, hp, ?_,
    fun x u hx hu => ?_⟩
  · have hbuiltin : ∀ e ∈ (nestedJournal block).placed, e.1 ≤ 0 →
        ∃ k, Stock.kind? e.2 = some k ∧ k ≠ .comment := by
      intro e he hle
      simp only [nestedJournal, List.mem_cons, List.not_mem_nil, or_false] at he
      rcases he with rfl | rfl
      · exact ⟨.statement (.effect .lose), by decide +kernel, nofun⟩
      · exact absurd hle (by decide)
    obtain ⟨_, n, -, -, hn, henv, -, hkind⟩ :=
      hnumbers p hp 0 256 List.mem_cons_self hbuiltin
    refine ⟨n, hn, henv, ?_⟩
    rw [show Stock.kind? 256 = some (.statement (.effect .lose)) by decide +kernel] at hkind
    exact (Option.some.inj hkind).symm
  · obtain ⟨⟨q, hq, hcopies⟩, hparts⟩ := (hwires x hx 1 u hu).2 (by decide)
    have hlinks := hparts q hq hcopies.graph
    rwa [List.mem_singleton.mp hq] at hlinks

end Sketch
end SignalGraph
