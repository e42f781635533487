import Mathlib.Data.List.Forall2
import SignalGraph.Proofs.Blocks.Added
import SignalGraph.Sketch

/-!
# Drawings

What can be drawn in a sketch.  A journal keeps what the calls were given and what they answered, so
that the sketch can be held against it: every node is on the spot of its number, and every wire ends
where the catalog of the sketch has the terminals that were named.  Sketches are drawn with
different catalogs, and what was drawn inside a block has to hold outside of it as well.
-/

namespace SignalGraph

namespace Sketch

inductive Tip where
  | node (index : Nat) (name : String)
  /-- A terminal of the custom block around. -/
  | outside (name : String)

structure Link where
  source : Tip
  target : Tip

def enclosed (s : Sketch) (id : KindId) (o : Outline) : CustomBlock where
  id := id
  name := s!"Custom {id}"
  footprint := o.footprint
  active := o.active
  terminals := o.terminals
  graph := s.graph

structure Part where
  block : CustomBlock
  links : List Link

/-- What the calls on a sketch were given and have answered. -/
structure Journal where
  /-- The answers of the calls that place a node, with its kind. -/
  placed : List (Nat × KindId) := []
  links : List Link := []
  /-- All custom blocks that were placed, those inside of others first. -/
  parts : List Part := []

def Journal.place (j : Journal) (index : Nat) (kind : KindId) : Journal :=
  { j with placed := j.placed ++ [(index, kind)] }

def Journal.link (j : Journal) (source target : Tip) : Journal :=
  { j with links := j.links ++ [⟨source, target⟩] }

/-- The journal `k` of the inside of a block, and what was placed there, goes into that of the
outside. -/
def Journal.enclose (j k : Journal) (block : CustomBlock) : Journal :=
  { j with parts := j.parts ++ k.parts ++ [⟨block, k.links⟩] }

/-- Sketches that start from one catalog, with their journals.  A call that is refused ends the
drawing.  The calls that are not listed are some of these with fixed arguments. -/
inductive Drawn (c : Catalog) : Sketch → Journal → Prop
  | main : Drawn c (ofCatalog c) {}
  | inside {graph : GraphId} {o : Outline} {s : Sketch} : inside c graph o = .ok s → Drawn c s {}
  | place {s s' : Sketch} {j : Journal} {kind : KindId} {settings : List Setting} {index : Nat} :
      Drawn c s j →
    s.place kind settings = (index, s') → Drawn c s' (j.place index kind)
  | placeKind {s s' : Sketch} {j : Journal} {kind : Kind} {id : KindId} {settings : List Setting}
      {index : Nat} :
    Drawn c s j → s.catalog.numberOf? kind = some id → s.placeKind kind settings = .ok (index, s') →
      Drawn c s' (j.place index id)
  | addSettings {s s' : Sketch} {j : Journal} {settings : List Setting} {index : Nat} :
      Drawn c s j →
    s.addSettings index settings = .ok s' → Drawn c s' j
  | wire {s s' : Sketch} {j : Journal} {source target : Nat} {output input : String} : Drawn c s j →
    s.wire source output target input = .ok s' →
      Drawn c s' (j.link (.node source output) (.node target input))
  | fromOutside {s s' : Sketch} {j : Journal} {target : Nat} {name input : String} : Drawn c s j →
    s.fromOutside name target input = .ok s' →
      Drawn c s' (j.link (.outside name) (.node target input))
  | toOutside {s s' : Sketch} {j : Journal} {source : Nat} {output name : String} : Drawn c s j →
    s.toOutside source output name = .ok s' →
      Drawn c s' (j.link (.node source output) (.outside name))
  | placeCustom {s s' inner : Sketch} {j k : Journal} {o : Outline} {id : KindId} {index : Nat} :
      Drawn c s j →
    Drawn c inner k → inner.outline = some o → s.placeCustom id inner = .ok (index, s') →
      Drawn c s' ((j.enclose k (inner.enclosed id o)).place index id)

/-- No number of a custom block, or of its graph, stands for two blocks. -/
def Journal.Distinct (j : Journal) : Prop :=
  ∀ p ∈ j.parts, ∀ q ∈ j.parts, p.block.id = q.block.id ∨ p.block.graph.id = q.block.graph.id →
    p.block = q.block

theorem Journal.Distinct.mono {j k : Journal} (h : j.Distinct) (hsub : ∀ p ∈ k.parts, p ∈ j.parts) :
    k.Distinct :=
  fun p hp q hq => h p (hsub p hp) q (hsub q hq)

/-- The positions of a node and of a terminal are those of the end that is named.  `near` is the
direction of a terminal of a node at this end, and `far` that of one outside. -/
inductive Tip.Marks (c : Catalog) (kinds : List KindId) (boundary : List Terminal)
    (near far : Direction) :
    Tip → Pos → Pos → Prop
  | node {index : Nat} {name : String} {kind : KindId} {b : Block} {t : Terminal} :
      kinds[index]? = some kind →
    c.find? kind = some b → named b.terminals near name = some t →
      Marks c kinds boundary near far (.node index name) (spot index) t.pos
  | outside {name : String} {t : Terminal} : named boundary far name = some t →
      Marks c kinds boundary near far (.outside name) .outside t.pos

structure Link.Marked (c : Catalog) (kinds : List KindId) (boundary : List Terminal) (l : Link)
    (w : Connection) :
    Prop where
  source : l.source.Marks c kinds boundary .output .input w.source w.sourceTerminal
  target : l.target.Marks c kinds boundary .input .output w.target w.targetTerminal

structure Faithful (c : Catalog) (g : Graph) (boundary : List Terminal)
    (links : List Link) : Prop where
  spots : g.nodes.map (·.pos) = (List.range g.nodes.length).map spot
  wires : List.Forall₂ (Link.Marked c (g.nodes.map (·.kind)) boundary) links g.connections

variable {c c' : Catalog} {g : Graph} {boundary : List Terminal} {links : List Link}
  {kinds : List KindId}

theorem Link.Marked.mono {l : Link} {w : Connection}
    (hc : ∀ {kind b}, c.find? kind = some b → c'.find? kind = some b)
    (h : l.Marked c kinds boundary w) (more : List KindId) :
    l.Marked c' (kinds ++ more) boundary w := by
  have hmarks : ∀ {tip : Tip} {near far : Direction} {node terminal : Pos},
      tip.Marks c kinds boundary near far node terminal →
        tip.Marks c' (kinds ++ more) boundary near far node terminal := by
    intro tip near far node terminal h
    cases h with
    | node hkind hfind hnamed =>
      refine .node ?_ (hc hfind) hnamed
      rw [List.getElem?_append_left (List.getElem?_eq_some_iff.mp hkind).1, hkind]
    | outside hnamed => exact .outside hnamed
  exact ⟨hmarks h.source, hmarks h.target⟩

theorem Faithful.mono (hc : ∀ {kind b}, c.find? kind = some b → c'.find? kind = some b)
    (h : Faithful c g boundary links) : Faithful c' g boundary links :=
  ⟨h.spots, h.wires.imp fun _ _ hw => by simpa using hw.mono hc []⟩

theorem Faithful.place (h : Faithful c g boundary links) (kind : KindId) (settings : List Setting) :
    Faithful c { g with nodes := g.nodes ++ [{ pos := spot g.nodes.length, kind, settings }] }
      boundary links := by
  refine ⟨?_, ?_⟩
  · simp [h.spots, List.range_succ]
  · rw [List.map_append]
    exact h.wires.imp fun _ _ hw => hw.mono (fun hfind => hfind) _

theorem Faithful.link (h : Faithful c g boundary links) {l : Link} {w : Connection}
    (hw : l.Marked c (g.nodes.map (·.kind)) boundary w) :
    Faithful c { g with connections := g.connections ++ [w] } boundary (links ++ [l]) :=
  ⟨h.spots, List.rel_append h.wires (.cons hw .nil)⟩

theorem spot_injective : Function.Injective spot := fun i j h => by
  have hx := congrArg Pos.x h
  simp only [spot] at hx
  omega

theorem spot_ne_outside (index : Nat) : spot index ≠ .outside := fun h => by
  have hy := congrArg Pos.y h
  simp [spot, Pos.outside] at hy

theorem Faithful.pos_of_getElem? (h : Faithful c g boundary links) {index : Nat} {n : NodeDecl}
    (hn : g.nodes[index]? = some n) : n.pos = spot index := by
  have hspot : (g.nodes.map (·.pos))[index]? = some (spot index) := by
    simp [h.spots, (List.getElem?_eq_some_iff.mp hn).1]
  simpa [hn] using hspot

theorem Faithful.nodup (h : Faithful c g boundary links) : (g.nodes.map (·.pos)).Nodup := by
  rw [h.spots]
  exact List.nodup_range.map spot_injective

/-! ## Sound sketches -/

def boundaryOf (b : CustomBlock) : List Terminal :=
  Layout.terminals b.footprint b.terminals b.active

structure Sound (c : Catalog) (s : Sketch) (j : Journal) : Prop where
  registered : s.blocks.foldlM Catalog.addCustom c = .ok s.catalog
  known : ∀ b ∈ s.blocks, ∃ p ∈ j.parts, p.block = b
  graph : Faithful s.catalog s.graph s.boundary j.links
  /-- What was drawn with the catalog of another sketch holds with that of this one. -/
  parts : ∀ p ∈ j.parts, Faithful s.catalog p.block.graph (boundaryOf p.block) p.links
  boundary : s.boundary = match s.outline with
    | none => []
    | some o => Layout.terminals o.footprint o.terminals o.active
  placed : j.placed = (s.graph.nodes.map (·.kind)).zipIdx.map fun (kind, index) => (index, kind)

variable {s s' inner : Sketch} {j k : Journal}

theorem sound_ofCatalog (c : Catalog) : Sound c (ofCatalog c) {} :=
  ⟨rfl, nofun, ⟨rfl, .nil⟩, nofun, rfl, rfl⟩

theorem sound_inside {graph : GraphId} {o : Outline} (h : inside c graph o = .ok s) :
    Sound c s {} := by
  unfold inside at h
  split at h
  · next boundary hlayout =>
    cases h
    exact ⟨rfl, nofun, ⟨rfl, .nil⟩, nofun, (Layout.ok_iff.mp hlayout).2, rfl⟩
  · cases h
  · cases h

theorem Sound.place (h : Sound c s j) (kind : KindId) (settings : List Setting) :
    Sound c (s.place kind settings).2 (j.place (s.place kind settings).1 kind) where
  registered := h.registered
  known := h.known
  graph := h.graph.place kind settings
  parts := h.parts
  boundary := h.boundary
  placed := by simp [Journal.place, Sketch.place, h.placed, List.zipIdx_append]

theorem Sound.addSettings {index : Nat} {settings : List Setting} (h : Sound c s j)
    (hset : s.addSettings index settings = .ok s') : Sound c s' j := by
  obtain ⟨_, -, hset⟩ := Outcome.bind_eq_ok.mp hset
  cases hset
  have hsame : ∀ {α : Type} (f : NodeDecl → α),
    (∀ n, f { n with settings := n.settings ++ settings } = f n) →
      (s.graph.nodes.modify index fun n => { n with settings := n.settings ++ settings }).map f =
        s.graph.nodes.map f := by
    intro α f hf
    refine List.ext_getElem? fun i => ?_
    rw [List.getElem?_map, List.getElem?_map, List.getElem?_modify]
    cases s.graph.nodes[i]? with
    | none => rfl
    | some n => simp only [Option.map_eq_map, Option.map_some]; split <;> simp [hf]
  refine ⟨h.registered, h.known, ⟨?_, ?_⟩, h.parts, h.boundary, ?_⟩
  · rw [hsame _ fun _ => rfl, List.length_modify]
    exact h.graph.spots
  · rw [hsame _ fun _ => rfl]
    exact h.graph.wires
  · rw [hsame _ fun _ => rfl]
    exact h.placed

theorem Sound.draw (h : Sound c s j) {start finish : Tip} {source target : Pos × Pos}
    (hsource : start.Marks s.catalog
      (s.graph.nodes.map (·.kind)) s.boundary .output .input source.1 source.2)
    (htarget : finish.Marks s.catalog
      (s.graph.nodes.map (·.kind)) s.boundary .input .output target.1 target.2) :
    Sound c (s.draw source target) (j.link start finish) :=
  ⟨h.registered, h.known, h.graph.link ⟨hsource, htarget⟩, h.parts, h.boundary, h.placed⟩

theorem marks_of_terminal (h : Sound c s j) {index : Nat} {near far : Direction} {name : String}
    {e : Pos × Pos}
    (he : s.terminal index near name = .ok e) : (Tip.node index name).Marks s.catalog
      (s.graph.nodes.map (·.kind)) s.boundary near far e.1 e.2 := by
  obtain ⟨n, hn, he⟩ := Outcome.bind_eq_ok.mp he
  have hget : s.graph.nodes[index]? = some n := by
    unfold Sketch.node at hn
    split at hn
    · next hget =>
      cases hn
      exact hget
    · cases hn
  have hpos := h.graph.pos_of_getElem? hget
  split at he
  · next b hb =>
    split at he
    · next t ht =>
      cases he
      rw [hpos]
      exact .node (by simp [hget]) hb ht
    · cases he
  · cases he

theorem marks_of_boundaryTerminal {near far : Direction} {name : String} {e : Pos × Pos}
    (he : s.boundaryTerminal far name = .ok e) :
    (Tip.outside name).Marks s.catalog kinds s.boundary near far e.1 e.2 := by
  unfold boundaryTerminal at he
  split at he
  · next t ht =>
    cases he
    exact .outside ht
  · cases he

structure Registers (c : Catalog) (s : Sketch) (added : List CustomBlock) (s' : Sketch) : Prop where
  registered : s'.blocks.foldlM Catalog.addCustom c = .ok s'.catalog
  rest : s' = { s with catalog := s'.catalog, blocks := s'.blocks }
  kept : ∀ b ∈ s.blocks, b ∈ s'.blocks
  known : ∀ b ∈ s'.blocks, b ∈ s.blocks ++ added
  taken : ∀ b ∈ added, (s'.catalog.find? b.id).isSome

theorem Registers.add {added : List CustomBlock} {decl : CustomBlock} {mid : Sketch}
    (h : Registers c s added mid)
    (hadd : mid.addBlock decl = .ok s') : Registers c s (added ++ [decl]) s' := by
  unfold addBlock at hadd
  split at hadd
  · next b hb =>
    cases hadd
    refine ⟨h.registered, h.rest, h.kept, fun b hb => ?_, fun b' hb' => ?_⟩
    · rw [← List.append_assoc]
      exact List.mem_append_left _ (h.known b hb)
    · rcases List.mem_append.mp hb' with hin | hin
      · exact h.taken b' hin
      · rw [List.mem_singleton.mp hin, hb]
        rfl
  · split at hadd
    · next catalog hcatalog =>
      cases hadd
      have hregistered : (mid.blocks ++ [decl]).foldlM Catalog.addCustom c = .ok catalog :=
        Outcome.foldlM_snoc h.registered hcatalog
      refine ⟨hregistered, by rw [h.rest], fun b hb => List.mem_append_left _ (h.kept b hb),
        fun b hb => ?_,
        fun b hb => ?_⟩
      · rw [← List.append_assoc]
        rcases List.mem_append.mp hb with hin | hin
        · exact List.mem_append_left _ (h.known b hin)
        · exact List.mem_append_right _ hin
      · rcases List.mem_append.mp hb with hin | hin
        · obtain ⟨b', hb'⟩ := Option.isSome_iff_exists.mp (h.taken b hin)
          rw [Catalog.find?_mono h.registered hregistered (fun _ => List.mem_append_left _) hb']
          rfl
        · rw [List.mem_singleton.mp hin]
          obtain ⟨-, b', -, hb'⟩ :=
            Catalog.fresh_of_addAll hregistered (List.mem_append_right _ List.mem_cons_self)
          rw [hb']
          rfl
    · cases hadd

theorem registers_of_addBlocks {added : List CustomBlock}
    (h : s.blocks.foldlM Catalog.addCustom c = .ok s.catalog)
    (hadd : added.foldlM addBlock s = .ok s') : Registers c s added s' :=
  Outcome.foldlM_induct_all (Registers c s) hadd ⟨h, rfl, fun _ hb => hb, by simp, nofun⟩
    fun _ _ _ _ _ _ hmid hstep => hmid.add hstep

/-- A custom block is placed after all that is in it. -/
theorem placeCustom_eq_ok {id : KindId} {index : Nat}
    (h : s.placeCustom id inner = .ok (index, s')) :
    ∃ o mid, inner.outline = some o ∧
      (inner.blocks ++ [inner.enclosed id o]).foldlM addBlock s = .ok mid ∧
        mid.place id = (index, s') := by
  obtain ⟨o, ho⟩ : ∃ o, inner.outline = some o := by
    cases ho : inner.outline with
    | some o => exact ⟨o, rfl⟩
    | none =>
      unfold placeCustom at h
      rw [ho] at h
      cases h
  unfold placeCustom at h
  rw [ho] at h
  obtain ⟨mid, hmid, h⟩ := Outcome.bind_eq_ok.mp h
  obtain ⟨last, hlast, h⟩ := Outcome.bind_eq_ok.mp h
  exact ⟨o, last, ho, Outcome.foldlM_snoc hmid hlast, Except.ok.inj h⟩

/-- The blocks of the inside are registered outside, where their numbers stand for nothing else, and
so what was drawn there stays as it was. -/
theorem Sound.enclose {o : Outline} {id : KindId} {mid : Sketch} (h : Sound c s j)
    (hinner : Sound c inner k)
    (ho : inner.outline = some o) (hdistinct : (j.enclose k (inner.enclosed id o)).Distinct)
    (hadd : (inner.blocks ++ [inner.enclosed id o]).foldlM addBlock s = .ok mid) :
    Sound c mid (j.enclose k (inner.enclosed id o)) := by
  have hreg := registers_of_addBlocks h.registered hadd
  have hknown : ∀ b ∈ mid.blocks, ∃ p ∈ (j.enclose k (inner.enclosed id o)).parts, p.block = b := by
    intro b hb
    rw [Journal.enclose]
    rcases List.mem_append.mp (hreg.known b hb) with hin | hin
    · obtain ⟨p, hp, rfl⟩ := h.known b hin
      exact ⟨p, by simp [hp], rfl⟩
    · rcases List.mem_append.mp hin with hin | hin
      · obtain ⟨p, hp, rfl⟩ := hinner.known b hin
        exact ⟨p, by simp [hp], rfl⟩
      · exact ⟨⟨inner.enclosed id o, k.links⟩, by simp, (List.mem_singleton.mp hin).symm⟩
  -- a number of the inside is taken outside by the same block, as the stock leaves it free and no
  -- block shares it
  have hmoved : ∀ b ∈ inner.blocks, b ∈ mid.blocks := by
    intro b hb
    obtain ⟨b', hb'⟩ := Option.isSome_iff_exists.mp (hreg.taken b (List.mem_append_left _ hb))
    rcases (Catalog.find?_addAll hreg.registered).mp hb' with hstock | ⟨decl, hdecl, hid, -⟩
    · exact nomatch hstock.symm.trans (Catalog.fresh_of_addAll hinner.registered hb).1
    · obtain ⟨p, hp, rfl⟩ := hknown decl hdecl
      obtain ⟨q, hq, rfl⟩ := hinner.known b hb
      rw [← hdistinct p hp q (by simp [Journal.enclose, hq]) (.inl hid)]
      exact hdecl
  have houter : ∀ {kind b}, s.catalog.find? kind = some b → mid.catalog.find? kind = some b :=
    Catalog.find?_mono h.registered hreg.registered hreg.kept
  have hinside : ∀ {kind b}, inner.catalog.find? kind = some b → mid.catalog.find? kind = some b :=
    Catalog.find?_mono hinner.registered hreg.registered hmoved
  refine ⟨hreg.registered, hknown, ?_, fun p hp => ?_, ?_, ?_⟩
  · rw [hreg.rest]
    exact h.graph.mono houter
  · simp only [Journal.enclose, List.mem_append, List.mem_singleton] at hp
    rcases hp with (hp | hp) | rfl
    · exact (h.parts p hp).mono houter
    · exact (hinner.parts p hp).mono hinside
    · have hgraph := hinner.graph.mono hinside
      rw [hinner.boundary, ho] at hgraph
      exact hgraph
  · rw [hreg.rest]
    exact h.boundary
  · rw [hreg.rest]
    exact h.placed

/-- Every sketch shows what was drawn in it. -/
theorem sound_of_drawn (h : Drawn c s j) (hdistinct : j.Distinct) : Sound c s j := by
  induction h with
  | main => exact sound_ofCatalog c
  | inside hinside => exact sound_inside hinside
  | place _ hplace ih =>
    cases hplace
    exact (ih hdistinct).place _ _
  | placeKind _ hid hplace ih =>
    unfold placeKind at hplace
    rw [hid] at hplace
    cases hplace
    exact (ih hdistinct).place _ _
  | addSettings _ hset ih => exact (ih hdistinct).addSettings hset
  | wire _ hwire ih =>
    obtain ⟨source, hsource, hwire⟩ := Outcome.bind_eq_ok.mp hwire
    obtain ⟨target, htarget, hwire⟩ := Outcome.bind_eq_ok.mp hwire
    cases hwire
    have h := ih hdistinct
    exact h.draw (marks_of_terminal h hsource) (marks_of_terminal h htarget)
  | fromOutside _ hwire ih =>
    obtain ⟨source, hsource, hwire⟩ := Outcome.bind_eq_ok.mp hwire
    obtain ⟨target, htarget, hwire⟩ := Outcome.bind_eq_ok.mp hwire
    cases hwire
    have h := ih hdistinct
    exact h.draw (marks_of_boundaryTerminal hsource) (marks_of_terminal h htarget)
  | toOutside _ hwire ih =>
    obtain ⟨source, hsource, hwire⟩ := Outcome.bind_eq_ok.mp hwire
    obtain ⟨target, htarget, hwire⟩ := Outcome.bind_eq_ok.mp hwire
    cases hwire
    have h := ih hdistinct
    exact h.draw (marks_of_terminal h hsource) (marks_of_boundaryTerminal htarget)
  | placeCustom _ _ ho hplace ih ihinner =>
    obtain ⟨_, mid, ho', hmid, hplace⟩ := placeCustom_eq_ok hplace
    cases ho.symm.trans ho'
    cases hplace
    have hsound := (ih
      (hdistinct.mono fun p hp => by simp [Journal.place, Journal.enclose, hp])).enclose
      (ihinner (hdistinct.mono fun p hp => by simp [Journal.place, Journal.enclose, hp]))
        ho hdistinct hmid
    exact hsound.place _ _

end Sketch
end SignalGraph
