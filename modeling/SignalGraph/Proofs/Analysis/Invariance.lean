import SignalGraph.Proofs.Analysis.Analysed
import SignalGraph.Proofs.Analysis.Expansion.Matches

/-!
# Invariance

The program of a document is that of any rearranged one: no number, no memo point and no list of
successors depends on a comment, on the order of wires that carry data or leave different terminals,
or on the record of what a wire crosses.
-/

namespace SignalGraph

namespace Expansion

open Relation Wiring

variable {c : Catalog} {d d' : Document} {x x' : Expansion}

structure Rearrangement (c : Catalog) (d d' : Document) (x x' : Expansion) : Prop where
  made : c.Made
  first : ofDocument c d = .ok x
  second : ofDocument c d' = .ok x'
  checked : check x = .ok ()
  scopes : List.Forall₂ (Scope.Rearranged c) x.scopes x'.scopes

namespace Rearrangement

variable (h : Rearrangement c d d' x x')
include h

theorem agrees : List.Forall₂ Scope.Agrees x.scopes x'.scopes :=
  h.scopes.imp fun _ _ hs => hs.agrees

theorem forth : Matches x x' := matches_of_agrees h.agrees (scopesFit_ofDocument h.second)

theorem back : Matches x' x :=
  matches_of_agrees (h.agrees.flip.imp fun _ _ hs => hs.symm) (scopesFit_ofDocument h.first)

theorem checked' : check x' = .ok () :=
  check_of_agrees h.agrees h.made (scopesFit_ofDocument h.first)
    (scopesFit_ofDocument h.second) h.checked

theorem driver {env : EnvId} {m : Member} {t : Terminal} (hi : (env, m) ∈ x.instances)
    (ht : t ∈ m.block.dataInputs) {start : Option (Producer × WireType)}
    (hdriver : x.driver ⟨env, m.decl.pos, t.pos⟩ = .ok start) :
    x'.driver ⟨env, m.decl.pos, t.pos⟩ = .ok start := by
  have hi' : (env, m) ∈ x'.instances := h.forth.instances.symm ▸ hi
  obtain ⟨-, s, hs, hm⟩ := mem_instances hi
  obtain ⟨-, s', hs', hm'⟩ := mem_instances hi'
  obtain ⟨l, hway⟩ := (driver_eq_ok_iff h.made h.first hs hm ht h.checked).mp hdriver
  exact (driver_eq_ok_iff h.made h.second hs' hm' ht h.checked').mpr
    (hway.of_matches h.forth h.back)

end Rearrangement

/-- What feeds a place does so in a matching expansion. -/
theorem Feeds.of_matches (hm : Matches x x') (h : ofDocument c d = .ok x)
    (h' : ofDocument c d' = .ok x')
    {p : Place} {e : End} (he : e ≠ .nothing) (hfeeds : x.Feeds p e) : x'.Feeds p e := by
  obtain ⟨r, hr, hfollow⟩ := feeds_iff.mp hfeeds
  exact feeds_iff.mpr ⟨r, hm.targets hr, hm.follow h h' hfollow he⟩

theorem Driven.of_matches (hm : Matches x x') (h : ofDocument c d = .ok x)
    (h' : ofDocument c d' = .ok x')
    {p : Place} (hdriven : x.Driven p) : x'.Driven p := by
  obtain ⟨q, hreach, m, hfed⟩ := hdriven
  have hstep : ∀ {p q}, x.Precedes p q → x'.Precedes p q := fun hpq =>
    Feeds.of_matches hm h h' (by simp) hpq
  exact ⟨q, hreach.lift id fun _ _ hpq => hstep hpq, m, Feeds.of_matches hm h h' (by simp) hfed⟩

namespace Rearrangement

variable (h : Rearrangement c d d' x x')
include h

theorem isDriven {p : Place} {answer : Bool} (hanswer : x.isDriven p = .ok answer) :
    x'.isDriven p = .ok answer := by
  obtain ⟨answer', hanswer'⟩ := exists_searchBack h.checked' x'.budget [] [p]
  have hiff : answer' = true ↔ answer = true := by
    rw [← driven_iff_of_isDriven hanswer, ← driven_iff_of_isDriven hanswer']
    exact ⟨Driven.of_matches h.back h.second h.first, Driven.of_matches h.forth h.first h.second⟩
  rw [Expansion.isDriven, hanswer', Bool.eq_iff_iff.mpr hiff]

theorem controls {env : EnvId} {s : Scope} {g : Graph} (hs : x.scopes[env]? = some s)
    (hg : s.Copies g)
    {node terminal : Pos} {b : Block} {t : Terminal} (howner : x.owner env node = .ok b)
    (hfind : b.terminalAt terminal = some t) (hvoid : t.type = .void) :
    g.Controls c node terminal := by
  have hfit := scopesFit_ofDocument h.first
  refine ⟨b, t, hfind, hvoid, ?_⟩
  by_cases hnode : node = .outside
  · subst hnode
    obtain ⟨parent, p, m, hparent, hm, rfl⟩ := owner_outside howner
    obtain ⟨m', id, inner, s', hm', hid, hinner, hs', hcopies⟩ := custom_of_parent h.first hparent
    cases hm.symm.trans hm'
    cases hs.symm.trans hs'
    cases hg.unique hcopies
    obtain ⟨-, s', hs', hmem⟩ := member_eq_ok hm
    refine .inl ⟨rfl, List.mem_of_find?_eq_some ((hfit _ _ hs').block m hmem), ?_⟩
    rw [(Document.graph?_eq_some hinner).1]
    exact Member.template_of_graph? hid
  · obtain ⟨m, hm, rfl⟩ := owner_of_ne hnode howner
    obtain ⟨hpos, s', hs', hmem⟩ := member_eq_ok hm
    cases hs.symm.trans hs'
    exact .inr ⟨hnode, m.decl, hg.nodes ▸ List.mem_map_of_mem hmem, hpos,
      (hfit _ _ hs).block m hmem⟩

/-- Where only control leaves a place, its wires are in the same order. -/
theorem targets {p : Place}
    (hp : ∀ b t, x.owner p.env p.node = .ok b → b.terminalAt p.terminal = some t →
    t.dir = sourceDirection p.node → t.type = .void) : x'.targets p = x.targets p := by
  have hleaving : ∀ {y : Expansion} {s : Scope} {g : Graph}, y.scopes[p.env]? = some s →
    s.Copies g →
      y.targets p = (g.leaving p.node p.terminal).map fun w =>
        ⟨p.env, w.target, w.targetTerminal⟩ := by
    intro y s g hs hg
    rw [Expansion.targets, hs, Graph.leaving, List.map_map, ← hg.wires]
    rfl
  cases hs : x.scopes[p.env]? with
  | none =>
    have hs' : x'.scopes[p.env]? = none := by
      rw [List.getElem?_eq_none_iff] at hs ⊢
      exact h.scopes.length_eq ▸ hs
    rw [Expansion.targets, Expansion.targets, hs, hs']
  | some s =>
    obtain ⟨s', hs', hscope⟩ := getElem?_forall₂ h.scopes hs
    obtain ⟨g, g', hg, hg', hgraph⟩ := hscope.graphs
    rw [hleaving hs hg, hleaving hs' hg']
    by_cases hcontrols : g.Controls c p.node p.terminal
    · rw [hgraph.order _ _ hcontrols]
    · have hnone : x.targets p = [] := by
        refine List.eq_nil_iff_forall_not_mem.mpr fun q hq => hcontrols ?_
        obtain ⟨start, -, ⟨b, howner, hfind, hdir⟩, -⟩ := linked_of_targets h.checked hq
        exact h.controls hs hg howner hfind (hp b start howner hfind hdir)
      have hnone' : x'.targets p = [] := by
        refine List.eq_nil_iff_forall_not_mem.mpr fun q hq => ?_
        exact List.not_mem_nil (hnone ▸ h.back.targets hq)
      rw [← hleaving hs hg, ← hleaving hs' hg', hnone, hnone']

theorem walk {stack : List Place} {n : Nat} {ids : List NodeId} (hwalk : x.Walk stack n ids)
    (hstack : ∀ p ∈ stack, x.ControlEnd p) : x'.Walk stack n ids := by
  have hfit := scopesFit_ofDocument h.first
  induction hwalk with
  | done => exact .done
  | @nothing p rest n ids hfollow _ ih =>
    obtain ⟨b, t, howner, hfind, -⟩ := hstack p List.mem_cons_self
    exact absurd hfollow (follow_ne_nothing h.made h.first howner hfind)
  | @builtin p rest n ids m hfollow _ ih =>
    exact .builtin (h.forth.follow h.first h.second hfollow (by simp))
      (ih fun q hq => hstack q (List.mem_cons_of_mem p hq))
  | @beyond p rest n ids q hfollow _ ih =>
    have hp := hstack p List.mem_cons_self
    have htargets := h.targets fun b t => void_of_beyond h.made hfit hp hfollow
    refine .beyond (h.forth.follow h.first h.second hfollow (by simp)) ?_
    rw [htargets]
    refine ih fun r hr => ?_
    rcases List.mem_append.mp hr with hr | hr
    · exact controlEnd_of_beyond h.made hfit h.checked hp hfollow hr
    · exact hstack r (List.mem_cons_of_mem p hr)

theorem budget : x'.budget = x.budget := by
  have hcount : ∀ {scopes scopes' : List Scope}, List.Forall₂ Scope.Agrees scopes scopes' →
      (scopes'.flatMap (·.connections)).length = (scopes.flatMap (·.connections)).length := by
    intro scopes scopes' hagrees
    induction hagrees with
    | nil => rfl
    | cons hs _ ih =>
      have hwires := hs.wires.length_eq
      rw [List.length_map, List.length_map] at hwires
      rw [List.flatMap_cons, List.flatMap_cons, List.length_append, List.length_append, ih, hwires]
  rw [Expansion.budget, Expansion.budget, wireCount, wireCount, hcount h.agrees]

theorem successors {env : EnvId} {m : Member} {t : Terminal} (hi : (env, m) ∈ x.instances)
    (ht : t ∈ m.block.controlOutputs) {ids : List NodeId}
    (hids : x.successors ⟨env, m.decl.pos, t.pos⟩ = .ok ids) :
    x'.successors ⟨env, m.decl.pos, t.pos⟩ = .ok ids := by
  have hfit := scopesFit_ofDocument h.first
  obtain ⟨-, s, hs, hm⟩ := mem_instances hi
  have hstart : ∀ b u, x.owner env m.decl.pos = .ok b → b.terminalAt t.pos = some u →
      u.dir = sourceDirection m.decl.pos → u.type = .void :=
    fun b u => void_of_controlOutput h.made hfit hs hm ht
  obtain ⟨n, hn, hwalk⟩ := walk_of_traceForward hids
  have hwalk' := h.walk hwalk fun q hq => controlEnd_of_targets h.checked hstart hq
  rw [← h.targets hstart] at hwalk'
  exact traceForward_of_walk hwalk' (h.budget ▸ hn)

theorem vars : Nodes.vars x' = Nodes.vars x := by
  rw [Nodes.vars, Nodes.vars, h.forth.instances]

theorem build {names : Variable → VarId} {env : EnvId} {m : Member} {k : Kind} {n : Node}
    (hi : (env, m) ∈ x.instances) (hn : Nodes.build x names env m k = .ok n) :
    Nodes.build x' names env m k = .ok n := by
  unfold Nodes.build at hn ⊢
  obtain ⟨constant, hconstant, hn⟩ := Outcome.bind_eq_ok.mp hn
  obtain ⟨inputs, hinputs, hn⟩ := Outcome.bind_eq_ok.mp hn
  obtain ⟨controls, hcontrols, hn⟩ := Outcome.bind_eq_ok.mp hn
  refine Outcome.bind_eq_ok.mpr ⟨constant, hconstant, Outcome.bind_eq_ok.mpr ⟨inputs, ?_,
    Outcome.bind_eq_ok.mpr ⟨controls, ?_, hn⟩⟩⟩
  · refine Outcome.mapM_imp (fun found hfound o ho => ?_) hinputs
    obtain ⟨t, i⟩ := found
    have ht := List.mem_of_getElem? (List.mem_zipIdx_iff_getElem?.mp hfound)
    unfold Nodes.operand at ho ⊢
    obtain ⟨start, hstart, ho⟩ := Outcome.bind_eq_ok.mp ho
    exact Outcome.bind_eq_ok.mpr ⟨start, h.driver hi ht hstart, ho⟩
  · exact Outcome.mapM_imp (fun t ht ids hids => h.successors hi ht hids) hcontrols

theorem isEntry {env : EnvId} {m : Member} {entry : Bool}
    (hentry : Nodes.isEntry x env m = .ok entry) :
    Nodes.isEntry x' env m = .ok entry := by
  unfold Nodes.isEntry at hentry ⊢
  cases hbefore : m.block.before with
  | none =>
    rw [hbefore] at hentry
    exact hentry
  | some t =>
    rw [hbefore] at hentry
    obtain ⟨driven, hdriven, hneg⟩ := Outcome.map_eq_ok.mp hentry
    exact Outcome.map_eq_ok.mpr ⟨driven, h.isDriven hdriven, hneg⟩

theorem all {vars : List Variable} {built : List (Node × Bool)}
    (hbuilt : Nodes.all x vars = .ok built) :
    Nodes.all x' vars = .ok built := by
  unfold Nodes.all at hbuilt ⊢
  rw [h.forth.instances]
  refine Outcome.filterMapM_imp (fun found hfound o ho => ?_) hbuilt
  obtain ⟨env, m⟩ := found
  dsimp only at ho ⊢
  split at ho
  · exact ho
  · obtain ⟨n, hn, ho⟩ := Outcome.bind_eq_ok.mp ho
    obtain ⟨entry, hentry, ho⟩ := Outcome.bind_eq_ok.mp ho
    exact Outcome.bind_eq_ok.mpr
      ⟨n, h.build hfound hn, Outcome.bind_eq_ok.mpr ⟨entry, h.isEntry hentry, ho⟩⟩

end Rearrangement
end Expansion

namespace Program

variable {c : Catalog} {d d' : Document} {p : Program}

/-- A rearranged document has the very same program. -/
theorem analyse_rearranged (hc : c.Made) (h : analyse c d = .ok p) (hd : d.Rearranged c d') :
    analyse c d' = .ok p := by
  obtain ⟨x, built, volatile, hx, hcheck, hbuilt, hcontrol, hvolatile, rfl⟩ := analyse_eq_ok.mp h
  obtain ⟨x', hx', hscopes⟩ := Expansion.ofDocument_rearranged hd hx
  have hr : Expansion.Rearrangement c d d' x x' := ⟨hc, hx, hx', hcheck, hscopes⟩
  have hnamed : named x' built = named x built := by rw [named, named, hr.vars]
  refine analyse_eq_ok.mpr ⟨x', built, volatile, hx', hr.checked', hr.vars ▸ hr.all hbuilt,
    hnamed ▸ hcontrol, hnamed ▸ hvolatile, ?_⟩
  rw [assemble, assemble, hnamed, hr.vars, hr.forth.environments]

/-- A number that goes to two variables, a comment, and a block. -/
def scattered : Document where
  main := {
    id := 0
    nodes := [{ pos := ⟨0, 0, 0⟩, kind := 36 },
      { pos := ⟨4, 0, 4⟩, kind := 428, settings := [.text "a"] },
      { pos := ⟨8, 0, 8⟩, kind := 428, settings := [.text "b"] },
      { pos := ⟨12, 0, 12⟩, kind := 15 },
      { pos := ⟨16, 0, 16⟩, kind := 1000 }]
    connections := [.between ⟨0, 0, 0⟩ ⟨15, 1, 3⟩ ⟨4, 0, 4⟩ ⟨0, 1, 3⟩,
      .between ⟨0, 0, 0⟩ ⟨15, 1, 3⟩ ⟨8, 0, 8⟩ ⟨0, 1, 3⟩,
      .between ⟨4, 0, 4⟩ ⟨3, 1, 0⟩ ⟨8, 0, 8⟩ ⟨3, 1, 7⟩] }
  blocks := [{
    id := 1000
    name := "inside"
    footprint := ⟨2, 2⟩
    graph := { id := 7, nodes := [{ pos := ⟨0, 0, 0⟩, kind := 252 }] } }]

/-- The same with the wires the other way round, a flag that is wrong, and comments elsewhere. -/
def gathered : Document where
  main := {
    id := 0
    nodes := [{ pos := ⟨0, 0, 0⟩, kind := 36 }, { pos := ⟨20, 0, 20⟩, kind := 15 },
      { pos := ⟨4, 0, 4⟩, kind := 428, settings := [.text "a"] },
      { pos := ⟨8, 0, 8⟩, kind := 428, settings := [.text "b"] },
      { pos := ⟨16, 0, 16⟩, kind := 1000 }]
    connections := [{ Connection.between ⟨4, 0, 4⟩ ⟨3, 1, 0⟩ ⟨8, 0, 8⟩
      ⟨3, 1, 7⟩ with crossing := true },
      .between ⟨0, 0, 0⟩ ⟨15, 1, 3⟩ ⟨8, 0, 8⟩ ⟨0, 1, 3⟩,
      .between ⟨0, 0, 0⟩ ⟨15, 1, 3⟩ ⟨4, 0, 4⟩ ⟨0, 1, 3⟩] }
  blocks := [{
    id := 1000
    name := "inside"
    footprint := ⟨2, 2⟩
    graph := {
      id := 7
      nodes := [{ pos := ⟨4, 0, 4⟩, kind := 15 }, { pos := ⟨0, 0, 0⟩, kind := 252 }] } }]

theorem analyse_rearranged_scattered : ∃ c p, c.Made ∧ analyse c scattered = .ok p ∧
    p.nodes.size = 4 ∧ scattered.Rearranged c gathered ∧ analyse c gathered = .ok p := by
  have hsome : (Catalog.stock.bind fun c =>
      (scattered.blocks.foldlM Catalog.addCustom c).bind fun c =>
        (analyse c scattered).map fun p => (c, p)).toOption.any (fun found =>
          found.2.nodes.size = 4 ∧
          gathered.main.nodes.filter found.1.isLive = scattered.main.nodes.filter found.1.isLive ∧
          gathered.blocks.map (·.graph.nodes.filter found.1.isLive) =
            scattered.blocks.map (·.graph.nodes.filter found.1.isLive) ∧
          (found.1.find? 36).all fun b =>
            (b.terminalAt ⟨15, 1, 3⟩).all fun t => t.type ≠ .void) = true := by
    decide +kernel
  obtain ⟨c, found, hstocked, hfound, hfacts⟩ := Catalog.exists_stocked hsome
  obtain ⟨p, hp, rfl⟩ := Outcome.map_eq_ok.mp hfound
  obtain ⟨hsize, hnodes, hinner, hdata⟩ := of_decide_eq_true hfacts
  have hmain : scattered.main.Rearranged c gathered.main := by
    refine ⟨rfl, hnodes, fun _ => by decide, by decide, fun node terminal hcontrols => ?_⟩
    have hnumber : ¬((⟨0, 0, 0⟩ : Pos) = node ∧ (⟨15, 1, 3⟩ : Pos) = terminal) := by
      rintro ⟨rfl, rfl⟩
      obtain ⟨b, t, hfind, hvoid, ⟨hout, -⟩ | ⟨-, decl, hmem, hpos, hfound⟩⟩ := hcontrols
      · exact absurd hout (by decide)
      · simp only [scattered, List.mem_cons, List.not_mem_nil, or_false] at hmem
        rcases hmem with rfl | rfl | rfl | rfl | rfl
        · simp [hfound, hfind, hvoid] at hdata
        all_goals exact absurd hpos (by decide)
    by_cases hafter : (⟨4, 0, 4⟩ : Pos) = node ∧ (⟨3, 1, 0⟩ : Pos) = terminal
    all_goals simp [scattered, gathered, Graph.leaving, Connection.between, Connection.plain,
      hnumber, hafter]
  have hinside : List.Forall₂ (fun b b' => b.graph.Rearranged c b'.graph)
      scattered.blocks gathered.blocks :=
    .cons ⟨rfl, (List.cons.inj hinner).1, fun _ => by decide, by decide, fun _ _ _ => rfl⟩ .nil
  have hd : scattered.Rearranged c gathered := ⟨hmain, hinside⟩
  exact ⟨c, p, hstocked.made, hp, hsize, hd, analyse_rearranged hstocked.made hp hd⟩

end Program
end SignalGraph
