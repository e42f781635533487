import Mathlib.Data.List.Forall2
import Mathlib.Data.List.Perm.Basic
import SignalGraph.Proofs.Analysis.Expansion.Worklist

/-!
# Rearranged documents

What may change in a document without a meaning: comments, the order of wires, and the record of
what a wire crosses.  Only where control leaves a terminal by several wires does their order count.
A rearranged document expands to the same environments, but for the comments and the order of the
wires in them.
-/

namespace SignalGraph

def Connection.plain (w : Connection) : Connection := { w with crossing := false }

def Catalog.isLive (c : Catalog) (decl : NodeDecl) : Bool :=
  (c.find? decl.kind).all fun b => b.template ≠ .inert

namespace Graph

/-- Control runs along the wires that leave the terminal: it is one of a node, or, at the outside,
one of a block that stands for the graph. -/
def Controls (c : Catalog) (g : Graph) (node terminal : Pos) : Prop :=
  ∃ b t, b.terminalAt terminal = some t ∧ t.type = .void ∧
    ((node = .outside ∧ b ∈ c.blocks ∧ b.template = .custom g.id) ∨
      (node ≠ .outside ∧ ∃ decl ∈ g.nodes, decl.pos = node ∧ c.find? decl.kind = some b))

def leaving (g : Graph) (node terminal : Pos) : List Connection :=
  (g.connections.filter fun w => w.source = node ∧ w.sourceTerminal = terminal).map Connection.plain

/-- The second graph is the first one with other comments, none of them where another node is, and
with its wires in another order, which is the same for the wires that control leaves a terminal
by. -/
structure Rearranged (c : Catalog) (g g' : Graph) : Prop where
  id : g'.id = g.id
  nodes : g'.nodes.filter c.isLive = g.nodes.filter c.isLive
  free : (g.nodes.map (·.pos)).Nodup → (g'.nodes.map (·.pos)).Nodup
  wires : (g'.connections.map Connection.plain).Perm (g.connections.map Connection.plain)
  order : ∀ node terminal, g.Controls c node terminal →
    g'.leaving node terminal = g.leaving node terminal

end Graph

/-- The graphs of the second document are those of the first one, rearranged. -/
structure Document.Rearranged (c : Catalog) (d d' : Document) : Prop where
  main : d.main.Rearranged c d'.main
  blocks : List.Forall₂ (fun b b' => b.graph.Rearranged c b'.graph) d.blocks d'.blocks

def Member.isLive (m : Member) : Bool := m.block.template ≠ .inert

structure Scope.Rearranged (c : Catalog) (s s' : Scope) : Prop where
  environment : s'.environment = s.environment
  members : s'.members.filter Member.isLive = s.members.filter Member.isLive
  graphs : ∃ g g', s.Copies g ∧ s'.Copies g' ∧ g.Rearranged c g'

namespace Expansion

variable {c : Catalog} {d d' : Document}

/-- The members that nodes become, the first of which is numbered `id` if it is built in. -/
def enlist (c : Catalog) : NodeId → List NodeDecl → List Member
  | _, [] => []
  | id, decl :: rest =>
    match c.find? decl.kind with
    | none => enlist c id rest
    | some block =>
      { decl, block, id } :: enlist c
        (if Member.isBuiltin { decl, block, id } then id + 1 else id) rest

def Admits (c : Catalog) (d : Document) (enclosing : List GraphId) (decl : NodeDecl) : Prop :=
  ∃ block, c.find? decl.kind = some block ∧
    ∀ g, block.template = .custom g → (d.graph? g).isSome ∧ g ∉ enclosing

theorem graph?_eq_some {m : Member} {g : GraphId} :
    m.graph? = some g ↔ m.block.template = .custom g := by
  refine ⟨Member.template_of_graph?, fun h => ?_⟩
  rw [Member.graph?, h]

theorem admitted_of_members {graph : GraphId} {enclosing : List GraphId} : ∀ {decls : List NodeDecl}
    {id : NodeId} {seen : List Pos} {ms : List Member},
    members c d graph enclosing id seen decls = .ok ms →
      (∀ decl ∈ decls, Admits c d enclosing decl) ∧ ms = enlist c id decls
  | [], _, _, ms, h => by
    cases h
    exact ⟨fun _ hmem => absurd hmem List.not_mem_nil, rfl⟩
  | decl :: rest, id, seen, ms, h => by
    obtain ⟨block, more, hfind, -, hknown, hmore, rfl⟩ := members_cons h
    obtain ⟨hadmits, rfl⟩ := admitted_of_members hmore
    refine ⟨List.forall_mem_cons.mpr ⟨⟨block, hfind, fun g hg => hknown g (graph?_eq_some.mpr hg)⟩,
      hadmits⟩, ?_⟩
    rw [enlist, hfind]

theorem members_of_admitted {graph : GraphId} {enclosing : List GraphId} : ∀ {decls : List NodeDecl}
    (id : NodeId) {seen : List Pos}, (∀ decl ∈ decls, Admits c d enclosing decl) →
    (decls.map (·.pos)).Nodup → (∀ decl ∈ decls, decl.pos ∉ seen) →
      members c d graph enclosing id seen decls = .ok (enlist c id decls)
  | [], _, _, _, _, _ => rfl
  | decl :: rest, id, seen, hadmits, hnodup, hfree => by
    obtain ⟨⟨block, hfind, hknown⟩, hadmits⟩ := List.forall_mem_cons.mp hadmits
    obtain ⟨hpos, hfree⟩ := List.forall_mem_cons.mp hfree
    obtain ⟨hother, hnodup⟩ := List.nodup_cons.mp hnodup
    have hfree' : ∀ other ∈ rest, other.pos ∉ decl.pos :: seen := fun other hmem => by
      rw [List.mem_cons, not_or]
      exact ⟨fun heq => hother (List.mem_map.mpr ⟨other, hmem, heq⟩), hfree other hmem⟩
    have hrest (next : NodeId) :
        members c d graph enclosing next (decl.pos :: seen) rest = .ok (enlist c next rest) :=
      members_of_admitted next hadmits hnodup hfree'
    have hseen : seen.contains decl.pos = false := by simpa using hpos
    rw [members, enlist, hfind]
    simp only [hrest, hseen]
    cases hg : Member.graph? { decl, block, id } with
    | none => rfl
    | some g =>
      obtain ⟨hsome, houtside⟩ := hknown g (graph?_eq_some.mp hg)
      have hcontains : enclosing.contains g = false := by simpa using houtside
      have hnone : (d.graph? g).isNone = false := by
        rw [Option.isNone_eq_false_iff]
        exact hsome
      simp only [hcontains, hnone]
      rfl

theorem filter_enlist : ∀ (decls : List NodeDecl) (id : NodeId),
    (enlist c id decls).filter Member.isLive = enlist c id (decls.filter c.isLive)
  | [], _ => rfl
  | decl :: rest, id => by
    cases hfind : c.find? decl.kind with
    | none =>
      have hkept : c.isLive decl = true := by simp [Catalog.isLive, hfind]
      rw [List.filter_cons_of_pos hkept, enlist, enlist, hfind]
      exact filter_enlist rest id
    | some block =>
      by_cases hinert : block.template = .inert
      · have hleft : ¬c.isLive decl = true := by simp [Catalog.isLive, hfind, hinert]
        rw [List.filter_cons_of_neg hleft, enlist, hfind]
        have hbuiltin : Member.isBuiltin { decl, block, id } = false := by
          simp [Member.isBuiltin, Member.kind?, hinert]
        simp only [hbuiltin]
        rw [List.filter_cons_of_neg (by simp [Member.isLive, hinert])]
        exact filter_enlist rest id
      · have hkept : c.isLive decl = true := by simp [Catalog.isLive, hfind, hinert]
        rw [List.filter_cons_of_pos hkept, enlist, enlist, hfind]
        dsimp only
        rw [List.filter_cons_of_pos (by simp [Member.isLive, hinert]), filter_enlist rest]

theorem filter_isBuiltin (ms : List Member) :
    (ms.filter Member.isLive).filter Member.isBuiltin = ms.filter Member.isBuiltin := by
  rw [List.filter_filter]
  refine List.filter_congr fun m _ => ?_
  unfold Member.isLive Member.isBuiltin Member.kind?
  cases m.block.template <;> simp

theorem find?_rearranged (id : GraphId) {blocks blocks' : List CustomBlock}
    (h : List.Forall₂ (fun b b' => b.graph.Rearranged c b'.graph) blocks blocks') :
    (blocks.find? (·.graph.id = id) = none → blocks'.find? (·.graph.id = id) = none) ∧
      ∀ b, blocks.find? (·.graph.id = id) = some b →
        ∃ b', blocks'.find? (·.graph.id = id) = some b' ∧ b.graph.Rearranged c b'.graph := by
  induction h with
  | nil => exact ⟨fun _ => rfl, fun b hb => by cases hb⟩
  | @cons b b' rest rest' hb _ ih =>
    by_cases hid : b.graph.id = id
    · have hid' : b'.graph.id = id := hb.id.trans hid
      rw [List.find?_cons_of_pos (by simpa using hid), List.find?_cons_of_pos (by simpa using hid')]
      refine ⟨(fun hnone => by cases hnone), fun found hfound => ?_⟩
      cases hfound
      exact ⟨b', rfl, hb⟩
    · have hid' : ¬b'.graph.id = id := fun heq => hid (hb.id.symm.trans heq)
      rw [List.find?_cons_of_neg (by simpa using hid), List.find?_cons_of_neg (by simpa using hid')]
      exact ih

theorem graph?_rearranged (hd : d.Rearranged c d') (id : GraphId) :
    (d.graph? id = none → d'.graph? id = none) ∧
      ∀ g, d.graph? id = some g → ∃ g', d'.graph? id = some g' ∧ g.Rearranged c g' := by
  obtain ⟨hnone, hsome⟩ := find?_rearranged id (List.forall₂_reverse_iff.mpr hd.blocks)
  constructor
  · intro h
    rw [Document.graph?, hnone (Option.map_eq_none_iff.mp h)]
    rfl
  · intro g h
    obtain ⟨b, hb, rfl⟩ := Option.map_eq_some_iff.mp h
    obtain ⟨b', hb', hgraph⟩ := hsome b hb
    exact ⟨b'.graph, by rw [Document.graph?, hb']; rfl, hgraph⟩

theorem builtins_rearranged {s s' : Scope} (h : s.Rearranged c s') :
    s'.members.filter Member.isBuiltin = s.members.filter Member.isBuiltin := by
  rw [← filter_isBuiltin, h.members, filter_isBuiltin]

theorem environments_congr {R : Scope → Scope → Prop}
    (hR : ∀ {s s'}, R s s' → s'.environment = s.environment)
    {scopes scopes' : List Scope} (h : List.Forall₂ R scopes scopes') :
    scopes'.map (·.environment) = scopes.map (·.environment) := by
  induction h with
  | nil => rfl
  | cons hs _ ih => rw [List.map_cons, List.map_cons, hR hs, ih]

section

variable {scopes scopes' : List Scope} (h : List.Forall₂ (Scope.Rearranged c) scopes scopes')
include h

theorem builtinCount_rearranged : builtinCount scopes' = builtinCount scopes := by
  unfold builtinCount
  induction h with
  | nil => rfl
  | cons hs _ ih =>
    rw [List.flatMap_cons, List.flatMap_cons, List.countP_append, List.countP_append, ih,
      List.countP_eq_length_filter, builtins_rearranged hs, ← List.countP_eq_length_filter]

theorem rearranged_ofGraph {graph graph' : Graph} (hgraph : graph.Rearranged c graph')
    (parent : Option (EnvId × Pos)) {ms ms' : List Member} (hdecls : ms.map (·.decl) = graph.nodes)
    (hdecls' : ms'.map (·.decl) = graph'.nodes)
    (hms : ms'.filter Member.isLive = ms.filter Member.isLive) :
    (Scope.ofGraph scopes ⟨graph, parent⟩ ms).Rearranged c
      (.ofGraph scopes' ⟨graph', parent⟩ ms') := by
  refine ⟨?_, hms, graph, graph', ⟨rfl, hdecls, rfl⟩, ⟨rfl, hdecls', rfl⟩, hgraph⟩
  have hcopy : ∀ (l : List Scope) (id : GraphId), l.countP (fun s => s.environment.graph = id) =
      (l.map (·.environment)).countP fun e => e.graph = id := fun l id => by
    rw [List.countP_map]
    rfl
  simp only [Scope.ofGraph, hgraph.id, hcopy, environments_congr Scope.Rearranged.environment h]

end

theorem members_rearranged (hd : d.Rearranged c d') {graph graph' : Graph}
    (hgraph : graph.Rearranged c graph')
    {enclosing : List GraphId} {id : NodeId} {ms : List Member}
    (h : members c d graph.id enclosing id [] graph.nodes = .ok ms) :
    ∃ ms', members c d' graph'.id enclosing id [] graph'.nodes = .ok ms' ∧
      ms'.filter Member.isLive = ms.filter Member.isLive := by
  obtain ⟨hadmits, rfl⟩ := admitted_of_members h
  have hpositions : (graph.nodes.map (·.pos)).Nodup := by
    obtain ⟨hdecls, -⟩ := map_decl_members h
    have hnodup := (members_fit h).2.1
    rw [← hdecls, List.map_map]
    exact hnodup
  have hadmits' : ∀ decl ∈ graph'.nodes, Admits c d' enclosing decl := by
    intro decl hmem
    cases hlive : c.isLive decl with
    | true =>
      have hmem' : decl ∈ graph'.nodes.filter c.isLive := List.mem_filter.mpr ⟨hmem, hlive⟩
      rw [hgraph.nodes] at hmem'
      obtain ⟨block, hfind, hknown⟩ := hadmits decl (List.mem_filter.mp hmem').1
      refine ⟨block, hfind, fun g hg => ?_⟩
      obtain ⟨hsome, houtside⟩ := hknown g hg
      obtain ⟨inner, hinner⟩ := Option.isSome_iff_exists.mp hsome
      obtain ⟨inner', hinner', -⟩ := (graph?_rearranged hd g).2 inner hinner
      exact ⟨Option.isSome_iff_exists.mpr ⟨inner', hinner'⟩, houtside⟩
    | false =>
      unfold Catalog.isLive at hlive
      cases hfind : c.find? decl.kind with
      | none => simp [hfind] at hlive
      | some block =>
        refine ⟨block, hfind, fun g hg => ?_⟩
        simp [hfind, hg] at hlive
  refine ⟨_, members_of_admitted id hadmits' (hgraph.free hpositions)
    (fun _ _ => List.not_mem_nil), ?_⟩
  rw [filter_enlist, filter_enlist, hgraph.nodes]

theorem expandGraph_rearranged (hd : d.Rearranged c d') : ∀ (depth : Nat) {enclosing : List GraphId}
    {before before' after : List Scope} {graph graph' : Graph} {parent : Option (EnvId × Pos)},
    expandGraph c d depth enclosing before graph parent = .ok after →
    List.Forall₂ (Scope.Rearranged c) before before' → graph.Rearranged c graph' →
      ∃ after', expandGraph c d' depth enclosing before' graph' parent = .ok after' ∧
        List.Forall₂ (Scope.Rearranged c) after after' := by
  intro depth
  induction depth with
  | zero => exact fun h _ _ => by cases h
  | succ depth ih =>
    intro enclosing before before' after graph graph' parent h hbefore hgraph
    obtain ⟨ms, hms⟩ := Worklist.members_of_expandGraph h
    obtain ⟨ms', hms', hlive⟩ := members_rearranged hd hgraph hms
    rw [← hgraph.id, ← builtinCount_rearranged hbefore] at hms'
    obtain ⟨f, hexpand, hskip, hinto⟩ := Worklist.expandGraph_succ depth parent hms
    obtain ⟨f', hexpand', hskip', hinto'⟩ := Worklist.expandGraph_succ depth parent hms'
    have hcomment : ∀ {m : Member} (d : Document), m.isLive = false →
      m.graph? >>= d.graph? = none := by
      intro m d hm
      have hinert : m.block.template = .inert := by simpa [Member.isLive] using hm
      rw [Member.graph?, hinert]
      rfl
    rw [hexpand, ← Outcome.foldlM_filter (f := f) (q := Member.isLive)
      fun _ _ hm => hskip (hcomment d hm)] at h
    rw [hexpand', ← Outcome.foldlM_filter (f := f') (q := Member.isLive)
      fun _ _ hm => hskip' (hcomment d' hm),
      hlive]
    have hscope := rearranged_ofGraph hbefore hgraph parent (map_decl_members hms).1
      (map_decl_members hms').1 hlive
    refine Outcome.foldlM_related h (List.rel_append hbefore (.cons hscope .nil)) ?_
    intro m _ mid result mid' hmid hstep
    cases hg : m.graph? with
    | none =>
      rw [hskip (by rw [hg]; rfl)] at hstep
      cases hstep
      exact ⟨mid', hskip' (by rw [hg]; rfl), hmid⟩
    | some g =>
      cases hinner : d.graph? g with
      | none =>
        rw [hskip (by rw [hg]; exact hinner)] at hstep
        cases hstep
        exact ⟨mid', hskip' (by rw [hg]; exact (graph?_rearranged hd g).1 hinner), hmid⟩
      | some inner =>
        obtain ⟨inner', hinner', hrearranged⟩ := (graph?_rearranged hd g).2 inner hinner
        rw [hinto (by rw [hg]; exact hinner)] at hstep
        rw [hinto' (by rw [hg]; exact hinner'), hgraph.id, ← hbefore.length_eq]
        exact ih hstep hmid hrearranged

/-- A rearranged document expands to rearranged environments. -/
theorem ofDocument_rearranged (hd : d.Rearranged c d') {x : Expansion}
    (h : ofDocument c d = .ok x) :
    ∃ x', ofDocument c d' = .ok x' ∧ List.Forall₂ (Scope.Rearranged c) x.scopes x'.scopes := by
  unfold ofDocument at h ⊢
  obtain ⟨scopes, hscopes, h⟩ := Outcome.bind_eq_ok.mp h
  cases h
  obtain ⟨scopes', hscopes', hrearranged⟩ := expandGraph_rearranged hd _ hscopes .nil hd.main
  rw [← hd.blocks.length_eq, hscopes']
  exact ⟨_, rfl, hrearranged⟩

end Expansion
end SignalGraph
