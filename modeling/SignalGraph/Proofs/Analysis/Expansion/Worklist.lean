import Mathlib.Logic.Relation
import SignalGraph.Analysis.Analyse
import SignalGraph.Proofs.Analysis.Realized
import SignalGraph.Proofs.Analysis.Tracing.Crossings

/-!
# The worklist of an expansion

Environments can be made one at a time.  A stack holds the graphs that wait; the graphs of the
custom blocks in the one that is taken come on top of it, in their order.  What encloses a graph is
then known only from the links between the environments that are there.

Main statement: the stack runs empty after the steps that the recursion takes, with the same
outcome.  No environment has the graph of one that it lies in, and a document where a graph leads
back to itself is refused.
-/

namespace SignalGraph

/-- A graph that waits for its environment, and the custom block that stands for it. -/
structure Pending where
  graph : Graph
  parent : Option (EnvId × Pos)

theorem Document.graph?_eq_some {d : Document} {id : GraphId} {g : Graph}
    (h : d.graph? id = some g) :
    g.id = id ∧ ∃ b ∈ d.blocks, b.graph = g := by
  obtain ⟨b, hb, rfl⟩ := Option.map_eq_some_iff.mp h
  exact ⟨by simpa using List.find?_some hb, b,
    List.mem_reverse.mp (List.mem_of_find?_eq_some hb), rfl⟩

namespace Expansion

/-- The graphs around a link, from the inside out.  A link leads to an earlier environment. -/
def lineage : (scopes : List Scope) → (parent : Option (EnvId × Pos)) → List GraphId
  | _, none => []
  | scopes, some (env, _) =>
    if h : env < scopes.length then
      scopes[env].environment.graph :: lineage (scopes.take env) scopes[env].environment.parent
    else []
termination_by scopes => scopes.length
decreasing_by
  rw [List.length_take]
  exact Nat.lt_of_le_of_lt (Nat.min_le_left env scopes.length) h

end Expansion

def Scope.ofGraph (before : List Scope) (next : Pending) (members : List Member) : Scope where
  environment := {
    graph := next.graph.id
    copy := before.countP fun s => s.environment.graph = next.graph.id
    parent := next.parent }
  members
  connections := next.graph.connections

namespace Worklist

open Expansion

def inside (d : Document) (env : EnvId) (ms : List Member) : List Pending :=
  ms.filterMap fun m => (m.graph? >>= d.graph?).map fun inner => ⟨inner, some (env, m.decl.pos)⟩

def visit (c : Catalog) (d : Document) (scopes : List Scope) (next : Pending) :
    Except Fault Scope := do
  let enclosing := next.graph.id :: lineage scopes next.parent
  return .ofGraph scopes next
    (← members c d next.graph.id enclosing (builtinCount scopes) [] next.graph.nodes)

/-- Takes graphs from the stack until it is empty, a graph is refused, or no step is left. -/
def run (c : Catalog) (d : Document) : (steps : Nat) → List Scope → (stack : List Pending) →
    Option (Except Fault (List Scope))
  | _, scopes, [] => some (.ok scopes)
  | 0, _, _ :: _ => none
  | steps + 1, scopes, next :: rest =>
    match visit c d scopes next with
    | .error fault => some (.error fault)
    | .ok s => run c d steps (scopes ++ [s]) (inside d scopes.length s.members ++ rest)

/-- The rest of a run, from what has come of its beginning. -/
def resume (c : Catalog) (d : Document) (steps : Nat) (rest : List Pending) :
    Except Fault (List Scope) → Option (Except Fault (List Scope))
  | .error fault => some (.error fault)
  | .ok scopes => run c d steps scopes rest

end Worklist

namespace Expansion

variable {c : Catalog} {d : Document} {x : Expansion}

/-! ## Links -/

theorem lineage_some {scopes : List Scope} {env : EnvId} {pos : Pos} {s : Scope}
    (h : scopes[env]? = some s) :
    lineage scopes (some (env, pos)) =
      s.environment.graph :: lineage (scopes.take env) s.environment.parent := by
  obtain ⟨hlt, rfl⟩ := List.getElem?_eq_some_iff.mp h
  rw [lineage, dif_pos hlt]

/-- Later environments are not on the way. -/
theorem lineage_append {scopes : List Scope} {env : EnvId} {pos : Pos} (h : env < scopes.length)
    (more : List Scope) :
    lineage (scopes ++ more) (some (env, pos)) = lineage scopes (some (env, pos)) := by
  have hget := List.getElem?_eq_getElem h
  rw [lineage_some hget, lineage_some ((List.getElem?_append_left h).trans hget),
    List.take_append_of_le_length (Nat.le_of_lt h)]

theorem parent?_eq (x : Expansion) (env : EnvId) :
    x.parent? env = (x.scopes.map (·.environment))[env]? >>= (·.parent) := by
  rw [parent?, List.getElem?_map]
  cases x.scopes[env]? <;> rfl

/-- An environment lies in another, and not in itself. -/
def Encloses (x : Expansion) (outer inner : EnvId) : Prop :=
  ∃ pos, x.parent? inner = some (outer, pos)

/-- All environments around one are on its way out. -/
theorem mem_lineage_of_encloses (hx : Descending x.scopes) {outer inner : EnvId} {s t : Scope}
    (hs : x.scopes[outer]? = some s) (ht : x.scopes[inner]? = some t)
    (h : Relation.TransGen x.Encloses outer inner) :
    s.environment.graph ∈ lineage (x.scopes.take inner) t.environment.parent := by
  induction h generalizing t with
  | single hup =>
    obtain ⟨pos, hup⟩ := hup
    obtain ⟨t', ht', hparent⟩ := exists_parent hup
    cases ht.symm.trans ht'
    have hlt := hx _ t _ pos ht hparent
    rw [hparent, lineage_some ((List.getElem?_take_of_lt hlt).trans hs)]
    exact List.mem_cons_self
  | tail _ hup ih =>
    obtain ⟨pos, hup⟩ := hup
    obtain ⟨t', ht', hparent⟩ := exists_parent hup
    cases ht.symm.trans ht'
    have hlt := hx _ t _ pos ht hparent
    have hmid := List.getElem?_eq_getElem (Nat.lt_trans hlt (List.getElem?_eq_some_iff.mp ht).1)
    rw [hparent, lineage_some ((List.getElem?_take_of_lt hlt).trans hmid), List.take_take,
      Nat.min_eq_left (Nat.le_of_lt hlt)]
    exact List.mem_cons_of_mem _ (ih hmid)

/-- No custom block stands for a graph that it lies in. -/
def Apart (scopes : List Scope) : Prop :=
  ∀ env s, scopes[env]? = some s → ∀ m ∈ s.members, ∀ g, m.graph? = some g →
    g ∉ s.environment.graph :: lineage (scopes.take env) s.environment.parent

theorem apart_snoc {scopes : List Scope} {s : Scope} (h : Apart scopes)
    (hs : ∀ m ∈ s.members, ∀ g, m.graph? = some g →
      g ∉ s.environment.graph :: lineage scopes s.environment.parent) : Apart (scopes ++ [s]) := by
  intro env t ht
  rcases of_getElem?_snoc ht with ⟨hlt, ht⟩ | ⟨rfl, rfl⟩
  · rw [List.take_append_of_le_length (Nat.le_of_lt hlt)]
    exact h env t ht
  · rw [List.take_left]
    exact hs

end Expansion

namespace Worklist

open Expansion

variable {c : Catalog} {d : Document}

theorem visit_eq_ok {scopes : List Scope} {next : Pending} {s : Scope}
    (h : visit c d scopes next = .ok s) :
    ∃ ms, members c d next.graph.id (next.graph.id :: lineage scopes next.parent)
      (builtinCount scopes) []
      next.graph.nodes = .ok ms ∧ s = .ofGraph scopes next ms := by
  obtain ⟨ms, hms, h⟩ := Outcome.bind_eq_ok.mp h
  cases h
  exact ⟨ms, hms, rfl⟩

/-- A step keeps custom blocks apart from what they lie in. -/
theorem apart_visit {scopes : List Scope} {next : Pending} {s : Scope} (h : Apart scopes)
    (hvisit : visit c d scopes next = .ok s) : Apart (scopes ++ [s]) := by
  obtain ⟨ms, hms, rfl⟩ := visit_eq_ok hvisit
  exact apart_snoc h fun m hm g hg => ((map_decl_members hms).2 m hm g hg).2

/-- What every step keeps holds at the end of a run. -/
theorem run_induct {P : List Scope → Prop} {after : List Scope}
    (hstep : ∀ {scopes : List Scope} {next : Pending} {s : Scope}, P scopes →
      visit c d scopes next = .ok s → P (scopes ++ [s])) :
    ∀ {steps : Nat} {scopes : List Scope} {stack : List Pending},
      run c d steps scopes stack = some (.ok after) → P scopes → P after := by
  intro steps
  induction steps with
  | zero =>
    intro scopes stack h hscopes
    cases stack with
    | nil =>
      cases h
      exact hscopes
    | cons next rest => exact nomatch h
  | succ steps ih =>
    intro scopes stack h hscopes
    cases stack with
    | nil =>
      cases h
      exact hscopes
    | cons next rest =>
      rw [run] at h
      cases hvisit : visit c d scopes next with
      | error fault =>
        rw [hvisit] at h
        exact nomatch h
      | ok s =>
        rw [hvisit] at h
        exact ih h (hstep hscopes hvisit)

/-! ## Runs -/

/-- The nesting may go deeper by fewer than `depth` graphs, as the others are known to be around. -/
def Room (d : Document) (depth : Nat) (known : List GraphId) : Prop :=
  d.blocks.countP (fun b => b.graph.id ∉ known) < depth

theorem Room.inside {depth : Nat} {known : List GraphId} {id : GraphId} {g : Graph}
    (h : Room d (depth + 1) known) (hfresh : id ∉ known) (hg : d.graph? id = some g) :
    Room d depth (g.id :: known) := by
  obtain ⟨rfl, b, hb, rfl⟩ := Document.graph?_eq_some hg
  have hlt : d.blocks.countP (fun b' => b'.graph.id ∉ b.graph.id :: known) <
      d.blocks.countP (fun b' => b'.graph.id ∉ known) := by
    refine countP_lt_countP hb (fun b' hb' => ?_) (by simp) (by simpa using hfresh)
    simp only [decide_eq_true_eq, List.mem_cons, not_or] at hb' ⊢
    exact hb'.2
  exact Nat.lt_of_lt_of_le hlt (Nat.le_of_lt_succ h)

/-- The custom blocks of an environment are done one after the other if each is done as a whole. -/
theorem run_inside {depth : Nat} {known : List GraphId} {env : EnvId}
    {f : List Scope → Member → Except Fault (List Scope)}
    (hskip : ∀ {mid : List Scope} {m : Member}, m.graph? >>= d.graph? = none → f mid m = .ok mid)
    (hinto : ∀ {mid : List Scope} {m : Member} {inner : Graph}, m.graph? >>= d.graph? = some inner →
      f mid m = expandGraph c d depth known mid inner (some (env, m.decl.pos)))
    (hroom : Room d (depth + 1) known)
    (hrun : ∀ (mid : List Scope) (next : Pending),
      Room d depth (next.graph.id :: lineage mid next.parent) →
      ∃ used, ∀ steps rest, run c d (used + steps) mid (next :: rest) = resume c d steps rest
        (expandGraph c d depth (lineage mid next.parent) mid next.graph next.parent)) :
    ∀ {ms : List Member} {mid : List Scope}, (∀ m ∈ ms, ∀ g, m.graph? = some g → g ∉ known) →
      env < mid.length → (∀ pos, lineage mid (some (env, pos)) = known) → ∃ used, ∀ steps rest,
        run c d (used + steps) mid (inside d env ms ++ rest) = resume c d steps rest
          (ms.foldlM f mid) := by
  intro ms
  induction ms with
  | nil => exact fun _ _ _ => ⟨0, fun steps rest => by rw [Nat.zero_add]; rfl⟩
  | cons m ms ih =>
    intro mid hfresh henv hknown
    have hfresh' := fun m' hm' => hfresh m' (List.mem_cons_of_mem m hm')
    cases hinner : m.graph? >>= d.graph? with
    | none =>
      obtain ⟨used, hused⟩ := ih hfresh' henv hknown
      refine ⟨used, fun steps rest => ?_⟩
      rw [List.foldlM_cons, hskip hinner, inside, List.filterMap_cons_none (by rw [hinner]; rfl)]
      exact hused steps rest
    | some inner =>
      obtain ⟨g, hg, hgraph⟩ := Option.bind_eq_some_iff.mp hinner
      have hdeeper := hroom.inside (hfresh m List.mem_cons_self g hg) hgraph
      obtain ⟨first, hfirst⟩ := hrun mid ⟨inner, some (env, m.decl.pos)⟩ (by rwa [hknown])
      rw [hknown, ← hinto hinner] at hfirst
      have hstack : ∀ rest, inside d env (m :: ms) ++ rest =
          ⟨inner, some (env, m.decl.pos)⟩ :: (inside d env ms ++ rest) := by
        intro rest
        rw [inside, List.filterMap_cons_some (by rw [hinner]; rfl)]
        rfl
      cases hexpand : f mid m with
      | error fault =>
        refine ⟨first, fun steps rest => ?_⟩
        rw [hstack, hfirst, List.foldlM_cons, hexpand]
        rfl
      | ok mid' =>
        obtain ⟨⟨more, rfl⟩, -⟩ :=
          grown_of_expandGraph _ _ _ _ _ _ ((hinto hinner).symm.trans hexpand)
        obtain ⟨second, hsecond⟩ := ih hfresh' (Nat.lt_of_lt_of_le henv (by simp))
          fun pos => (lineage_append henv more).trans (hknown pos)
        refine ⟨first + second, fun steps rest => ?_⟩
        rw [hstack, Nat.add_assoc, hfirst, List.foldlM_cons, hexpand]
        exact hsecond steps rest

/-- The recursion goes through the nodes of its first environment. -/
theorem expandGraph_succ (depth : Nat) {enclosing : List GraphId} {before : List Scope}
    {graph : Graph}
    (parent : Option (EnvId × Pos)) {ms : List Member}
    (hms : members c d graph.id (graph.id :: enclosing) (builtinCount before)
      [] graph.nodes = .ok ms) :
    ∃ f : List Scope → Member → Except Fault (List Scope),
      expandGraph c d (depth + 1) enclosing before graph parent =
        ms.foldlM f (before ++ [Scope.ofGraph before ⟨graph, parent⟩ ms]) ∧
      (∀ {mid : List Scope} {m : Member}, m.graph? >>= d.graph? = none → f mid m = .ok mid) ∧
      ∀ {mid : List Scope} {m : Member} {inner : Graph}, m.graph? >>= d.graph? = some inner →
        f mid m = expandGraph c d depth (graph.id :: enclosing) mid inner
          (some (before.length, m.decl.pos)) := by
  rw [expandGraph, hms]
  refine ⟨_, rfl, fun hnone => ?_, fun hsome => ?_⟩
  · rw [hnone]
  · rw [hsome]

theorem members_of_expandGraph {depth : Nat} {enclosing : List GraphId} {before after : List Scope}
    {graph : Graph}
    {parent : Option (EnvId × Pos)}
    (h : expandGraph c d (depth + 1) enclosing before graph parent = .ok after) :
    ∃ ms, members c d graph.id (graph.id :: enclosing) (builtinCount before)
      [] graph.nodes = .ok ms := by
  rw [expandGraph] at h
  obtain ⟨ms, hms, -⟩ := Outcome.bind_eq_ok.mp h
  exact ⟨ms, hms⟩

/-- A graph on top of the stack is done, with all that is in it, as the recursion does it. -/
theorem run_expandGraph : ∀ (depth : Nat) (scopes : List Scope) (next : Pending),
    Room d depth (next.graph.id :: lineage scopes next.parent) → ∃ used, ∀ steps rest,
      run c d (used + steps) scopes (next :: rest) = resume c d steps rest
        (expandGraph c d depth (lineage scopes next.parent) scopes next.graph next.parent) := by
  intro depth
  induction depth with
  | zero => exact fun _ _ h => absurd h (Nat.not_lt_zero _)
  | succ depth ih =>
    intro scopes next hroom
    cases hms : members c d next.graph.id (next.graph.id :: lineage scopes next.parent)
        (builtinCount scopes) [] next.graph.nodes with
    | error fault =>
      have hvisit : visit c d scopes next = .error fault := by
        rw [visit, hms]
        rfl
      refine ⟨1, fun steps rest => ?_⟩
      rw [Nat.add_comm, run, hvisit, expandGraph, hms]
      rfl
    | ok ms =>
      have hvisit : visit c d scopes next = .ok (.ofGraph scopes next ms) := by
        rw [visit, hms]
        rfl
      have hlineage : ∀ pos,
        lineage (scopes ++ [.ofGraph scopes next ms]) (some (scopes.length, pos)) =
          next.graph.id :: lineage scopes next.parent := by
        intro pos
        rw [lineage_some List.getElem?_concat_length, List.take_left]
        rfl
      obtain ⟨f, hexpand, hskip, hinto⟩ := expandGraph_succ depth next.parent hms
      obtain ⟨used, hused⟩ := run_inside hskip hinto hroom ih
        (fun m hm g hg => ((map_decl_members hms).2 m hm g hg).2) (by simp) hlineage
      refine ⟨used + 1, fun steps rest => ?_⟩
      rw [Nat.add_right_comm, run, hvisit, hexpand]
      exact hused steps rest

/-- The stack runs empty, or a graph is refused, as in the recursion. -/
theorem run_ofDocument (c : Catalog) (d : Document) : ∃ used, ∀ steps,
    run c d (used + steps) [] [⟨d.main, none⟩] = some ((ofDocument c d).map (·.scopes)) := by
  have hroom : Room d (d.blocks.length + 2) (d.main.id :: lineage [] none) :=
    Nat.lt_of_le_of_lt List.countP_le_length (by omega)
  obtain ⟨used, hused⟩ := run_expandGraph (c := c) _ [] ⟨d.main, none⟩ hroom
  refine ⟨used, fun steps => (hused steps []).trans ?_⟩
  rw [lineage, ofDocument]
  cases expandGraph c d (d.blocks.length + 2) [] [] d.main none with
  | error fault => rfl
  | ok scopes => cases steps <;> rfl

end Worklist

namespace Expansion

variable {c : Catalog} {d : Document} {x : Expansion}

/-- What holds of no environments, and is kept when one is added, holds of all that there are. -/
theorem ofDocument_induct {P : List Scope → Prop} (h : ofDocument c d = .ok x) (hnil : P [])
    (hstep : ∀ {scopes : List Scope} {next : Pending} {s : Scope}, P scopes →
      Worklist.visit c d scopes next = .ok s → P (scopes ++ [s])) : P x.scopes := by
  obtain ⟨used, hused⟩ := Worklist.run_ofDocument c d
  have hrun := hused 0
  rw [h] at hrun
  exact Worklist.run_induct hstep hrun hnil

theorem apart_ofDocument (h : ofDocument c d = .ok x) : Apart x.scopes :=
  ofDocument_induct h (fun _ _ hs => nomatch hs) Worklist.apart_visit

/-- No environment has the graph of one around it. -/
theorem graph_ne_of_encloses (h : ofDocument c d = .ok x) {outer inner : EnvId} {s t : Scope}
    (hs : x.scopes[outer]? = some s) (ht : x.scopes[inner]? = some t)
    (hlies : Relation.TransGen x.Encloses outer inner) :
    s.environment.graph ≠ t.environment.graph := by
  obtain ⟨parent, hout, pos, hup⟩ := Relation.TransGen.tail'_iff.mp hlies
  obtain ⟨m, g, inner', t', hm, hg, hgraph, ht', hcopies⟩ := custom_of_parent h hup
  cases ht.symm.trans ht'
  obtain ⟨-, u, hu, hmem⟩ := member_eq_ok hm
  have hapart := apart_ofDocument h parent u hu m hmem g hg
  rw [hcopies.graph, (Document.graph?_eq_some hgraph).1]
  rintro rfl
  refine hapart ?_
  rcases Relation.reflTransGen_iff_eq_or_transGen.mp hout with rfl | hlies
  · cases hs.symm.trans hu
    exact List.mem_cons_self
  · exact List.mem_cons_of_mem _ (mem_lineage_of_encloses (descending_ofDocument h) hs hu hlies)

/-- A node of a custom block is a member of every copy of its graph. -/
theorem exists_custom (h : ofDocument c d = .ok x) {env : EnvId} {s : Scope} {g : Graph}
    {decl : NodeDecl}
    {block : Block} {id : GraphId} (hs : x.scopes[env]? = some s) (hcopies : s.Copies g)
    (hdecl : decl ∈ g.nodes)
    (hfind : c.find? decl.kind = some block) (hcustom : block.template = .custom id) :
    ∃ m ∈ s.members, m.graph? = some id := by
  rw [← hcopies.nodes] at hdecl
  obtain ⟨m, hm, rfl⟩ := List.mem_map.mp hdecl
  have hblock := (scopesFit_ofDocument h env s hs).block m hm
  cases hfind.symm.trans hblock
  exact ⟨m, hm, by rw [Member.graph?, hcustom]⟩

end Expansion

/-- A graph that custom blocks lead to from the main graph, and the numbers of the graphs on the
way, the last first. -/
inductive Document.Instantiates (c : Catalog) (d : Document) : Graph → List GraphId → Prop
  | main : Instantiates c d d.main [d.main.id]
  | custom {g inner : Graph} {ids : List GraphId} {decl : NodeDecl} {block : Block} {id : GraphId} :
    Instantiates c d g ids → decl ∈ g.nodes → c.find? decl.kind = some block →
      block.template = .custom id →
    d.graph? id = some inner → Instantiates c d inner (id :: ids)

namespace Expansion

variable {c : Catalog} {d : Document} {x : Expansion}

/-- A graph that custom blocks lead to has a copy, in copies of the graphs on the way. -/
theorem exists_scope_of_instantiates (h : ofDocument c d = .ok x) {g : Graph} {ids : List GraphId}
    (hg : d.Instantiates c g ids) : ∃ env s, x.scopes[env]? = some s ∧ s.Copies g ∧
      ids = s.environment.graph :: lineage (x.scopes.take env) s.environment.parent := by
  induction hg with
  | main =>
    obtain ⟨root, hroot, hparent, hcopies, -⟩ := nested_ofDocument h
    exact ⟨0, root, hroot, hcopies, by rw [hparent, lineage, hcopies.graph]⟩
  | custom _ hdecl hfind hcustom hinner ih =>
    obtain ⟨env, s, hs, hcopies, rfl⟩ := ih
    obtain ⟨m, hm, hgraph⟩ := exists_custom h hs hcopies hdecl hfind hcustom
    obtain ⟨inner', child, t, hinner', hchild, ht, hcopies'⟩ := child_of_custom h hs hm hgraph
    cases hinner.symm.trans hinner'
    obtain ⟨t', ht', hparent⟩ := exists_parent (parent_of_child hchild)
    cases ht.symm.trans ht'
    have hlt := descending_ofDocument h child t env _ ht hparent
    refine ⟨child, t, ht, hcopies', ?_⟩
    rw [hcopies'.graph, (Document.graph?_eq_some hinner).1, hparent,
      lineage_some ((List.getElem?_take_of_lt hlt).trans hs), List.take_take,
      Nat.min_eq_left (Nat.le_of_lt hlt)]

end Expansion

namespace Worklist

open Expansion

/-- Expansion ends for every document, with the outcome of the recursion.  No environment has the
graph of one around it.  If custom blocks lead from the main graph to a node whose graph is on the
way, there is no program. -/
theorem ends_without_recursion (c : Catalog) (d : Document) :
    (∃ used, ∀ steps, run c d (used + steps) [] [⟨d.main, none⟩] =
      some ((ofDocument c d).map (·.scopes))) ∧
    (∀ {x : Expansion} {outer inner : EnvId} {s t : Scope}, ofDocument c d = .ok x →
      Relation.TransGen x.Encloses outer inner → x.scopes[outer]? = some s →
      x.scopes[inner]? = some t → s.environment.graph ≠ t.environment.graph) ∧
    ∀ {g : Graph} {ids : List GraphId} {decl : NodeDecl} {block : Block} {id : GraphId},
      d.Instantiates c g ids → decl ∈ g.nodes → c.find? decl.kind = some block →
      block.template = .custom id → id ∈ ids → ∃ fault, Program.analyse c d = .error fault := by
  refine ⟨run_ofDocument c d, fun h hlies hs ht => graph_ne_of_encloses h hs ht hlies, ?_⟩
  intro g ids decl block id hg hdecl hfind hcustom hid
  cases h : Program.analyse c d with
  | error fault => exact ⟨fault, rfl⟩
  | ok p =>
    obtain ⟨x, hx, -⟩ := Outcome.bind_eq_ok.mp h
    obtain ⟨env, s, hs, hcopies, rfl⟩ := exists_scope_of_instantiates hx hg
    obtain ⟨m, hm, hgraph⟩ := exists_custom hx hs hcopies hdecl hfind hcustom
    exact absurd hid (apart_ofDocument hx env s hs m hm id hgraph)

/-- A block in a block, with a node of any kind inside. -/
def nesting (inner : KindId) : Document where
  main := { id := 0, nodes := [{ pos := ⟨0, 0, 0⟩, kind := 1000 }] }
  blocks := [
    { id := 1000, name := "outer", footprint := ⟨2, 2⟩
      graph := { id := 7, nodes := [{ pos := ⟨4, 0, 4⟩, kind := 1001 }] } },
    { id := 1001, name := "inner", footprint := ⟨2, 2⟩
      graph := { id := 8, nodes := [{ pos := ⟨8, 0, 8⟩, kind := inner }] } }]

theorem exists_expansion_nesting : ∃ c x, ofDocument c (nesting 252) = .ok x ∧
    (∃ block, c.find? 1000 = some block ∧ block.template = .custom 7) ∧
    (∃ block, c.find? 1001 = some block ∧ block.template = .custom 8) ∧
    x.scopes.map (·.environment) = [{ graph := 0, copy := 0, parent := none },
      { graph := 7, copy := 0, parent := some (0, ⟨0, 0, 0⟩) },
      { graph := 8, copy := 0, parent := some (1, ⟨4, 0, 4⟩) }] := by
  have hsome : (Catalog.stock.bind fun c =>
    ((nesting 252).blocks.foldlM Catalog.addCustom c).bind fun c =>
      (ofDocument c (nesting 252)).map fun x => (c, x)).toOption.any (fun found =>
        (found.1.find? 1000).map (·.template) = some (.custom 7) ∧
        (found.1.find? 1001).map (·.template) = some (.custom 8) ∧
        found.2.scopes.map (·.environment) = [{ graph := 0, copy := 0, parent := none },
          { graph := 7, copy := 0, parent := some (0, ⟨0, 0, 0⟩) },
          { graph := 8, copy := 0, parent := some (1, ⟨4, 0, 4⟩) }]) = true := by
    decide +kernel
  obtain ⟨c, found, -, hfound, heq⟩ := Catalog.exists_stocked hsome
  obtain ⟨x, hx, rfl⟩ := Outcome.map_eq_ok.mp hfound
  obtain ⟨houter, hinner, henvs⟩ := of_decide_eq_true heq
  exact ⟨c, x, hx, Option.map_eq_some_iff.mp houter, Option.map_eq_some_iff.mp hinner, henvs⟩

/-- A block in a block, and the same where the inner one contains the outer. -/
theorem ends_without_recursion_nesting : ∃ c x, ofDocument c (nesting 252) = .ok x ∧
    Relation.TransGen x.Encloses 0 2 ∧
    (∀ s t, x.scopes[0]? = some s → x.scopes[2]? = some t →
      s.environment.graph ≠ t.environment.graph) ∧
    (nesting 1000).Instantiates c { id := 8, nodes := [{ pos := ⟨8, 0, 8⟩, kind := 1000 }] }
      [8, 7, 0] ∧
    ∃ fault, Program.analyse c (nesting 1000) = .error fault := by
  obtain ⟨c, x, hx, ⟨outer, houter, hseven⟩, ⟨inner, hinner, height⟩, henvs⟩ :=
    exists_expansion_nesting
  have houtside : x.Encloses 0 1 := ⟨⟨0, 0, 0⟩, by rw [parent?_eq, henvs]; rfl⟩
  have hinside : x.Encloses 1 2 := ⟨⟨4, 0, 4⟩, by rw [parent?_eq, henvs]; rfl⟩
  have hlies : Relation.TransGen x.Encloses 0 2 := .tail (.single houtside) hinside
  have hcircular : (nesting 1000).Instantiates c
      { id := 8, nodes := [{ pos := ⟨8, 0, 8⟩, kind := 1000 }] } [8, 7, 0] :=
    .custom (.custom .main List.mem_cons_self houter hseven rfl) List.mem_cons_self
      hinner height rfl
  refine ⟨c, x, hx, hlies,
    fun s t hs ht => (ends_without_recursion c (nesting 252)).2.1 hx hlies hs ht, hcircular, ?_⟩
  exact (ends_without_recursion c (nesting 1000)).2.2 hcircular List.mem_cons_self
    houter hseven (by simp)

end Worklist
end SignalGraph
