import SignalGraph.Proofs.Analysis.Expansion.Worklist

/-!
# The order of environments

The environments of a program are the graphs that custom blocks stand for, each before those of the
blocks in it, and these before that of the next block.  Built-in nodes are numbered in the order of
their environments.

Main statement: environments and nodes are what the recursive definition makes of the document, and
the worklist arrives at the same.
-/

namespace SignalGraph

/-- The custom blocks among nodes, in order: the position of each, its graph, the blocks in that,
and the blocks after it. -/
inductive Forest where
  | nil
  | cons (pos : Pos) (graph : Graph) (below rest : Forest)

namespace Forest

/-- The custom blocks among the nodes of a graph, with those inside them. -/
inductive Of (c : Catalog) (d : Document) : List NodeDecl → Forest → Prop
  | nil : Of c d [] nil
  | skip {decl : NodeDecl} {rest : List NodeDecl} {block : Block} {f : Forest} :
    c.find? decl.kind = some block → (∀ id, block.template ≠ .custom id) → Of c d rest f →
    Of c d (decl :: rest) f
  | cons {decl : NodeDecl} {rest : List NodeDecl} {block : Block} {id : GraphId} {inner : Graph}
    {below f : Forest} :
    c.find? decl.kind = some block → block.template = .custom id → d.graph? id = some inner →
    Of c d inner.nodes below → Of c d rest f → Of c d (decl :: rest) (cons decl.pos inner below f)

def size : Forest → Nat
  | nil => 0
  | cons _ _ below rest => below.size + 1 + rest.size

/-- The graphs that the blocks of an environment expand to, numbered from `first` on. -/
def preorder : (env first : EnvId) → Forest → List Pending
  | _, _, nil => []
  | env, first, cons pos graph below rest =>
    ⟨graph, some (env, pos)⟩ ::
      (preorder first (first + 1) below ++ preorder env (first + (below.size + 1)) rest)

theorem length_preorder : ∀ (f : Forest) (env first : EnvId), (f.preorder env first).length = f.size
  | nil, _, _ => rfl
  | cons _ _ below rest, env, first => by
    rw [preorder, List.length_cons, List.length_append, length_preorder below,
      length_preorder rest, size]
    omega

variable {c : Catalog} {d : Document}

/-- A graph has one instantiation. -/
theorem Of.unique {nodes : List NodeDecl} {f f' : Forest} (h : Of c d nodes f)
    (h' : Of c d nodes f') :
    f = f' := by
  induction h generalizing f' with
  | nil => cases h'; rfl
  | skip hfind hplain _ ih =>
    cases h' with
    | skip _ _ hrest => exact ih hrest
    | cons hfind' hcustom =>
      cases hfind.symm.trans hfind'
      exact absurd hcustom (hplain _)
  | cons hfind hcustom hgraph _ _ ihbelow ih =>
    cases h' with
    | skip hfind' hplain' =>
      cases hfind.symm.trans hfind'
      exact absurd hcustom (hplain' _)
    | cons hfind' hcustom' hgraph' hbelow hrest =>
      cases hfind.symm.trans hfind'
      cases hcustom.symm.trans hcustom'
      cases hgraph.symm.trans hgraph'
      rw [ihbelow hbelow, ih hrest]

end Forest

/-- The environments of graphs in a row: each counts those of its graph before it. -/
def Pending.environments (copies : List Pending) : List Environment :=
  copies.zipIdx.map fun (next, env) => {
    graph := next.graph.id
    copy := (copies.take env).countP fun before => before.graph.id = next.graph.id
    parent := next.parent }

/-- A built-in node as it is declared: its environment, its position, its block and what that
does. -/
def NodeDecl.builtin? (c : Catalog) (env : EnvId) (decl : NodeDecl) :
    Option (EnvId × Pos × KindId × Kind) := do
  let block ← c.find? decl.kind
  match block.template with
  | .builtin kind => some (env, decl.pos, decl.kind, kind)
  | _ => none

def Member.builtin? (env : EnvId) (m : Member) : Option (EnvId × Pos × KindId × Kind) :=
  m.kind?.map fun kind => (env, m.decl.pos, m.block.id, kind)

def Node.builtin (n : Node) : EnvId × Pos × KindId × Kind := (n.env, n.pos, n.block, n.kind)

/-- The built-in nodes of graphs in a row, each graph's in their order. -/
def Pending.builtins (c : Catalog) (copies : List Pending) : List (EnvId × Pos × KindId × Kind) :=
  copies.zipIdx.flatMap fun (next, env) => next.graph.nodes.filterMap (NodeDecl.builtin? c env)

def Scope.origin (s : Scope) : Pending where
  graph :=
    { id := s.environment.graph, nodes := s.members.map (·.decl), connections := s.connections }
  parent := s.environment.parent

namespace Expansion

variable {c : Catalog} {d : Document} {x : Expansion}

section

variable {depth : Nat} {known : List GraphId} {env : EnvId} {f : List Scope → Member →
  Except Fault (List Scope)}
  (hskip : ∀ {mid : List Scope} {m : Member}, m.graph? >>= d.graph? = none → f mid m = .ok mid)
  (hinto : ∀ {mid : List Scope} {m : Member} {inner : Graph}, m.graph? >>= d.graph? = some inner →
    f mid m = expandGraph c d depth known mid inner (some (env, m.decl.pos)))
include hskip hinto

/-- The environments that the nodes of one add are those of their blocks in order. -/
theorem forest_of_foldlM
    (hexpand : ∀ {mid after : List Scope} {graph : Graph} {parent : Option (EnvId × Pos)},
      expandGraph c d depth known mid graph parent = .ok after →
        ∃ below more, Forest.Of c d graph.nodes below ∧ after = mid ++ more ∧
          more.map Scope.origin = ⟨graph, parent⟩ :: below.preorder mid.length (mid.length + 1)) :
    ∀ {ms : List Member} {mid after : List Scope}, ms.foldlM f mid = .ok after →
      (∀ m ∈ ms, c.find? m.decl.kind = some m.block) →
      (∀ m ∈ ms, ∀ g, m.graph? = some g → (d.graph? g).isSome) →
        ∃ forest more, Forest.Of c d (ms.map (·.decl)) forest ∧ after = mid ++ more ∧
          more.map Scope.origin = forest.preorder env mid.length := by
  intro ms
  induction ms with
  | nil =>
    intro mid after h _ _
    cases h
    exact ⟨.nil, [], .nil, by rw [List.append_nil], rfl⟩
  | cons m ms ih =>
    intro mid after h hblock hknown
    rw [List.foldlM_cons] at h
    obtain ⟨mid', hmid, h⟩ := Outcome.bind_eq_ok.mp h
    have hfind := hblock m List.mem_cons_self
    obtain ⟨rest, more, hrest, rfl, horigins⟩ :=
      ih h (fun m' hm => hblock m' (List.mem_cons_of_mem m hm))
      fun m' hm => hknown m' (List.mem_cons_of_mem m hm)
    cases hg : m.graph? with
    | none =>
      cases (hskip (by rw [hg]; rfl)).symm.trans hmid
      refine ⟨rest, more, .skip hfind (fun id hid => ?_) hrest, rfl, horigins⟩
      rw [Member.graph?, hid] at hg
      cases hg
    | some g =>
      obtain ⟨inner, hinner⟩ := Option.isSome_iff_exists.mp (hknown m List.mem_cons_self g hg)
      obtain ⟨below, first, hbelow, rfl, hfirst⟩ :=
        hexpand ((hinto (by rw [hg]; exact hinner)).symm.trans hmid)
      have hlen : (mid ++ first).length = mid.length + (below.size + 1) := by
        have hcount := congrArg List.length hfirst
        rw [List.length_map, List.length_cons, Forest.length_preorder] at hcount
        rw [List.length_append, hcount]
      refine ⟨.cons m.decl.pos inner below rest, first ++ more,
        .cons hfind (Member.template_of_graph? hg)
        hinner hbelow hrest, by rw [List.append_assoc], ?_⟩
      rw [List.map_append, hfirst, horigins, hlen]
      rfl

end

theorem forest_of_expandGraph :
    ∀ (depth : Nat) (enclosing : List GraphId) {before after : List Scope}
    {graph : Graph} {parent : Option (EnvId × Pos)},
    expandGraph c d depth enclosing before graph parent = .ok after →
      ∃ below more, Forest.Of c d graph.nodes below ∧ after = before ++ more ∧
        more.map Scope.origin =
          ⟨graph, parent⟩ :: below.preorder before.length (before.length + 1) := by
  intro depth
  induction depth with
  | zero => exact fun _ _ _ _ _ h => nomatch h
  | succ depth ih =>
    intro enclosing before after graph parent h
    obtain ⟨ms, hms⟩ := Worklist.members_of_expandGraph h
    obtain ⟨hdecls, hknown⟩ := map_decl_members hms
    obtain ⟨f, hexpand, hskip, hinto⟩ := Worklist.expandGraph_succ depth parent hms
    obtain ⟨below, more, hbelow, rfl, horigins⟩ := forest_of_foldlM hskip hinto (ih _)
      (hexpand.symm.trans h) (members_fit hms).2.2.2 fun m hm g hg => (hknown m hm g hg).1
    have horigin : (Scope.ofGraph before ⟨graph, parent⟩ ms).origin = ⟨graph, parent⟩ := by
      rw [Scope.origin, Scope.ofGraph, hdecls]
    refine ⟨below, .ofGraph before ⟨graph, parent⟩ ms :: more, hdecls ▸ hbelow, by simp, ?_⟩
    rw [List.map_cons, horigin, horigins, List.length_append]
    rfl

theorem origins_ofDocument (h : ofDocument c d = .ok x) : ∃ f, Forest.Of c d d.main.nodes f ∧
    x.scopes.map Scope.origin = ⟨d.main, none⟩ :: f.preorder 0 1 := by
  obtain ⟨scopes, hscopes, h⟩ := Outcome.bind_eq_ok.mp h
  cases h
  obtain ⟨f, more, hf, rfl, horigins⟩ := forest_of_expandGraph _ _ hscopes
  exact ⟨f, hf, horigins⟩

/-- Every environment counts those of its graph before it. -/
def Counted (scopes : List Scope) : Prop :=
  ∀ env s, scopes[env]? = some s →
    s.environment.copy = (scopes.take env).countP fun t => t.environment.graph = s.environment.graph

theorem counted_visit {scopes : List Scope} {next : Pending} {s : Scope} (h : Counted scopes)
    (hvisit : Worklist.visit c d scopes next = .ok s) : Counted (scopes ++ [s]) := by
  obtain ⟨ms, -, rfl⟩ := Worklist.visit_eq_ok hvisit
  intro env t ht
  rcases of_getElem?_snoc ht with ⟨hlt, ht⟩ | ⟨rfl, rfl⟩
  · rw [List.take_append_of_le_length (Nat.le_of_lt hlt)]
    exact h env t ht
  · rw [List.take_left]
    rfl

theorem map_environment {scopes : List Scope} (h : Counted scopes) :
    scopes.map (·.environment) = Pending.environments (scopes.map Scope.origin) := by
  refine List.ext_getElem? fun i => ?_
  rw [Pending.environments, List.getElem?_map, List.getElem?_map, List.getElem?_zipIdx,
    List.getElem?_map]
  cases hs : scopes[i]? with
  | none => rfl
  | some s =>
    have hcopy : ((scopes.map Scope.origin).take i).countP
      (fun before => before.graph.id = s.environment.graph) =
        s.environment.copy := by
      rw [h i s hs, ← List.map_take, List.countP_map]
      rfl
    simp only [Option.map_some, Nat.zero_add, Option.some.injEq]
    exact (congrArg (Environment.mk s.environment.graph · s.environment.parent) hcopy).symm

/-- The built-in nodes of all environments as they are declared. -/
theorem builtins_origin (hfit : ScopesFit c x.scopes) :
    Pending.builtins c (x.scopes.map Scope.origin) =
      x.instances.filterMap fun i => i.2.builtin? i.1 := by
  unfold Pending.builtins instances
  rw [List.zipIdx_map, List.flatMap_map, List.filterMap_flatMap]
  refine List.flatMap_congr fun i hi => ?_
  obtain ⟨s, env⟩ := i
  have hblock := (hfit env s (List.mem_zipIdx_iff_getElem?.mp hi)).block
  rw [List.filterMap_map, List.filterMap_filter]
  refine (List.filterMap_map ..).trans (List.filterMap_congr fun m hm => ?_)
  have hfind := hblock m hm
  have hid : m.block.id = m.decl.kind := by simpa using List.find?_some hfind
  simp only [Function.comp_apply, NodeDecl.builtin?, hfind, Option.bind_eq_bind, Option.bind_some,
    Member.isBuiltin,
    Member.builtin?, Member.kind?, hid]
  cases m.block.template <;> rfl

end Expansion

namespace Program

open Expansion

variable {c : Catalog} {d : Document} {p : Program}

/-- The nodes of a program are the built-in nodes of its environments. -/
theorem map_builtin_of_all {x : Expansion} {vars : List Variable} {built : List (Node × Bool)}
    (hall : Nodes.all x vars = .ok built) (points : List MemoPoint) :
    (Sharing.assignSlots 0 (Sharing.tag points (Nodes.nameInspected vars (built.map (·.1))))).map
      Node.builtin =
      x.instances.filterMap fun i => i.2.builtin? i.1 := by
  have hmap : (Sharing.assignSlots 0
    (Sharing.tag points (Nodes.nameInspected vars (built.map (·.1))))).map
      (fun n => some n.builtin) = x.instances.map fun i => i.2.builtin? i.1 := by
    refine List.ext_getElem? fun i => ?_
    rw [List.getElem?_map, List.getElem?_map]
    cases hi : x.instances[i]? with
    | none =>
      rw [List.getElem?_eq_none (by rw [length_of_all hall]; exact List.getElem?_eq_none_iff.mp hi)]
      rfl
    | some found =>
      obtain ⟨env, m⟩ := found
      obtain ⟨k, n, _, constant, hk, hn, hget, -, -, -, hfinished⟩ := finished_of_all hall points hi
      obtain ⟨_, n', _, -, hbuild, -, hget'⟩ := (Nodes.build_of_all hall).2 i env m hi
      cases hget.symm.trans hget'
      have hblock : n.block = m.block.id := by
        unfold Nodes.build at hbuild
        obtain ⟨_, -, hbuild⟩ := Outcome.bind_eq_ok.mp hbuild
        obtain ⟨_, -, hbuild⟩ := Outcome.bind_eq_ok.mp hbuild
        obtain ⟨_, -, hbuild⟩ := Outcome.bind_eq_ok.mp hbuild
        cases hbuild
        rfl
      rw [hfinished, Option.map_some, Option.map_some, Member.builtin?, hk, Option.map_some,
        Node.builtin,
        Sharing.finished, hn.environment, hn.position, hn.kind, hblock]
  have hfilter := congrArg (List.filterMap id) hmap
  rw [List.filterMap_map, List.filterMap_map] at hfilter
  exact (congrFun List.filterMap_eq_map _).symm.trans hfilter

/-- The environments of a program are the graphs that its custom blocks stand for, in preorder, and
its nodes are the built-in ones of those graphs in the same order.  The worklist makes the same
environments. -/
theorem preorder_of_analyse (h : analyse c d = .ok p) : ∃ f copies, Forest.Of c d d.main.nodes f ∧
    (∀ f', Forest.Of c d d.main.nodes f' → f' = f) ∧ copies = ⟨d.main, none⟩ :: f.preorder 0 1 ∧
    p.environments = Pending.environments copies ∧
    p.nodes.toList.map Node.builtin = Pending.builtins c copies ∧
    ∃ used scopes, scopes.map (·.environment) = p.environments ∧
      ∀ steps, Worklist.run c d (used + steps) [] [⟨d.main, none⟩] = some (.ok scopes) := by
  obtain ⟨x, built, volatile, hx, -, hbuilt, -, -, rfl⟩ := analyse_eq_ok.mp h
  obtain ⟨f, hf, horigins⟩ := origins_ofDocument hx
  obtain ⟨used, hused⟩ := Worklist.run_ofDocument c d
  rw [hx] at hused
  have hcounted : Counted x.scopes := ofDocument_induct hx (fun _ _ hs => nomatch hs) counted_visit
  refine ⟨f, _, hf, fun f' hf' => hf'.unique hf, rfl, ?_, ?_, used, x.scopes, rfl, hused⟩
  · rw [← horigins]
    exact map_environment hcounted
  · rw [← horigins, builtins_origin (scopesFit_ofDocument hx)]
    exact map_builtin_of_all hbuilt _

/-- A block that is used twice, with another inside, among built-in nodes and a comment. -/
def repeated : Document where
  main := {
    id := 0
    nodes := [{ pos := ⟨0, 0, 0⟩, kind := 15 }, { pos := ⟨4, 0, 4⟩, kind := 1000 },
      { pos := ⟨8, 0, 8⟩, kind := 252 }, { pos := ⟨12, 0, 12⟩, kind := 1000 }] }
  blocks := [
    { id := 1000, name := "outer", footprint := ⟨2, 2⟩
      graph := {
        id := 7
        nodes := [{ pos := ⟨0, 0, 0⟩, kind := 1001 }, { pos := ⟨4, 0, 4⟩, kind := 256 }] } },
    { id := 1001, name := "inner", footprint := ⟨2, 2⟩
      graph := { id := 8, nodes := [{ pos := ⟨0, 0, 0⟩, kind := 260 }] } }]

theorem preorder_of_analyse_repeated : ∃ c p, analyse c repeated = .ok p ∧
    p.environments = [{ graph := 0, copy := 0, parent := none },
      { graph := 7, copy := 0, parent := some (0, ⟨4, 0, 4⟩) },
      { graph := 8, copy := 0, parent := some (1, ⟨0, 0, 0⟩) },
      { graph := 7, copy := 1, parent := some (0, ⟨12, 0, 12⟩) },
      { graph := 8, copy := 1, parent := some (3, ⟨0, 0, 0⟩) }] ∧
    p.nodes.toList.map Node.builtin = [(0, ⟨8, 0, 8⟩, 252, .effect .win),
      (1, ⟨4, 0, 4⟩, 256, .effect .lose), (2, ⟨0, 0, 0⟩, 260, .effect .setScore),
      (3, ⟨4, 0, 4⟩, 256, .effect .lose), (4, ⟨0, 0, 0⟩, 260, .effect .setScore)] ∧
    ∃ used scopes, scopes.map (·.environment) = p.environments ∧
      ∀ steps, Worklist.run c repeated (used + steps) [] [⟨repeated.main, none⟩] =
        some (.ok scopes) := by
  have hsome : (Catalog.stock.bind fun c =>
      (repeated.blocks.foldlM Catalog.addCustom c).bind fun c =>
        (analyse c repeated).map fun p => (c, p)).toOption.any (fun found =>
          [15, 252, 256, 260, 1000, 1001].map (fun kind => (found.1.find? kind).map (·.template)) =
            [some .inert, some (.builtin (.effect .win)), some (.builtin (.effect .lose)),
              some (.builtin (.effect .setScore)), some (.custom 7), some (.custom 8)]) =
      true := by
    decide +kernel
  obtain ⟨c, found, -, hfound, htemplates⟩ := Catalog.exists_stocked hsome
  obtain ⟨p, hp, rfl⟩ := Outcome.map_eq_ok.mp hfound
  have hlookup : ∀ {kind : KindId} {t : Template}, (c.find? kind).map (·.template) = some t →
      ∃ block, c.find? kind = some block ∧ block.template = t := Option.map_eq_some_iff.mp
  simp only [List.map_cons, List.map_nil, List.cons.injEq, decide_eq_true_eq, and_true]
    at htemplates
  obtain ⟨hcomment, hwin, hlose, hscore, houter, hinner⟩ := htemplates
  obtain ⟨comment, hcomment, hinert⟩ := hlookup hcomment
  obtain ⟨win, hwin, hwins⟩ := hlookup hwin
  obtain ⟨lose, hlose, hloses⟩ := hlookup hlose
  obtain ⟨score, hscore, hscores⟩ := hlookup hscore
  obtain ⟨outer, houter, hseven⟩ := hlookup houter
  obtain ⟨inner, hinner, height⟩ := hlookup hinner
  have hplain : ∀ {block : Block} {kind : Kind}, block.template = .builtin kind →
      ∀ id, block.template ≠ .custom id := by
    intro block kind h id
    rw [h]
    exact Template.noConfusion
  have hbelow : Forest.Of c repeated
      [{ pos := ⟨0, 0, 0⟩, kind := 1001 }, { pos := ⟨4, 0, 4⟩, kind := 256 }] _ :=
    .cons hinner height rfl (.skip hscore (hplain hscores) .nil) (.skip hlose (hplain hloses) .nil)
  have hforest : Forest.Of c repeated repeated.main.nodes _ :=
    .skip hcomment (by rw [hinert]; exact fun _ => Template.noConfusion)
      (.cons houter hseven rfl hbelow
        (.skip hwin (hplain hwins) (.cons houter hseven rfl hbelow .nil)))
  obtain ⟨f, copies, -, honly, rfl, henvs, hnodes, hrun⟩ := preorder_of_analyse hp
  cases honly _ hforest
  refine ⟨c, p, hp, henvs, ?_, hrun⟩
  rw [hnodes]
  simp [Pending.builtins, NodeDecl.builtin?, Forest.preorder, Forest.size, repeated, hcomment,
    hinert, hwin, hwins, hlose, hloses, hscore, hscores, houter, hseven, hinner, height]

end Program
end SignalGraph
