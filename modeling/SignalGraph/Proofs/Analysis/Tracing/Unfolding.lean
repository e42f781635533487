import SignalGraph.Proofs.Analysis.EntryPoints

/-!
# Unfolding

What a control output starts, read off the wires by recursion: a wire into a built-in block starts
it, and a wire to a boundary gives way to the wires on the other side.  The trace keeps one stack of
places in many environments instead.  It works off what it pushes for a boundary before it comes to
the next wire, so both list the same nodes in the same order.
-/

namespace SignalGraph
namespace Expansion

/-- The nodes that wires of one environment lead to, in the order of the wires. -/
inductive Unfolds (x : Expansion) : EnvId → List Connection → List NodeId → Prop
  | nil {env} : Unfolds x env [] []
  /-- A wire into a built-in block leads to its node. -/
  | builtin {env conn rest ids id m} : conn.target ≠ .outside →
      x.instances[id]? = some (env, m) → m.decl.pos = conn.target → Unfolds x env rest ids →
      Unfolds x env (conn :: rest) (id :: ids)
  /-- A wire into a custom block leads where its terminal leads inside. -/
  | enter {env conn rest ids child s inner} : conn.target ≠ .outside →
      x.scopes[child]? = some s → s.environment.parent = some (env, conn.target) →
      Unfolds x child (s.outgoing .outside conn.targetTerminal) inner → Unfolds x env rest ids →
      Unfolds x env (conn :: rest) (inner ++ ids)
  /-- A wire to the boundary leads where that terminal of the custom block leads outside. -/
  | leave {env conn rest ids s parent custom t outer} : conn.target = .outside →
      x.scopes[env]? = some s → s.environment.parent = some (parent, custom) →
      x.scopes[parent]? = some t →
      Unfolds x parent (t.outgoing custom conn.targetTerminal) outer → Unfolds x env rest ids →
      Unfolds x env (conn :: rest) (outer ++ ids)

variable {c : Catalog} {d : Document} {x : Expansion}

/-- The recursion has one outcome. -/
theorem Unfolds.unique (h : ofDocument c d = .ok x) {env : EnvId} {conns : List Connection}
    {ids ids' : List NodeId} (hu : x.Unfolds env conns ids) (hu' : x.Unfolds env conns ids') :
    ids = ids' := by
  have hup : ∀ {child : EnvId} {s : Scope} {env : EnvId} {pos : Pos}, x.scopes[child]? = some s →
      s.environment.parent = some (env, pos) → x.parent? child = some (env, pos) :=
    fun hs hparent => by simp [parent?, hs, hparent]
  induction hu generalizing ids' with
  | nil =>
    cases hu'
    rfl
  | builtin hne hi hpos _ ih =>
    cases hu' with
    | builtin _ hi' hpos' hrest =>
      rw [id_unique h hi hi' (hpos.trans hpos'.symm), ih hrest]
    | enter _ hs hparent _ _ =>
      rw [← hpos] at hparent
      exact absurd (hup hs hparent) (not_custom_of_instance h hi)
    | leave hout => exact absurd hout hne
  | enter hne hs hparent _ _ ihinner ih =>
    cases hu' with
    | builtin _ hi hpos _ =>
      rw [← hpos] at hparent
      exact absurd (hup hs hparent) (not_custom_of_instance h hi)
    | enter _ hs' hparent' hinner hrest =>
      have hchild := child_of_parent h (hup hs hparent)
      cases hchild.symm.trans (child_of_parent h (hup hs' hparent'))
      cases hs.symm.trans hs'
      rw [ihinner hinner, ih hrest]
    | leave hout => exact absurd hout hne
  | leave hout hs hparent ht _ _ ihouter ih =>
    cases hu' with
    | builtin hne => exact absurd hout hne
    | enter hne => exact absurd hout hne
    | leave _ hs' hparent' ht' houter hrest =>
      cases hs.symm.trans hs'
      cases hparent.symm.trans hparent'
      cases ht.symm.trans ht'
      rw [ihouter houter, ih hrest]

def place (env : EnvId) (conn : Connection) : Place := ⟨env, conn.target, conn.targetTerminal⟩

theorem targets_eq {env : EnvId} {s : Scope} (hs : x.scopes[env]? = some s) (node terminal : Pos) :
    x.targets ⟨env, node, terminal⟩ = (s.outgoing node terminal).map (place env) := by
  rw [targets, hs]
  rfl

/-- A walk lists what the first wires of its stack unfold to, and then walks the rest. -/
theorem unfolds_of_walk (hc : c.Made) (h : ofDocument c d = .ok x) {u : Unit}
    (hcheck : Wiring.check x = .ok u) (n : Nat) : ∀ {env : EnvId} {s : Scope}
      {conns : List Connection} {rest : List Place} {ids : List NodeId},
      x.scopes[env]? = some s → (∀ conn ∈ conns, conn ∈ s.connections) →
      x.Walk (conns.map (place env) ++ rest) n ids →
      ∃ k first second, k ≤ n ∧ ids = first ++ second ∧ x.Unfolds env conns first ∧
        x.Walk rest k second := by
  have hwires : ∀ {s : Scope} {node terminal : Pos}, ∀ conn ∈ s.outgoing node terminal,
      conn ∈ s.connections := fun conn hconn => (List.mem_filter.mp hconn).1
  -- the wires behind a boundary are walked first, and then fewer visits are left for the others
  induction n using Nat.strongRecOn with
  | _ n ih =>
    intro env s conns rest ids hs hconns hwalk
    match conns with
    | [] => exact ⟨n, [], ids, Nat.le_refl n, rfl, .nil, hwalk⟩
    | conn :: conns =>
      obtain ⟨hconn, hconns⟩ := List.forall_mem_cons.mp hconns
      cases hwalk with
      | nothing hfollow =>
        obtain ⟨_, _, hchecked⟩ := Wiring.checked_of_check hcheck hs hconn
        obtain ⟨b, howner, hfind⟩ := hchecked.target
        exact absurd hfollow (follow_ne_nothing hc h howner hfind)
      | @builtin _ _ n ids m hfollow hwalk =>
        obtain ⟨k, first, second, hk, rfl, hfirst, hsecond⟩ :=
          ih n (Nat.lt_succ_self n) hs hconns hwalk
        obtain ⟨hne, hm, kind, hkind⟩ := follow_builtin hfollow
        obtain ⟨hpos, hi⟩ := instance_of_member (scopesFit_ofDocument h) hm hkind
        exact ⟨k, m.id :: first, second, Nat.le_succ_of_le hk, rfl, .builtin hne hi hpos hfirst,
          hsecond⟩
      | @beyond _ _ n ids q hfollow hwalk =>
        rcases follow_beyond hfollow with ⟨hout, parent, custom, hparent, rfl⟩ |
          ⟨hne, child, hchild, rfl⟩
        · obtain ⟨s', hs', hup⟩ := exists_parent hparent
          obtain ⟨m, -, -, -, hm, -⟩ := custom_of_parent h hparent
          obtain ⟨-, t, ht, -⟩ := member_eq_ok hm
          rw [targets_eq ht] at hwalk
          obtain ⟨k, outer, more, hk, rfl, houter, hmore⟩ :=
            ih n (Nat.lt_succ_self n) ht hwires hwalk
          obtain ⟨l, first, second, hl, rfl, hfirst, hsecond⟩ :=
            ih k (Nat.lt_succ_of_le hk) hs hconns hmore
          exact ⟨l, outer ++ first, second, by omega, by rw [List.append_assoc],
            .leave hout hs' hup ht houter hfirst, hsecond⟩
        · obtain ⟨t, ht, hup⟩ := exists_parent (parent_of_child hchild)
          rw [targets_eq ht] at hwalk
          obtain ⟨k, inner, more, hk, rfl, hinner, hmore⟩ :=
            ih n (Nat.lt_succ_self n) ht hwires hwalk
          obtain ⟨l, first, second, hl, rfl, hfirst, hsecond⟩ :=
            ih k (Nat.lt_succ_of_le hk) hs hconns hmore
          exact ⟨l, inner ++ first, second, by omega, by rw [List.append_assoc],
            .enter hne ht hup hinner hfirst, hsecond⟩

/-- A trace that succeeds lists what the wires unfold to. -/
theorem unfolds_of_successors (hc : c.Made) (h : ofDocument c d = .ok x) {u : Unit}
    (hcheck : Wiring.check x = .ok u) {env : EnvId} {s : Scope} {node terminal : Pos}
    {ids : List NodeId} (hs : x.scopes[env]? = some s)
    (hids : x.successors ⟨env, node, terminal⟩ = .ok ids) :
    x.Unfolds env (s.outgoing node terminal) ids := by
  obtain ⟨n, -, hwalk⟩ := walk_of_traceForward hids
  rw [targets_eq hs, ← List.append_nil ((s.outgoing node terminal).map (place env))] at hwalk
  obtain ⟨k, first, second, -, rfl, hfirst, hsecond⟩ := unfolds_of_walk hc h hcheck n hs
    (fun conn hconn => (List.mem_filter.mp hconn).1) hwalk
  cases hsecond
  rwa [List.append_nil]

end Expansion

namespace Program

variable {c : Catalog} {d : Document} {p : Program}

/-- Each built-in block has its node in the program, with the control outputs that were traced. -/
theorem node_of_analyse (h : analyse c d = .ok p) : ∃ x, Expansion.ofDocument c d = .ok x ∧
    Wiring.check x = .ok () ∧ p.nodes.size = x.instances.length ∧
    ∀ (id : NodeId) (env : EnvId) (m : Member), x.instances[id]? = some (env, m) →
      ∃ k names n n', Nodes.Built x names env m k n ∧ p.nodes[id]? = some n' ∧ n'.env = n.env ∧
        n'.pos = n.pos ∧ n'.controls = n.controls := by
  unfold analyse at h
  obtain ⟨x, hx, h⟩ := Outcome.bind_eq_ok.mp h
  obtain ⟨_, hcheck, h⟩ := Outcome.bind_eq_ok.mp h
  obtain ⟨built, hall, h⟩ := Outcome.bind_eq_ok.mp h
  obtain ⟨_, -, h⟩ := Outcome.bind_eq_ok.mp h
  obtain ⟨volatile, -, h⟩ := Outcome.bind_eq_ok.mp h
  cases h
  refine ⟨x, hx, hcheck, ?_, fun id env m hi => ?_⟩
  · rw [List.size_toArray, length_of_all hall]
  · obtain ⟨k, n, entry, constant, -, hbuilt, -, -, -, -, hget⟩ := finished_of_all hall _ hi
    rw [List.getElem?_toArray]
    exact ⟨k, _, n, _, hbuilt, hget, rfl, rfl, rfl⟩

/-- Every control output of every built-in block starts what its wires unfold to: the same nodes, as
often and in the same order. -/
theorem controls_unfold (hc : c.Made) (h : analyse c d = .ok p) :
    ∃ x, Expansion.ofDocument c d = .ok x ∧ p.nodes.size = x.instances.length ∧
      (∀ s ∈ x.scopes, ∃ g ∈ d.main :: d.blocks.map (·.graph), s.Copies g) ∧
      ∀ (id : NodeId) (env : EnvId) (m : Member) (s : Scope),
        x.instances[id]? = some (env, m) → x.scopes[env]? = some s →
        ∃ n, p.nodes[id]? = some n ∧ n.env = env ∧ n.pos = m.decl.pos ∧
          n.controls.length = m.block.controlOutputs.length ∧
          ∀ (i : Nat) (t : Terminal), m.block.controlOutputs[i]? = some t →
            ∃ ids, n.controls[i]? = some ids ∧
              ∀ ids', x.Unfolds env (s.outgoing m.decl.pos t.pos) ids' ↔ ids' = ids := by
  obtain ⟨x, hx, hcheck, hsize, hnodes⟩ := node_of_analyse h
  refine ⟨x, hx, hsize, fun s hs => Expansion.copies_of_mem hx hs, fun id env m s hi hs => ?_⟩
  obtain ⟨k, names, n, n', hbuilt, hn', henv, hpos, hcontrols⟩ := hnodes id env m hi
  refine ⟨n', hn', henv.trans hbuilt.environment, hpos.trans hbuilt.position,
    hcontrols ▸ hbuilt.controls.1, fun i t ht => ?_⟩
  obtain ⟨ids, hids, hsucc⟩ := hbuilt.branches i t ht
  have hunfolds := Expansion.unfolds_of_successors hc hx hcheck hs hsucc
  refine ⟨ids, hcontrols ▸ hids, fun ids' => ⟨fun hu => hu.unique hx hunfolds, ?_⟩⟩
  rintro rfl
  exact hunfolds

theorem exists_analyse_relayed : ∃ c p, c.Made ∧ analyse c relayed = .ok p ∧
    p.nodes.toList.map (·.controls) =
      [[[3, 1, 5, 6, 4, 2]], [[]], [[]], [[]], [[]], [[]], [[]]] := by
  have hsome : (Catalog.stock.bind fun c => ([relay].foldlM Catalog.addCustom c).bind fun c =>
      analyse c relayed).toOption.any (fun p => p.nodes.toList.map (·.controls) =
        [[[3, 1, 5, 6, 4, 2]], [[]], [[]], [[]], [[]], [[]], [[]]]) = true := by
    decide +kernel
  obtain ⟨c, p, hc, hp, hcontrols⟩ := Catalog.exists_stocked hsome
  exact ⟨c, p, hc.made, hp, of_decide_eq_true hcontrols⟩

theorem controls_unfold_relayed : ∃ c p x env m s t, c.Made ∧ analyse c relayed = .ok p ∧
    Expansion.ofDocument c relayed = .ok x ∧ x.instances[0]? = some (env, m) ∧
    x.scopes[env]? = some s ∧ m.block.controlOutputs[0]? = some t ∧
    ∀ ids, x.Unfolds env (s.outgoing m.decl.pos t.pos) ids ↔ ids = [3, 1, 5, 6, 4, 2] := by
  obtain ⟨c, p, hc, hp, hcontrols⟩ := exists_analyse_relayed
  obtain ⟨x, hx, hsize, -, hunfold⟩ := controls_unfold hc hp
  have hnodes : p.nodes.size = 7 := by simpa using congrArg List.length hcontrols
  obtain ⟨⟨env, m⟩, hi⟩ : ∃ e, x.instances[0]? = some e :=
    ⟨_, List.getElem?_eq_getElem (by omega)⟩
  obtain ⟨-, s, hs, -⟩ := Expansion.mem_instances (List.mem_of_getElem? hi)
  obtain ⟨n, hn, -, -, hlen, hlists⟩ := hunfold 0 env m s hi hs
  have hfirst : n.controls = [[3, 1, 5, 6, 4, 2]] := by
    have hget := congrArg (·[0]?) hcontrols
    simpa [List.getElem?_map, hn] using hget
  rw [hfirst] at hlen
  obtain ⟨t, ht⟩ : ∃ t, m.block.controlOutputs[0]? = some t :=
    ⟨_, List.getElem?_eq_getElem (by rw [← hlen]; exact Nat.zero_lt_one)⟩
  obtain ⟨ids, hids, hiff⟩ := hlists 0 t ht
  rw [hfirst] at hids
  cases hids
  exact ⟨c, p, x, env, m, s, t, hc, hp, hx, hi, hs, ht, hiff⟩

end Program
end SignalGraph
