import SignalGraph.Proofs.Analysis.Analysed
import SignalGraph.Proofs.Analysis.Tracing.Feeding

/-!
# Entry points

Where a frame starts: at the statements that no other statement starts.
-/

namespace SignalGraph

namespace Block

variable {b : Block} {k : Kind}

/-- A built-in block in the flow of control has one control input, the others have none. -/
theorem length_controlInputs (h : b.Builtin k) (hk : k.isPlain = true) :
    (b.group .input true).length = if k.shape.active then 1 else 0 := by
  have hlen : (b.group .input true).length = ((b.group .input true).map (·.type)).length := by simp
  have hnone : k.shape.inputs.filter (fun pin => decide (pin.type = .void) == true) = [] :=
    List.filter_eq_nil_iff.mpr fun pin hpin => by simp [Kind.hasDataInputs hk pin hpin]
  rw [hlen, map_type_group, map_role_group, h.roles]
  simp only [List.filter_append, List.map_append, filter_pins, if_true, hnone]
  cases k.shape.active <;> simp

theorem before_eq_some_iff (h : b.Builtin k) (hk : k.isPlain = true) {t : Terminal} :
    b.before = some t ↔ t ∈ b.group .input true := by
  have hlen := length_controlInputs h hk
  have hle : (b.group .input true).length ≤ 1 := by
    rw [hlen]
    split <;> omega
  unfold before
  match hgroup : b.group .input true with
  | [] => simp
  | [t'] => simp [eq_comm]
  | _ :: _ :: _ =>
    rw [hgroup] at hle
    simp at hle

theorem isSome_before (h : b.Builtin k) (hk : k.isPlain = true) :
    b.before.isSome = b.active := by
  have hlen := length_controlInputs h hk
  rw [h.active]
  unfold before
  cases hactive : k.shape.active with
  | true =>
    rw [hactive, if_pos rfl] at hlen
    obtain ⟨t, ht⟩ := List.length_eq_one_iff.mp hlen
    rw [ht]
    rfl
  | false =>
    rw [hactive, if_neg Bool.false_ne_true] at hlen
    rw [List.length_eq_zero_iff.mp hlen]
    rfl

end Block

namespace Expansion

open Relation

variable {c : Catalog} {d : Document} {x : Expansion}

/-- What a trace meets is what its places reach across boundaries. -/
theorem mem_ids_of_walk {stack : List Place} {n : Nat} {ids : List NodeId}
    (h : x.Walk stack n ids) {id : NodeId} : id ∈ ids ↔ ∃ p ∈ stack, ∃ q m,
      ReflTransGen x.Crosses p q ∧ x.follow q.env q.node q.terminal = .ok (.builtin m) ∧
        m.id = id := by
  -- only from a boundary does anything lead on
  have hstays : ∀ {p q e}, x.follow p.env p.node p.terminal = .ok e → (∀ r, e ≠ .beyond r) →
      ReflTransGen x.Crosses p q → q = p := by
    intro p q e he hne hpq
    rcases hpq.cases_head with rfl | ⟨_, ⟨r, hr, -⟩, -⟩
    · rfl
    · cases he.symm.trans hr
      exact absurd rfl (hne r)
  induction h with
  | done => simp
  | nothing he _ ih =>
    rw [List.exists_mem_cons_iff]
    refine ih.trans (or_iff_right ?_).symm
    rintro ⟨q, m, hpq, hq, -⟩
    rw [hstays he nofun hpq, he] at hq
    exact nomatch hq
  | @builtin p _ _ _ m he _ ih =>
    rw [List.mem_cons, List.exists_mem_cons_iff]
    refine or_congr ⟨fun hid => ⟨p, m, .refl, he, hid.symm⟩, ?_⟩ ih
    rintro ⟨q, m', hpq, hq, hid⟩
    rw [hstays he nofun hpq] at hq
    cases he.symm.trans hq
    exact hid.symm
  | @beyond p rest _ _ r he _ ih =>
    rw [List.exists_mem_cons_iff]
    refine ih.trans ⟨?_, ?_⟩
    · rintro ⟨q, hq, hfound⟩
      rcases List.mem_append.mp hq with hq | hq
      · obtain ⟨s, m, hqs, hs, hid⟩ := hfound
        exact .inl ⟨s, m, .head ⟨r, he, hq⟩ hqs, hs, hid⟩
      · exact .inr ⟨q, hq, hfound⟩
    · rintro (⟨s, m, hps, hs, hid⟩ | ⟨q, hq, hfound⟩)
      · rcases hps.cases_head with rfl | ⟨q, ⟨r', hr', hq⟩, hqs⟩
        · exact nomatch he.symm.trans hs
        · cases he.symm.trans hr'
          exact ⟨q, List.mem_append_left _ hq, s, m, hqs, hs, hid⟩
      · exact ⟨q, List.mem_append_right _ hq, hfound⟩

theorem exists_of_getElem?_flatMap {α β : Type} {f : α → List β} :
    ∀ {l : List α} {i : Nat} {b : β}, (l.flatMap f)[i]? = some b →
      ∃ (k : Nat) (a : α) (j : Nat), l[k]? = some a ∧ (f a)[j]? = some b ∧
        i = ((l.take k).flatMap f).length + j
  | [], _, _, h => nomatch h
  | a :: l, i, b, h => by
    rw [List.flatMap_cons] at h
    rcases Nat.lt_or_ge i (f a).length with hlt | hge
    · rw [List.getElem?_append_left hlt] at h
      exact ⟨0, a, i, rfl, h, by simp⟩
    · rw [List.getElem?_append_right hge] at h
      obtain ⟨k, a', j, hk, hj, hi⟩ := exists_of_getElem?_flatMap h
      refine ⟨k + 1, a', j, hk, hj, ?_⟩
      rw [List.take_succ_cons, List.flatMap_cons, List.length_append]
      omega

theorem id_of_instance (hfit : ScopesFit c x.scopes) {i : Nat} {env : EnvId} {m : Member}
    (h : x.instances[i]? = some (env, m)) : m.id = i := by
  obtain ⟨k, ⟨s, env'⟩, j, hk, hj, rfl⟩ := exists_of_getElem?_flatMap (f := listed) h
  rw [List.getElem?_zipIdx, Option.map_eq_some_iff] at hk
  obtain ⟨s', hs, heq⟩ := hk
  rw [Prod.mk.injEq, Nat.zero_add] at heq
  obtain ⟨rfl, rfl⟩ := heq
  obtain ⟨m', hm', heq⟩ := Option.map_eq_some_iff.mp ((List.getElem?_map ..).symm.trans hj)
  cases heq
  rw [take_zipIdx, length_flatMap_listed]
  exact id_of_numbered (hfit k s' hs).numbered hm'

theorem instance_of_member (hfit : ScopesFit c x.scopes) {env : EnvId} {pos : Pos} {m : Member}
    {k : Kind} (hm : x.member env pos = .ok m) (hk : m.block.template = .builtin k) :
    m.decl.pos = pos ∧ x.instances[m.id]? = some (env, m) := by
  obtain ⟨hpos, s, hs, hmem⟩ := member_eq_ok hm
  refine ⟨hpos, instances_id hfit hs hmem ?_⟩
  rw [Member.isBuiltin, Member.kind?, hk]
  rfl

/-- The node at a position is built in or custom, and not both. -/
theorem not_custom_of_instance (h : ofDocument c d = .ok x) {env child : EnvId} {id : NodeId}
    {m : Member} (hi : x.instances[id]? = some (env, m)) :
    x.parent? child ≠ some (env, m.decl.pos) := by
  intro hparent
  obtain ⟨m', g, -, -, hm', hg, -⟩ := custom_of_parent h hparent
  obtain ⟨hbuiltin, s, hs, hm⟩ := mem_instances (List.mem_of_getElem? hi)
  cases hm'.symm.trans (member_pos (scopesFit_ofDocument h) hs hm)
  simp [Member.isBuiltin, Member.kind?, Member.template_of_graph? hg] at hbuiltin

theorem id_unique (h : ofDocument c d = .ok x) {env : EnvId} {id id' : NodeId} {m m' : Member}
    (hi : x.instances[id]? = some (env, m)) (hi' : x.instances[id']? = some (env, m'))
    (hpos : m.decl.pos = m'.decl.pos) : id = id' := by
  have hfit := scopesFit_ofDocument h
  obtain ⟨-, s, hs, hm⟩ := mem_instances (List.mem_of_getElem? hi)
  obtain ⟨-, s', hs', hm'⟩ := mem_instances (List.mem_of_getElem? hi')
  have heq := member_pos hfit hs hm
  rw [hpos, member_pos hfit hs' hm'] at heq
  cases heq
  rw [← id_of_instance hfit hi, ← id_of_instance hfit hi']

end Expansion

namespace Program

open Relation

namespace Stages

variable {c : Catalog} {p : Program} {x : Expansion} {built : List (Node × Bool)}
  {nodes : List Node} {volatile : List NodeId}

theorem mem_entryPoints (h : Stages c p x built nodes volatile) {id : NodeId} :
    id ∈ p.entryPoints ↔ ∃ n, built[id]? = some (n, true) := by
  rw [h.entries, List.mem_map]
  constructor
  · rintro ⟨⟨⟨n, entry⟩, i⟩, hmem, rfl⟩
    obtain ⟨hmem, hentry⟩ := List.mem_filter.mp hmem
    cases hentry
    exact ⟨n, List.mem_zipIdx_iff_getElem?.mp hmem⟩
  · rintro ⟨n, hn⟩
    exact ⟨((n, true), id), List.mem_filter.mpr ⟨List.mem_zipIdx_iff_getElem?.mpr hn, rfl⟩, rfl⟩

theorem pairwise_entryPoints (h : Stages c p x built nodes volatile) :
    p.entryPoints.Pairwise (· < ·) := by
  rw [h.entries]
  have hsub := (List.filter_sublist (l := built.zipIdx) (p := (·.1.2))).map (·.2)
  refine List.Pairwise.sublist hsub ?_
  rw [List.zipIdx_map_snd]
  exact List.pairwise_lt_range'

theorem leads_iff (h : Stages c p x built nodes volatile) {other id : NodeId} :
    p.Leads other id ↔ ∃ env m t ids, x.instances[other]? = some (env, m) ∧
      t ∈ m.block.controlOutputs ∧ x.successors ⟨env, m.decl.pos, t.pos⟩ = .ok ids ∧ id ∈ ids := by
  constructor
  · rintro ⟨n, ids, hn, hids, hid⟩
    obtain ⟨env, m, hi⟩ := h.exists_instance (Array.getElem?_eq_some_iff.mp hn).1
    obtain ⟨k, n₀, _, constant, -, hbuilt, -, -, -, -, hget⟩ := h.node_of_instance hi
    rw [hn] at hget
    obtain rfl := Option.some.inj hget
    obtain ⟨t, ht, hsucc⟩ := hbuilt.controls.2 ids hids
    exact ⟨env, m, t, ids, hi, ht, hsucc, hid⟩
  · rintro ⟨env, m, t, ids, hi, ht, hsucc, hid⟩
    obtain ⟨k, n₀, _, constant, -, hbuilt, -, -, -, -, hget⟩ := h.node_of_instance hi
    obtain ⟨ids', hids, hsucc'⟩ := hbuilt.traced t ht
    cases hsucc.symm.trans hsucc'
    exact ⟨_, ids, hget, hids, hid⟩

/-- A built-in block and its environment, with what makes it the node of its number. -/
theorem member_of_instance (h : Stages c p x built nodes volatile) {id : NodeId} {env : EnvId}
    {m : Member} (hi : x.instances[id]? = some (env, m)) : m.id = id ∧
      x.member env m.decl.pos = .ok m ∧ ∃ k, m.block.template = .builtin k ∧ k.isPlain = true ∧
        m.block.Builtin k := by
  have hmem := List.mem_of_getElem? hi
  obtain ⟨hbuiltin, s, hs, hm⟩ := Expansion.mem_instances hmem
  obtain ⟨k, hk⟩ := Option.isSome_iff_exists.mp hbuiltin
  obtain ⟨hplain, hb, -⟩ := h.builtin_of_instance hmem hk
  refine ⟨Expansion.id_of_instance h.fits hi, Expansion.member_pos h.fits hs hm, k, ?_, hplain, hb⟩
  unfold Member.kind? at hk
  split at hk
  · next k' hk' =>
    cases hk
    exact hk'
  · exact nomatch hk

/-- The place of a block's terminal, where the block does not stand at the boundary's own
position. -/
theorem terminal_of_member (h : Stages c p x built nodes volatile) {env : EnvId} {m : Member}
    {t : Terminal} (hm : x.member env m.decl.pos = .ok m) (hne : m.decl.pos ≠ .outside)
    (ht : t ∈ m.block.terminals) : x.owner env m.decl.pos = .ok m.block ∧
      m.block.terminalAt t.pos = some t :=
  ⟨Expansion.owner_of_member hne hm, Block.terminalAt_pos
    (Expansion.placed_of_member h.stocked.made h.fits hm).1 ht⟩

theorem follow_of_instance (h : Stages c p x built nodes volatile) {id : NodeId} {env : EnvId}
    {m : Member} (hi : x.instances[id]? = some (env, m)) (hne : m.decl.pos ≠ .outside)
    (terminal : Pos) : x.follow env m.decl.pos terminal = .ok (.builtin m) := by
  obtain ⟨-, hm, k, hk, -⟩ := h.member_of_instance hi
  rw [Expansion.follow, if_neg hne, hm]
  simp only [bind, Except.bind, hk]
  rfl

/-- A node that control comes to from behind starts the statement it comes to. -/
theorem leads_of_driven (h : Stages c p x built nodes volatile) {id : NodeId} {env : EnvId}
    {m : Member} {t : Terminal} (hi : x.instances[id]? = some (env, m))
    (ht : m.block.before = some t) (hdriven : x.Driven ⟨env, m.decl.pos, t.pos⟩) :
    ∃ other, p.Leads other id := by
  obtain ⟨d, hx⟩ := h.expanded
  obtain ⟨hid, hm, k, -, hplain, hb⟩ := h.member_of_instance hi
  obtain ⟨htm, hrole⟩ := List.mem_filter.mp ((Block.before_eq_some_iff hb hplain).mp ht)
  simp only [Bool.and_eq_true, decide_eq_true_eq, beq_iff_eq, Terminal.isControl] at hrole
  obtain ⟨q, hback, m', hfed⟩ := hdriven
  obtain ⟨r, hq, hr⟩ := Expansion.feeds_iff.mp hfed
  have hqe := Expansion.mem_ends_of_targets hq
  have hforth := (Expansion.reaches_iff h.stocked.made hx h.checked hqe).mp hback
  -- the terminal of the statement is one of control, so all on the way to it are
  have hend : ∃ r, ⟨env, m.decl.pos, t.pos⟩ ∈ x.targets r := by
    rcases hforth.cases_tail with heq | ⟨_, -, r', -, hr'⟩
    · exact ⟨r, heq ▸ hq⟩
    · exact ⟨r', hr'⟩
  obtain ⟨_, hend⟩ := hend
  obtain ⟨_, _, -, hsink, -⟩ := Expansion.linked_of_targets h.checked hend
  have hne := Expansion.inner_of_sink h.stocked.made h.fits hm htm hrole.1 hsink
  obtain ⟨howner, hfind⟩ := h.terminal_of_member hm hne htm
  have hcontrol : x.ControlSink ⟨env, m.decl.pos, t.pos⟩ :=
    ⟨t, ⟨_, howner, hfind, by rw [hrole.1, Wiring.sinkDirection, if_neg hne]⟩, hrole.2⟩
  rw [← Expansion.controlSink_iff h.stocked.made hx h.checked hqe hforth] at hcontrol
  obtain ⟨start, finish, hsource, hfinish, hdrives⟩ := Expansion.linked_of_targets h.checked hq
  rw [Expansion.controlSink_of_sink hfinish, ← Expansion.drives_void hdrives] at hcontrol
  -- so the wire out of the other node leaves by a control output
  obtain ⟨hrne, hm', k', hk'⟩ := Expansion.follow_builtin hr
  obtain ⟨hpos, hi'⟩ := Expansion.instance_of_member h.fits hm' hk'
  obtain ⟨b, howner', hfind', hdir⟩ := hsource
  obtain ⟨_, heq, rfl⟩ := Expansion.owner_of_ne hrne howner'
  cases hm'.symm.trans heq
  obtain ⟨hstart, hterminal⟩ := Block.terminalAt_eq_some hfind'
  rw [Wiring.sourceDirection, if_neg hrne] at hdir
  have hout : start ∈ m'.block.controlOutputs :=
    List.mem_filter.mpr ⟨hstart, by simp [hdir, Terminal.isControl, hcontrol]⟩
  obtain ⟨_, _, _, _, -, hbuilt, -⟩ := h.node_of_instance hi'
  obtain ⟨ids, -, hsucc⟩ := hbuilt.traced start hout
  refine ⟨m'.id, h.leads_iff.mpr ⟨r.env, m', start, ids, hi', hout, hsucc, ?_⟩⟩
  obtain ⟨n, -, hwalk⟩ := Expansion.walk_of_traceForward hsucc
  rw [hpos, hterminal] at hwalk
  exact (Expansion.mem_ids_of_walk hwalk).mpr
    ⟨q, hq, _, m, hforth, h.follow_of_instance hi hne _, hid⟩

/-- A statement that a node starts has that node behind its control input. -/
theorem driven_of_leads (h : Stages c p x built nodes volatile) {id other : NodeId} {env : EnvId}
    {m : Member} {t : Terminal} (hi : x.instances[id]? = some (env, m))
    (ht : m.block.before = some t) (hleads : p.Leads other id) :
    x.Driven ⟨env, m.decl.pos, t.pos⟩ := by
  obtain ⟨d, hx⟩ := h.expanded
  obtain ⟨-, -, k, -, hplain, hb⟩ := h.member_of_instance hi
  obtain ⟨env', m', t', ids, hi', ht', hsucc, hid⟩ := h.leads_iff.mp hleads
  obtain ⟨-, hm', -⟩ := h.member_of_instance hi'
  obtain ⟨htm', hrole⟩ := List.mem_filter.mp ht'
  simp only [Bool.and_eq_true, decide_eq_true_eq, beq_iff_eq, Terminal.isControl] at hrole
  obtain ⟨n, -, hwalk⟩ := Expansion.walk_of_traceForward hsucc
  obtain ⟨q, hq, ⟨env'', node, terminal⟩, m'', hforth, hfollow, hid'⟩ :=
    (Expansion.mem_ids_of_walk hwalk).mp hid
  have hqe := Expansion.mem_ends_of_targets hq
  obtain ⟨hne, hm'', k'', hk''⟩ := Expansion.follow_builtin hfollow
  obtain ⟨hpos, hi''⟩ := Expansion.instance_of_member h.fits hm'' hk''
  rw [hid', hi] at hi''
  cases hi''
  -- control leaves the first node, so it arrives at the one control input of the statement
  obtain ⟨start, finish, hsource, hfinish, hdrives⟩ := Expansion.linked_of_targets h.checked hq
  have hne' := Expansion.inner_of_source h.stocked.made h.fits hm' htm' hrole.1 hsource
  have hstart : start.type = .void := by
    obtain ⟨howner, hfind⟩ := h.terminal_of_member hm' hne' htm'
    obtain ⟨b, howner', hfind', -⟩ := hsource
    cases howner.symm.trans howner'
    cases hfind.symm.trans hfind'
    exact hrole.2
  rw [Expansion.drives_void hdrives, ← Expansion.controlSink_of_sink hfinish,
    Expansion.controlSink_iff h.stocked.made hx h.checked hqe hforth] at hstart
  obtain ⟨u, ⟨b, howner, hfind, hdir⟩, hvoid⟩ := hstart
  obtain ⟨_, heq, rfl⟩ := Expansion.owner_of_ne hne howner
  cases hm''.symm.trans heq
  obtain ⟨hu, hterminal⟩ := Block.terminalAt_eq_some hfind
  rw [Wiring.sinkDirection, if_neg hne] at hdir
  have hbefore := (Block.before_eq_some_iff hb hplain).mpr
    (List.mem_filter.mpr ⟨hu, by simp [hdir, Terminal.isControl, hvoid]⟩)
  cases ht.symm.trans hbefore
  simp only at hpos hterminal
  subst hpos hterminal
  exact ⟨q, (Expansion.reaches_iff h.stocked.made hx h.checked hqe).mpr hforth, m',
    Expansion.feeds_iff.mpr ⟨_, hq, h.follow_of_instance hi' hne' _⟩⟩

theorem isEntry_iff (h : Stages c p x built nodes volatile) {id : NodeId} {env : EnvId}
    {m : Member} {entry : Bool} (hi : x.instances[id]? = some (env, m))
    (hentry : Nodes.isEntry x env m = .ok entry) :
    entry = true ↔ m.block.active = true ∧ ∀ other, ¬p.Leads other id := by
  obtain ⟨-, -, k, -, hplain, hb⟩ := h.member_of_instance hi
  have hactive := Block.isSome_before hb hplain
  unfold Nodes.isEntry at hentry
  cases ht : m.block.before with
  | none =>
    simp only [ht] at hentry
    cases hentry
    rw [ht] at hactive
    simp [← hactive]
  | some t =>
    simp only [ht] at hentry
    obtain ⟨answer, hanswer, rfl⟩ := Outcome.map_eq_ok.mp hentry
    have hdriven := Expansion.driven_iff_of_isDriven hanswer
    rw [ht] at hactive
    rw [← hactive, Bool.not_eq_true', ← Bool.not_eq_true, ← hdriven]
    constructor
    · exact fun hnot => ⟨rfl, fun other hleads => hnot (h.driven_of_leads hi ht hleads)⟩
    · rintro ⟨-, hnone⟩ hyes
      obtain ⟨other, hleads⟩ := h.leads_of_driven hi ht hyes
      exact hnone other hleads

/-- Frames start at the statements that nothing starts. -/
theorem mem_entryPoints_iff (h : Stages c p x built nodes volatile) {id : NodeId} :
    id ∈ p.entryPoints ↔ p.IsStatement id ∧ ∀ other, ¬p.Leads other id := by
  have hstatement : ∀ {env m}, x.instances[id]? = some (env, m) →
      (p.IsStatement id ↔ m.block.active = true) := by
    intro env m hi
    obtain ⟨_, n, _, _, -, hbuilt, -, -, -, -, hget⟩ := h.node_of_instance hi
    rw [← hbuilt.statement]
    refine ⟨fun ⟨n', hn', hs⟩ => ?_, fun hs => ⟨_, hget, hs⟩⟩
    cases hget.symm.trans hn'
    exact hs
  rw [h.mem_entryPoints]
  constructor
  · rintro ⟨n, hn⟩
    have hlt : id < p.nodes.size := by
      rw [h.length_nodes.2, h.length_nodes.1, ← (Nodes.all_eq_ok h.all).1]
      exact (List.getElem?_eq_some_iff.mp hn).1
    obtain ⟨env, m, hi⟩ := h.exists_instance hlt
    obtain ⟨_, _, entry, _, -, -, hget, hentry, -⟩ := h.node_of_instance hi
    cases hn.symm.trans hget
    rw [hstatement hi]
    exact (h.isEntry_iff hi hentry).mp rfl
  · rintro ⟨hs, hnone⟩
    have ⟨n, hn, _⟩ := hs
    obtain ⟨env, m, hi⟩ := h.exists_instance (Array.getElem?_eq_some_iff.mp hn).1
    obtain ⟨_, n₀, entry, _, -, -, hget, hentry, -⟩ := h.node_of_instance hi
    rw [hstatement hi] at hs
    rw [(h.isEntry_iff hi hentry).mpr ⟨hs, hnone⟩] at hget
    exact ⟨n₀, hget⟩

/-- Going back from a statement to what starts it ends at an entry point. -/
theorem exists_entryPoint (h : Stages c p x built nodes volatile) {id : NodeId}
    (hid : p.IsStatement id) : ∃ entry ∈ p.entryPoints, ReflTransGen p.Leads entry id := by
  obtain ⟨rank, hrank⟩ := h.leads_falls
  induction hleft : p.nodes.size - rank id using Nat.strongRecOn generalizing id with
  | _ left ih =>
    by_cases hnone : ∀ other, ¬p.Leads other id
    · exact ⟨id, h.mem_entryPoints_iff.mpr ⟨hid, hnone⟩, .refl⟩
    · simp only [not_forall, not_not] at hnone
      obtain ⟨other, hleads⟩ := hnone
      have ⟨n, ids, hn, hids, _⟩ := hleads
      have hfall := hrank.falls other id hleads
      have hbound := hrank.bounded other (Array.getElem?_eq_some_iff.mp hn).1
      obtain ⟨entry, hentry, hreach⟩ := ih (p.nodes.size - rank other) (by omega)
        ⟨n, hn, (h.node_fits hn).isStatement_of_controls hids⟩ rfl
      exact ⟨entry, hentry, hreach.tail hleads⟩

end Stages

/-- Entry points and control outputs say the same about which statements are started: the entry
points are those that no control output starts, in order, and all others are reached from them. -/
theorem entryPoints_dual {c : Catalog} {d : Document} {p : Program} (hc : c.Stocked)
    (h : analyse c d = .ok p) :
    (∀ id, id ∈ p.entryPoints ↔ p.IsStatement id ∧ ∀ other, ¬p.Leads other id) ∧
      p.entryPoints.Pairwise (· < ·) ∧
      ∀ id, p.IsStatement id → ∃ entry ∈ p.entryPoints, ReflTransGen p.Leads entry id := by
  obtain ⟨x, built, nodes, volatile, -, hstages⟩ := stages_of_analyse hc h
  exact ⟨fun _ => hstages.mem_entryPoints_iff, hstages.pairwise_entryPoints,
    fun _ hid => hstages.exists_entryPoint hid⟩

/-- A block that starts a statement of its own, lets control through, and starts a second one. -/
def relay : CustomBlock where
  id := 1000
  name := "relay"
  footprint := ⟨2, 1⟩
  terminals := [{ type := .void, dir := .input }, { type := .void, dir := .output }]
  graph := {
    id := 7
    nodes := [{ pos := ⟨0, 0, 0⟩, kind := 256 }, { pos := ⟨4, 0, 4⟩, kind := 256 }]
    connections := [.between .outside ⟨0, 1, 3⟩ ⟨0, 0, 0⟩ ⟨3, 1, 15⟩,
      .between .outside ⟨0, 1, 3⟩ .outside ⟨15, 1, 3⟩,
      .between .outside ⟨0, 1, 3⟩ ⟨4, 0, 4⟩ ⟨3, 1, 15⟩] }

/-- A statement wired to a relay and to a statement after it, where the relay is wired to a
statement and to another relay. -/
def relayed : Document where
  main := {
    id := 0
    nodes := [{ pos := ⟨0, 0, 0⟩, kind := 252 }, { pos := ⟨4, 0, 4⟩, kind := 1000 },
      { pos := ⟨8, 0, 8⟩, kind := 1000 }, { pos := ⟨12, 0, 12⟩, kind := 256 },
      { pos := ⟨16, 0, 16⟩, kind := 256 }]
    connections := [.between ⟨0, 0, 0⟩ ⟨3, 1, 0⟩ ⟨4, 0, 4⟩ ⟨0, 1, 3⟩,
      .between ⟨0, 0, 0⟩ ⟨3, 1, 0⟩ ⟨16, 0, 16⟩ ⟨3, 1, 15⟩,
      .between ⟨4, 0, 4⟩ ⟨15, 1, 3⟩ ⟨12, 0, 12⟩ ⟨3, 1, 15⟩,
      .between ⟨4, 0, 4⟩ ⟨15, 1, 3⟩ ⟨8, 0, 8⟩ ⟨0, 1, 3⟩] }
  blocks := [relay]

theorem entryPoints_dual_relayed : ∃ c p, c.Stocked ∧ analyse c relayed = .ok p ∧
    p.entryPoints = [0] ∧ p.Leads 0 3 ∧ p.Leads 0 4 ∧
    (∀ id, id ∈ p.entryPoints ↔ p.IsStatement id ∧ ∀ other, ¬p.Leads other id) ∧
    p.entryPoints.Pairwise (· < ·) ∧
    ∀ id, p.IsStatement id → ∃ entry ∈ p.entryPoints, ReflTransGen p.Leads entry id := by
  have hsome : (Catalog.stock.bind fun c =>
      (relayed.blocks.foldlM Catalog.addCustom c).bind fun c =>
        analyse c relayed).toOption.any (fun p => p.entryPoints = [0] ∧
          (p.nodes[0]?).map (·.controls) = some [[3, 1, 5, 6, 4, 2]]) = true := by
    decide +kernel
  obtain ⟨c, p, hc, hp, hsizes⟩ := Catalog.exists_stocked hsome
  obtain ⟨hentries, hcontrols⟩ := of_decide_eq_true hsizes
  have hleads : ∀ id ∈ [3, 1, 5, 6, 4, 2], p.Leads 0 id := by
    obtain ⟨n, hn, hlists⟩ := Option.map_eq_some_iff.mp hcontrols
    exact fun id hid => ⟨n, _, hn, hlists ▸ List.mem_singleton_self _, hid⟩
  exact ⟨c, p, hc, hp, hentries, hleads 3 (by decide), hleads 4 (by decide), entryPoints_dual hc hp⟩

end Program
end SignalGraph
