import Mathlib.Data.List.Pairwise
import SignalGraph.Analysis.Tracing
import SignalGraph.Analysis.Wiring
import SignalGraph.Proofs.Analysis.Expansion.Environments

/-!
# Traced wires

Where walks along checked wires end: a data wire at an output of a built-in block, and a control
wire at the control input of one.
-/

namespace SignalGraph

namespace Wiring

/-- A wire that has passed the check: both ends exist and face each other. -/
structure Checked (x : Expansion) (env : EnvId) (c : Connection) (start finish : Terminal) :
    Prop where
  source : ∃ b, x.owner env c.source = .ok b ∧ b.terminalAt c.sourceTerminal = some start
  target : ∃ b, x.owner env c.target = .ok b ∧ b.terminalAt c.targetTerminal = some finish
  leaves : start.dir = sourceDirection c.source
  enters : finish.dir = sinkDirection c.target
  drives : start.type.drives finish.type = true

variable {x : Expansion} {env : EnvId}

theorem terminal_eq_ok {b : Block} {node pos : Pos} {t : Terminal}
    (h : terminal b node pos = .ok t) : b.terminalAt pos = some t := by
  unfold terminal at h
  cases hfind : b.terminalAt pos with
  | none => simp [hfind] at h
  | some u =>
    simp only [hfind, Except.ok.injEq] at h
    rw [h]

theorem checked_of_checkWire {earlier : List Connection} {c : Connection} {u : Unit}
    (h : checkWire x env earlier c = .ok u) : ∃ start finish, Checked x env c start finish ∧
      (finish.isControl = false → ∀ e ∈ earlier,
        ¬(e.target = c.target ∧ e.targetTerminal = c.targetTerminal)) := by
  unfold checkWire at h
  obtain ⟨source, hsource, h⟩ := Outcome.bind_eq_ok.mp h
  obtain ⟨target, htarget, h⟩ := Outcome.bind_eq_ok.mp h
  obtain ⟨start, hstart, h⟩ := Outcome.bind_eq_ok.mp h
  obtain ⟨finish, hfinish, h⟩ := Outcome.bind_eq_ok.mp h
  obtain ⟨hdirs, h⟩ := Outcome.guard_eq_ok.mp h
  obtain ⟨hdrives, h⟩ := Outcome.guard_eq_ok.mp h
  rw [not_or, Decidable.not_not, Decidable.not_not] at hdirs
  refine ⟨start, finish, ⟨⟨source, hsource, terminal_eq_ok hstart⟩,
    ⟨target, htarget, terminal_eq_ok hfinish⟩, hdirs.1, hdirs.2, Decidable.not_not.mp hdrives⟩,
    fun hdata e he hsame => ?_⟩
  have htaken : (earlier.any fun e => e.target = c.target ∧
      e.targetTerminal = c.targetTerminal) = true :=
    List.any_eq_true.mpr ⟨e, he, decide_eq_true hsame⟩
  rw [htaken, if_pos ⟨by simp [hdata], rfl⟩] at h
  exact nomatch h

theorem checked_of_checkWires : ∀ {rest earlier : List Connection} {u : Unit},
    checkWires x env earlier rest = .ok u → ∀ c ∈ rest, ∃ start finish, Checked x env c start finish
  | [], _, _, _, _, hc => nomatch hc
  | c :: rest, earlier, u, h, c', hc => by
    rw [checkWires] at h
    obtain ⟨_, hwire, h⟩ := Outcome.bind_eq_ok.mp h
    cases hc with
    | head =>
      obtain ⟨start, finish, hchecked, -⟩ := checked_of_checkWire hwire
      exact ⟨start, finish, hchecked⟩
    | tail _ hc => exact checked_of_checkWires h c' hc

/-- After the check, every wire of every environment has passed. -/
theorem checked_of_check {u : Unit} (h : check x = .ok u) {s : Scope}
    (hs : x.scopes[env]? = some s) {c : Connection} (hc : c ∈ s.connections) :
    ∃ start finish, Checked x env c start finish := by
  have hmem : (s, env) ∈ x.scopes.zipIdx := List.mem_zipIdx_iff_getElem?.mpr hs
  exact checked_of_checkWires (Outcome.forM_eq_ok h (s, env) hmem) c hc

/-- Two wires into one terminal that carries data. -/
def Clash (x : Expansion) (env : EnvId) (e c : Connection) : Prop :=
  e.target = c.target ∧ e.targetTerminal = c.targetTerminal ∧
    ∃ b t, x.owner env c.target = .ok b ∧ b.terminalAt c.targetTerminal = some t ∧
      t.isControl = false

theorem Clash.symm {e c : Connection} (h : Clash x env e c) : Clash x env c e := by
  obtain ⟨hnode, hterminal, hdata⟩ := h
  refine ⟨hnode.symm, hterminal.symm, ?_⟩
  rw [hnode, hterminal]
  exact hdata

theorem not_clash_of_checkWires : ∀ {rest earlier : List Connection} {u : Unit},
    checkWires x env earlier rest = .ok u → rest.Pairwise (fun e c => ¬Clash x env e c) ∧
      ∀ e ∈ earlier, ∀ c ∈ rest, ¬Clash x env e c
  | [], _, _, _ => ⟨.nil, fun _ _ _ hc => nomatch hc⟩
  | c :: rest, earlier, u, h => by
    rw [checkWires] at h
    obtain ⟨_, hwire, h⟩ := Outcome.bind_eq_ok.mp h
    obtain ⟨hpairs, hbetween⟩ := not_clash_of_checkWires h
    obtain ⟨hhead, hearlier⟩ := List.forall_mem_cons.mp hbetween
    refine ⟨List.pairwise_cons.mpr ⟨hhead, hpairs⟩, fun e he =>
      List.forall_mem_cons.mpr ⟨?_, hearlier e he⟩⟩
    rintro ⟨hnode, hterminal, b, t, howner, hfind, hdata⟩
    obtain ⟨_, finish, hchecked, hfree⟩ := checked_of_checkWire hwire
    obtain ⟨b', howner', hfind'⟩ := hchecked.target
    cases howner.symm.trans howner'
    cases hfind.symm.trans hfind'
    exact hfree hdata e he ⟨hnode, hterminal⟩

/-- After the check, a data terminal has one wire. -/
theorem eq_of_clash {u : Unit} (h : check x = .ok u) {s : Scope} (hs : x.scopes[env]? = some s)
    {e c : Connection} (he : e ∈ s.connections) (hc : c ∈ s.connections)
    (hclash : Clash x env e c) :
    e = c := by
  have hmem : (s, env) ∈ x.scopes.zipIdx := List.mem_zipIdx_iff_getElem?.mpr hs
  have hpairs := (not_clash_of_checkWires (Outcome.forM_eq_ok h (s, env) hmem)).1
  have hsymm : Std.Symm fun e c => ¬Clash x env e c := ⟨fun _ _ hne hclash => hne hclash.symm⟩
  by_contra hne
  exact hpairs.forall he hc hne hclash

end Wiring

namespace Expansion

open Wiring

variable {c : Catalog} {x : Expansion}

theorem owner_of_ne {env : EnvId} {p : Pos} {b : Block} (hp : p ≠ .outside)
    (h : x.owner env p = .ok b) : ∃ m, x.member env p = .ok m ∧ m.block = b := by
  unfold owner at h
  simp only [hp, if_false] at h
  obtain ⟨m, hm, h⟩ := Outcome.bind_eq_ok.mp h
  cases h
  exact ⟨m, hm, rfl⟩

theorem owner_of_member {env : EnvId} {p : Pos} {m : Member} (hp : p ≠ .outside)
    (h : x.member env p = .ok m) : x.owner env p = .ok m.block := by
  unfold owner
  simp only [hp, if_false, h]
  rfl

theorem owner_outside {env : EnvId} {b : Block} (h : x.owner env .outside = .ok b) :
    ∃ parent p m, x.parent? env = some (parent, p) ∧ x.member parent p = .ok m ∧ m.block = b := by
  unfold owner at h
  simp only [if_true] at h
  cases hparent : x.parent? env with
  | none => simp [hparent] at h
  | some q =>
    obtain ⟨parent, p⟩ := q
    simp only [hparent] at h
    obtain ⟨m, hm, h⟩ := Outcome.bind_eq_ok.mp h
    cases h
    exact ⟨parent, p, m, rfl, hm, rfl⟩

theorem placed_of_owner (hc : c.Made) (hfit : ScopesFit c x.scopes) {env : EnvId} {p : Pos}
    {b : Block} (h : x.owner env p = .ok b) : b.Placed := by
  by_cases hp : p = .outside
  · subst hp
    obtain ⟨_, _, m, -, hm, rfl⟩ := owner_outside h
    exact (placed_of_member hc hfit hm).1
  · obtain ⟨m, hm, rfl⟩ := owner_of_ne hp h
    exact (placed_of_member hc hfit hm).1

theorem parent_of_child {env child : EnvId} {p : Pos} (h : x.child? env p = some child) :
    x.parent? child = some (env, p) := by
  obtain ⟨hlt, hs, -⟩ := List.findIdx?_eq_some_iff_getElem.mp h
  have hget : x.scopes[child]? = some x.scopes[child] := List.getElem?_eq_getElem hlt
  simpa [parent?, hget] using hs

theorem exists_parent {env parent : EnvId} {custom : Pos}
    (h : x.parent? env = some (parent, custom)) :
    ∃ s, x.scopes[env]? = some s ∧ s.environment.parent = some (parent, custom) := by
  unfold parent? at h
  exact Option.bind_eq_some_iff.mp h

/-- Where a wire's end leads, by the three cases of `follow`. -/
theorem follow_builtin {env : EnvId} {p terminal : Pos} {m : Member}
    (h : x.follow env p terminal = .ok (.builtin m)) :
    p ≠ .outside ∧ x.member env p = .ok m ∧ ∃ k, m.block.template = .builtin k := by
  unfold follow at h
  by_cases hp : p = .outside
  · simp only [hp, if_true] at h
    split at h <;> simp at h
  · simp only [hp, if_false] at h
    obtain ⟨m', hm', h⟩ := Outcome.bind_eq_ok.mp h
    split at h
    · next k hk =>
      cases h
      exact ⟨hp, hm', k, hk⟩
    · cases h
    · split at h <;> cases h

theorem follow_beyond {env : EnvId} {p terminal : Pos} {q : Place}
    (h : x.follow env p terminal = .ok (.beyond q)) :
    (p = .outside ∧ ∃ parent custom, x.parent? env = some (parent, custom) ∧
      q = ⟨parent, custom, terminal⟩) ∨
    (p ≠ .outside ∧ ∃ child, x.child? env p = some child ∧ q = ⟨child, .outside, terminal⟩) := by
  unfold follow at h
  by_cases hp : p = .outside
  · simp only [hp, if_true] at h
    split at h
    · cases h
    · next parent custom hparent =>
      cases h
      exact .inl ⟨hp, parent, custom, hparent, rfl⟩
  · simp only [hp, if_false] at h
    obtain ⟨m', hm', h⟩ := Outcome.bind_eq_ok.mp h
    split at h
    · cases h
    · cases h
    · split at h
      · next child hchild =>
        cases h
        exact .inr ⟨hp, child, hchild, rfl⟩
      · cases h

def Supplies (x : Expansion) (source : Producer) (type : WireType) : Prop :=
  ∃ env p m k t, x.member env p = .ok m ∧ m.block.template = .builtin k ∧
    t ∈ m.block.terminals ∧ t.dir = .output ∧
    source = { node := m.id, output := m.block.ordinal t } ∧ type = t.type

theorem driver_mem {p : Place} {conn : Connection} (h : x.driver? p = some conn) :
    ∃ s, x.scopes[p.env]? = some s ∧ conn ∈ s.connections := by
  unfold driver? at h
  cases hs : x.scopes[p.env]? with
  | none => simp [hs] at h
  | some s =>
    simp only [hs, Option.bind_eq_bind, Option.bind_some] at h
    exact ⟨s, rfl, List.mem_of_find?_eq_some h⟩

theorem supplies_of_traceBack {u : Unit} (hcheck : Wiring.check x = .ok u) :
    ∀ {hops : Nat} {p : Place} {source : Producer} {type : WireType},
      x.traceBack hops p = .ok (some (source, type)) → x.Supplies source type
  | 0, _, _, _, h => nomatch h
  | hops + 1, p, source, type, h => by
    rw [traceBack] at h
    cases hdriver : x.driver? p with
    | none => simp [hdriver] at h
    | some conn =>
      simp only [hdriver] at h
      obtain ⟨e, he, h⟩ := Outcome.bind_eq_ok.mp h
      cases e with
      | nothing => cases h
      | beyond q => exact supplies_of_traceBack hcheck h
      | builtin m =>
        obtain ⟨hne, hm, k, hk⟩ := follow_builtin he
        obtain ⟨out, hout, h⟩ := Outcome.bind_eq_ok.mp h
        cases h
        unfold producer at hout
        cases ht : m.block.terminalAt conn.sourceTerminal with
        | none => simp [ht] at hout
        | some t =>
          simp only [ht, Except.ok.injEq, Prod.mk.injEq] at hout
          -- the last wire was checked, so it leaves its block by an output
          obtain ⟨s, hs, hconn⟩ := driver_mem hdriver
          obtain ⟨start, _, hchecked⟩ := checked_of_check hcheck hs hconn
          obtain ⟨b, howner, hstart⟩ := hchecked.source
          obtain ⟨m', hm', rfl⟩ := owner_of_ne hne howner
          rw [hm] at hm'
          cases hm'
          rw [ht] at hstart
          cases hstart
          have hdir : t.dir = .output := by
            simpa [sourceDirection, hne] using hchecked.leaves
          exact ⟨p.env, conn.source, m, k, t, hm, hk, (Block.terminalAt_eq_some ht).1, hdir,
            hout.1.symm, hout.2.symm⟩

def Starts (x : Expansion) (id : NodeId) : Prop :=
  ∃ env p m k t, x.member env p = .ok m ∧ m.block.template = .builtin k ∧
    t ∈ m.block.terminals ∧ t.dir = .input ∧ t.type = .void ∧ id = m.id

def ControlEnd (x : Expansion) (p : Place) : Prop :=
  ∃ b t, x.owner p.env p.node = .ok b ∧ b.terminalAt p.terminal = some t ∧ t.type = .void ∧
    t.dir = sinkDirection p.node

/-- Control wires only lead to control terminals. -/
theorem eq_void_of_drives {t u : WireType} (h : t.drives u = true) (ht : t = .void) :
    u = .void := by
  subst ht
  cases u <;> simp [WireType.drives] at h ⊢

theorem targets_mem {p q : Place} (h : q ∈ x.targets p) :
    ∃ s conn, x.scopes[p.env]? = some s ∧ conn ∈ s.connections ∧ conn.source = p.node ∧
      conn.sourceTerminal = p.terminal ∧ q = ⟨p.env, conn.target, conn.targetTerminal⟩ := by
  unfold targets at h
  cases hs : x.scopes[p.env]? with
  | none => simp [hs] at h
  | some s =>
    simp only [hs, List.mem_map] at h
    obtain ⟨conn, hconn, rfl⟩ := h
    obtain ⟨hmem, hends⟩ := List.mem_filter.mp hconn
    simp only [decide_eq_true_eq] at hends
    exact ⟨s, conn, rfl, hmem, hends.1, hends.2, rfl⟩

/-- The wires out of a place that is a control output, or is not an output at all. -/
theorem controlEnd_of_targets {u : Unit} (hcheck : Wiring.check x = .ok u) {p q : Place}
    (hstart : ∀ b t, x.owner p.env p.node = .ok b → b.terminalAt p.terminal = some t →
      t.dir = sourceDirection p.node → t.type = .void) (hq : q ∈ x.targets p) :
    x.ControlEnd q := by
  obtain ⟨s, conn, hs, hconn, hnode, hterminal, rfl⟩ := targets_mem hq
  obtain ⟨start, finish, hchecked⟩ := checked_of_check hcheck hs hconn
  obtain ⟨b, howner, hfind⟩ := hchecked.source
  obtain ⟨b', howner', hfind'⟩ := hchecked.target
  have hvoid := hstart b start (hnode ▸ howner) (hterminal ▸ hfind) (hnode ▸ hchecked.leaves)
  exact ⟨b', finish, howner', hfind', eq_void_of_drives hchecked.drives hvoid, hchecked.enters⟩

/-- Crossing a boundary leads from a control terminal to the same terminal on its other side. -/
theorem void_of_beyond (hc : c.Made) (hfit : ScopesFit c x.scopes) {p q : Place}
    (hp : x.ControlEnd p)
    (hfollow : x.follow p.env p.node p.terminal = .ok (.beyond q)) {b' : Block} {t' : Terminal}
    (howner' : x.owner q.env q.node = .ok b') (hfind' : b'.terminalAt q.terminal = some t')
    (hdir' : t'.dir = sourceDirection q.node) : t'.type = .void := by
  obtain ⟨b, t, howner, hfind, hvoid, hdir⟩ := hp
  rcases follow_beyond hfollow with ⟨hout, parent, custom, hparent, rfl⟩ |
    ⟨hne, child, hchild, rfl⟩
  · rw [hout] at howner hdir
    obtain ⟨parent', custom', m, hparent', hm, rfl⟩ := owner_outside howner
    rw [hparent, Option.some.injEq, Prod.mk.injEq] at hparent'
    obtain ⟨rfl, rfl⟩ := hparent'
    by_cases hcustom : custom = .outside
    · -- the block stands at the boundary's own position, where only inputs are sources
      rw [hcustom] at hdir' howner'
      have hin := (Block.terminalAt_eq_some hfind').2.trans (Block.terminalAt_eq_some hfind).2.symm
      exact absurd hin (Block.pos_ne_of_dir (placed_of_owner hc hfit howner')
        (placed_of_owner hc hfit howner) (Block.terminalAt_eq_some hfind').1
        (Block.terminalAt_eq_some hfind).1 hdir' hdir)
    · rw [owner_of_member hcustom hm] at howner'
      cases howner'
      rw [hfind] at hfind'
      cases hfind'
      exact hvoid
  · obtain ⟨m, hm, rfl⟩ := owner_of_ne hne howner
    obtain ⟨env', node', m', hparent', hm', rfl⟩ := owner_outside howner'
    rw [parent_of_child hchild, Option.some.injEq, Prod.mk.injEq] at hparent'
    obtain ⟨rfl, rfl⟩ := hparent'
    rw [hm] at hm'
    cases hm'
    rw [hfind] at hfind'
    cases hfind'
    exact hvoid

theorem controlEnd_of_beyond (hc : c.Made) (hfit : ScopesFit c x.scopes) {u : Unit}
    (hcheck : Wiring.check x = .ok u) {p q r : Place} (hp : x.ControlEnd p)
    (hfollow : x.follow p.env p.node p.terminal = .ok (.beyond q)) (hr : r ∈ x.targets q) :
    x.ControlEnd r :=
  controlEnd_of_targets hcheck (fun _ _ => void_of_beyond hc hfit hp hfollow) hr

theorem starts_of_traceForward (hc : c.Made) (hfit : ScopesFit c x.scopes) {u : Unit}
    (hcheck : Wiring.check x = .ok u) : ∀ {hops : Nat} {stack : List Place} {ids : List NodeId},
      x.traceForward hops stack = .ok ids → (∀ p ∈ stack, x.ControlEnd p) →
      ∀ id ∈ ids, x.Starts id
  | _, [], ids, h, _, id, hid => by
    rw [traceForward] at h
    cases h
    exact nomatch hid
  | 0, p :: rest, ids, h, _, id, hid => by
    rw [traceForward] at h
    exact nomatch h
  | hops + 1, p :: rest, ids, h, hstack, id, hid => by
    have hrest : ∀ q ∈ rest, x.ControlEnd q := fun q hq => hstack q (List.mem_cons_of_mem p hq)
    have hp := hstack p List.mem_cons_self
    rw [traceForward] at h
    obtain ⟨e, he, h⟩ := Outcome.bind_eq_ok.mp h
    cases e with
    | nothing => exact starts_of_traceForward hc hfit hcheck h hrest id hid
    | builtin m =>
      obtain ⟨more, hmore, h⟩ := Outcome.bind_eq_ok.mp h
      cases h
      cases hid with
      | tail _ hid => exact starts_of_traceForward hc hfit hcheck hmore hrest id hid
      | head =>
        obtain ⟨hne, hm, k, hk⟩ := follow_builtin he
        obtain ⟨b, t, howner, hfind, hvoid, hdir⟩ := hp
        obtain ⟨m', hm', rfl⟩ := owner_of_ne hne howner
        rw [hm] at hm'
        cases hm'
        exact ⟨p.env, p.node, m, k, t, hm, hk, (Block.terminalAt_eq_some hfind).1,
          by simpa [sinkDirection, hne] using hdir, hvoid, rfl⟩
    | beyond q =>
      refine starts_of_traceForward hc hfit hcheck h (fun r hr => ?_) id hid
      rcases List.mem_append.mp hr with hr | hr
      · exact controlEnd_of_beyond hc hfit hcheck hp he hr
      · exact hrest r hr

/-- The wires out of a control output of a block mean that output: at the boundary's own position,
they would run against the direction of the terminal. -/
theorem void_of_controlOutput (hc : c.Made) (hfit : ScopesFit c x.scopes) {env : EnvId} {s : Scope}
    {m : Member}
    {t : Terminal} (hs : x.scopes[env]? = some s) (hm : m ∈ s.members)
    (ht : t ∈ m.block.controlOutputs)
    {b : Block} {u : Terminal} (howner : x.owner env m.decl.pos = .ok b)
    (hfind : b.terminalAt t.pos = some u)
    (hdir : u.dir = sourceDirection m.decl.pos) : u.type = .void := by
  obtain ⟨hmem, hrole⟩ := List.mem_filter.mp ht
  simp only [Bool.and_eq_true, decide_eq_true_eq, beq_iff_eq, Terminal.isControl] at hrole
  have hmember := member_pos hfit hs hm
  have hplaced := (placed_of_member hc hfit hmember).1
  by_cases hout : m.decl.pos = .outside
  · simp only [hout] at howner hdir
    obtain ⟨hu, hpos⟩ := Block.terminalAt_eq_some hfind
    exact absurd hpos (Block.pos_ne_of_dir (placed_of_owner hc hfit howner) hplaced hu hmem hdir
      hrole.1)
  · obtain ⟨m', hm', rfl⟩ := owner_of_ne hout howner
    rw [hmember] at hm'
    cases hm'
    rw [Block.terminalAt_pos hplaced hmem] at hfind
    cases hfind
    exact hrole.2

/-- The statements that a control output of a built-in block starts have control inputs. -/
theorem starts_of_successors (hc : c.Made) (hfit : ScopesFit c x.scopes) {u : Unit}
    (hcheck : Wiring.check x = .ok u) {env : EnvId} {s : Scope} {m : Member} {t : Terminal}
    {ids : List NodeId} (hs : x.scopes[env]? = some s) (hm : m ∈ s.members)
    (ht : t ∈ m.block.controlOutputs)
    (h : x.successors ⟨env, m.decl.pos, t.pos⟩ = .ok ids) : ∀ id ∈ ids, x.Starts id := by
  refine starts_of_traceForward hc hfit hcheck h fun p hp => ?_
  exact controlEnd_of_targets hcheck (fun _ _ => void_of_controlOutput hc hfit hs hm ht) hp

end Expansion
end SignalGraph
