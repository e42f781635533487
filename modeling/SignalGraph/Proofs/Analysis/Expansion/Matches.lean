import Mathlib.Data.List.Perm.Lattice
import SignalGraph.Proofs.Analysis.Expansion.Rearranged
import SignalGraph.Proofs.Analysis.Tracing.DataTraces

/-!
# Matching expansions

Two expansions match if they have the same environments, the same blocks there but for comments, and
the same wires, in whatever order.  Wires are then traced to the same ends, and one is checked if
the other is.  Where control runs along the wires of a terminal, their order counts as well.
-/

namespace SignalGraph

structure Scope.Agrees (s s' : Scope) : Prop where
  environment : s'.environment = s.environment
  members : s'.members.filter Member.isLive = s.members.filter Member.isLive
  wires : (s'.connections.map Connection.plain).Perm (s.connections.map Connection.plain)

theorem Scope.Agrees.symm {s s' : Scope} (h : s.Agrees s') : s'.Agrees s :=
  ⟨h.environment.symm, h.members.symm, h.wires.symm⟩

theorem Scope.Rearranged.agrees {c : Catalog} {s s' : Scope} (h : s.Rearranged c s') :
    s.Agrees s' := by
  obtain ⟨g, g', hg, hg', hgraph⟩ := h.graphs
  refine ⟨h.environment, h.members, ?_⟩
  rw [hg.wires, hg'.wires]
  exact hgraph.wires

theorem Scope.Agrees.mem_wires {s s' : Scope} (h : s.Agrees s') {w : Connection}
    (hw : w ∈ s.connections) :
    ∃ w' ∈ s'.connections, w'.plain = w.plain :=
  List.mem_map.mp (h.wires.mem_iff.mpr (List.mem_map_of_mem hw))

namespace Expansion

open Wiring

/-- The second expansion has the environments of the first one, and what of its blocks and wires
counts. -/
structure Matches (x x' : Expansion) : Prop where
  environments : x'.scopes.map (·.environment) = x.scopes.map (·.environment)
  instances : x'.instances = x.instances
  member : ∀ {env pos m}, x.member env pos = .ok m → m.isLive = true → x'.member env pos = .ok m
  strand : ∀ {a}, a ∈ x.strands → ∃ a' ∈ x'.strands, a'.start = a.start ∧ a'.finish = a.finish

variable {c : Catalog} {d d' : Document} {x x' : Expansion}

theorem getElem?_forall₂ {α β : Type} {R : α → β → Prop} {l : List α} {l' : List β}
    (h : List.Forall₂ R l l')
    {i : Nat} {a : α} (hi : l[i]? = some a) : ∃ b, l'[i]? = some b ∧ R a b := by
  induction h generalizing i with
  | nil => cases hi
  | @cons a b l l' hab _ ih =>
    cases i with
    | zero =>
      cases hi
      exact ⟨b, rfl, hab⟩
    | succ i => exact ih hi

theorem zipIdx_flatMap_congr {α β γ : Type} {R : α → β → Prop} {f : α × Nat → List γ}
    {f' : β × Nat → List γ}
    {l : List α} {l' : List β} (h : List.Forall₂ R l l')
    (hf : ∀ a b i, R a b → f' (b, i) = f (a, i)) :
    ∀ i, (l'.zipIdx i).flatMap f' = (l.zipIdx i).flatMap f := by
  induction h with
  | nil => exact fun _ => rfl
  | cons hab _ ih =>
    intro i
    rw [List.zipIdx_cons, List.zipIdx_cons, List.flatMap_cons, List.flatMap_cons, hf _ _ i hab, ih]

theorem matches_of_agrees (h : List.Forall₂ Scope.Agrees x.scopes x'.scopes)
    (hfit : ScopesFit c x'.scopes) :
    Matches x x' where
  environments := environments_congr Scope.Agrees.environment h
  instances := by
    refine zipIdx_flatMap_congr h (fun s s' env hs => ?_) 0
    dsimp only
    rw [← filter_isBuiltin, hs.members, filter_isBuiltin]
  member := by
    intro env pos m hm hlive
    obtain ⟨rfl, s, hs, hmem⟩ := member_eq_ok hm
    obtain ⟨s', hs', hagrees⟩ := getElem?_forall₂ h hs
    have hmem' : m ∈ s.members.filter Member.isLive := List.mem_filter.mpr ⟨hmem, hlive⟩
    rw [← hagrees.members] at hmem'
    exact member_pos hfit hs' (List.mem_filter.mp hmem').1
  strand := by
    intro a ha
    obtain ⟨env, wire⟩ := a
    obtain ⟨s, hs, hwire⟩ := mem_strands.mp ha
    obtain ⟨s', hs', hagrees⟩ := getElem?_forall₂ h hs
    obtain ⟨wire', hwire', heq⟩ := hagrees.mem_wires hwire
    rw [Connection.plain, Connection.plain, Connection.mk.injEq] at heq
    obtain ⟨hsource, hsourceTerminal, htarget, htargetTerminal, -⟩ := heq
    refine ⟨⟨env, wire'⟩, mem_strands.mpr ⟨s', hs', hwire'⟩, ?_, ?_⟩
    · simp only [Strand.start, hsource, hsourceTerminal]
    · simp only [Strand.finish, htarget, htargetTerminal]

theorem live_of_terminal (hc : c.Made) (hfit : ScopesFit c x.scopes) {env : EnvId}
    {pos terminal : Pos} {b : Block}
    {t : Terminal} (howner : x.owner env pos = .ok b) (hfind : b.terminalAt terminal = some t) :
    b.template ≠ .inert := by
  have hmember : ∃ env pos m, x.member env pos = .ok m ∧ m.block = b := by
    by_cases hpos : pos = .outside
    · subst hpos
      obtain ⟨parent, p, m, -, hm, hb⟩ := owner_outside howner
      exact ⟨parent, p, m, hm, hb⟩
    · obtain ⟨m, hm, hb⟩ := owner_of_ne hpos howner
      exact ⟨env, pos, m, hm, hb⟩
  obtain ⟨_, _, m, hm, rfl⟩ := hmember
  intro hinert
  have hnone := (placed_of_member hc hfit hm).2 hinert
  have hmem := (Block.terminalAt_eq_some hfind).1
  rw [hnone] at hmem
  cases hmem

namespace Matches

variable (hm : Matches x x')
include hm

theorem parent? (env : EnvId) : x'.parent? env = x.parent? env := by
  rw [parent?_eq, parent?_eq, hm.environments]

theorem joins {p q : Place} (h : x.Joins p q) : x'.Joins p q := by
  cases h with
  | inward hparent => exact .inward ((hm.parent? _).trans hparent)
  | outward hparent hne => exact .outward ((hm.parent? _).trans hparent) hne

theorem owner {env : EnvId} {pos : Pos} {b : Block} (h : x.owner env pos = .ok b)
    (hlive : b.template ≠ .inert) :
    x'.owner env pos = .ok b := by
  by_cases hpos : pos = .outside
  · subst hpos
    obtain ⟨parent, p, m, hparent, hmember, rfl⟩ := owner_outside h
    have hmember' := hm.member hmember (by simpa [Member.isLive] using hlive)
    rw [Expansion.owner, if_pos rfl, hm.parent?, hparent]
    simp only [hmember']
    rfl
  · obtain ⟨m, hmember, rfl⟩ := owner_of_ne hpos h
    exact owner_of_member hpos (hm.member hmember (by simpa [Member.isLive] using hlive))

theorem follow (h : ofDocument c d = .ok x) (h' : ofDocument c d' = .ok x') {p : Place} {e : End}
    (hfollow : x.follow p.env p.node p.terminal = .ok e) (he : e ≠ .nothing) :
    x'.follow p.env p.node p.terminal = .ok e := by
  cases e with
  | nothing => exact absurd rfl he
  | beyond q => exact (joins_iff h').mp (hm.joins ((joins_iff h).mpr hfollow))
  | builtin m =>
    obtain ⟨hne, hmember, k, hk⟩ := follow_builtin hfollow
    have hmember' := hm.member hmember (by simp [Member.isLive, hk])
    rw [Expansion.follow, if_neg hne, hmember']
    simp only [bind, Except.bind, hk]
    rfl

theorem emits {p : Place} {source : Producer} {type : WireType} (h : x.Emits p source type) :
    x'.Emits p source type := by
  unfold Emits at h ⊢
  rw [hm.instances]
  exact h

theorem targets {p q : Place} (h : q ∈ x.targets p) : q ∈ x'.targets p := by
  obtain ⟨s, wire, hs, hwire, hnode, hterminal, rfl⟩ := targets_mem h
  obtain ⟨a', ha', hstart, hfinish⟩ :=
    hm.strand (a := ⟨p.env, wire⟩) (mem_strands.mpr ⟨s, hs, hwire⟩)
  have hmem := mem_targets_of_mem ha'
  rw [hstart, hfinish, Strand.start, Strand.finish] at hmem
  obtain ⟨env, node, terminal⟩ := p
  cases hnode
  cases hterminal
  exact hmem

end Matches

theorem Way.of_matches (hm : Matches x x') (hm' : Matches x' x) {p : Place} {l : List Strand}
    {start : Option (Producer × WireType)} (h : x.Way p l start) : ∃ l', x'.Way p l' start := by
  induction h with
  | @unwired p hnone =>
    refine ⟨[], .unwired fun a ha heq => ?_⟩
    obtain ⟨a', ha', -, hfinish⟩ := hm'.strand ha
    exact hnone a' ha' (hfinish.trans heq)
  | output ha hemits =>
    obtain ⟨a', ha', hstart, hfinish⟩ := hm.strand ha
    rw [← hfinish]
    exact ⟨[a'], .output ha' (hstart ▸ hm.emits hemits)⟩
  | joined ha hjoins _ ih =>
    obtain ⟨a', ha', hstart, hfinish⟩ := hm.strand ha
    obtain ⟨l', hway⟩ := ih
    rw [← hfinish]
    exact ⟨a' :: l', .joined ha' (hstart ▸ hm.joins hjoins) hway⟩

section

variable (hm : Matches x x') (hc : c.Made) (hfit : ScopesFit c x.scopes)
include hm hc hfit

theorem checked_of_matches {env : EnvId} {w w' : Connection} (heq : w'.plain = w.plain)
    {start finish : Terminal}
    (h : Checked x env w start finish) : Checked x' env w' start finish := by
  rw [Connection.plain, Connection.plain, Connection.mk.injEq] at heq
  obtain ⟨hsource, hsourceTerminal, htarget, htargetTerminal, -⟩ := heq
  obtain ⟨⟨b, howner, hfind⟩, ⟨b', howner', hfind'⟩, hleaves, henters, hdrives⟩ := h
  refine ⟨⟨b, ?_, hsourceTerminal ▸ hfind⟩,
    ⟨b', ?_, htargetTerminal ▸ hfind'⟩, hsource ▸ hleaves, htarget ▸ henters,
    hdrives⟩
  · rw [hsource]
    exact hm.owner howner (live_of_terminal hc hfit howner hfind)
  · rw [htarget]
    exact hm.owner howner' (live_of_terminal hc hfit howner' hfind')

theorem clash_of_matches {env : EnvId} {e w : Connection} (h : Clash x env e w) :
    Clash x' env e w := by
  obtain ⟨hnode, hterminal, b, t, howner, hfind, hdata⟩ := h
  exact ⟨hnode, hterminal, b, t, hm.owner howner (live_of_terminal hc hfit howner hfind),
    hfind, hdata⟩

end

theorem checkWire_ok {env : EnvId} {earlier : List Connection} {w : Connection}
    {start finish : Terminal}
    (h : Checked x env w start finish) (hfree : ∀ e ∈ earlier, ¬Clash x env e w) :
    checkWire x env earlier w = .ok () := by
  obtain ⟨⟨b, howner, hfind⟩, ⟨b', howner', hfind'⟩, hleaves, henters, hdrives⟩ := h
  have htaken : ¬(¬finish.isControl = true ∧ (earlier.any fun e => e.target = w.target ∧
      e.targetTerminal = w.targetTerminal) = true) := by
    rintro ⟨hdata, htaken⟩
    obtain ⟨e, he, hsame⟩ := List.any_eq_true.mp htaken
    obtain ⟨hnode, hterminal⟩ := of_decide_eq_true hsame
    exact hfree e he ⟨hnode, hterminal, b', finish, howner', hfind', by simpa using hdata⟩
  have hdirs : ¬(start.dir ≠ sourceDirection w.source ∨ finish.dir ≠ sinkDirection w.target) :=
    fun h => h.elim (fun hne => hne hleaves) fun hne => hne henters
  unfold checkWire
  simp only [howner, howner', Wiring.terminal, hfind, hfind', bind, Except.bind,
    if_neg hdirs, hdrives,
    if_neg htaken]
  rfl

theorem checkWires_ok {env : EnvId} : ∀ {rest earlier : List Connection},
    (∀ w ∈ rest, ∃ start finish, Checked x env w start finish) →
      rest.Pairwise (fun e w => ¬Clash x env e w) →
    (∀ e ∈ earlier, ∀ w ∈ rest, ¬Clash x env e w) → checkWires x env earlier rest = .ok ()
  | [], _, _, _, _ => rfl
  | w :: rest, earlier, hchecked, hpairs, hearlier => by
    obtain ⟨⟨start, finish, hw⟩, hchecked⟩ := List.forall_mem_cons.mp hchecked
    obtain ⟨hhead, hpairs⟩ := List.pairwise_cons.mp hpairs
    rw [checkWires, checkWire_ok hw fun e he => hearlier e he w List.mem_cons_self]
    refine checkWires_ok hchecked hpairs fun e he w' hw' => ?_
    rcases List.mem_cons.mp he with rfl | he
    · exact hhead w' hw'
    · exact hearlier e he w' (List.mem_cons_of_mem w hw')

/-- What passes the check does so with its wires in any order. -/
theorem check_of_agrees (h : List.Forall₂ Scope.Agrees x.scopes x'.scopes) (hc : c.Made)
    (hfit : ScopesFit c x.scopes) (hfit' : ScopesFit c x'.scopes) {u : Unit}
    (hcheck : check x = .ok u) :
    check x' = .ok () := by
  have hm := matches_of_agrees h hfit'
  have hm' := matches_of_agrees (h.flip.imp fun _ _ hs => hs.symm) hfit
  refine Outcome.forM_ok fun found hfound => ?_
  obtain ⟨s', env⟩ := found
  have hs' := List.mem_zipIdx_iff_getElem?.mp hfound
  obtain ⟨s, hs, hagrees⟩ := getElem?_forall₂ h.flip hs'
  have hwires := Outcome.forM_eq_ok hcheck (s, env) (List.mem_zipIdx_iff_getElem?.mpr hs)
  refine checkWires_ok (fun w' hw' => ?_) ?_ fun e he => absurd he List.not_mem_nil
  · obtain ⟨w, hw, heq⟩ := hagrees.symm.mem_wires hw'
    obtain ⟨start, finish, hchecked⟩ := checked_of_checkWires hwires w hw
    exact ⟨start, finish, checked_of_matches hm hc hfit heq.symm hchecked⟩
  · -- a clash is one of the places that wires lead to, so their order does not matter
    have hplain : (s.connections.map Connection.plain).Pairwise fun e w => ¬Clash x env e w :=
      List.pairwise_map.mpr (not_clash_of_checkWires hwires).1
    have hpairs := (hagrees.wires.pairwise_iff fun hne hclash => hne hclash.symm).mpr hplain
    exact (List.pairwise_map.mp hpairs).imp fun hne hclash =>
      hne (clash_of_matches hm' hc hfit' hclash)

end Expansion
end SignalGraph
