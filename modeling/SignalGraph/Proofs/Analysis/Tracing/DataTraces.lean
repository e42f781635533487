import Mathlib.Data.List.Chain
import Mathlib.Data.List.Perm.Subperm
import Mathlib.Order.WellFounded
import SignalGraph.Proofs.Analysis.EntryPoints

/-!
# Data traces

What drives a data input, read off the wires: a chain of wires that are joined at the boundaries of
custom blocks.  It starts at an output of a built-in block, or at a terminal without a wire, or
nowhere.  The trace takes one step for each wire, and a chain with more wires than there are passes
some wire twice, so the budget only stops it where the chain has no start.
-/

namespace SignalGraph

theorem WireType.drives_trans {t u v : WireType} (h : t.drives u = true) (h' : u.drives v = true) :
    t.drives v = true := by
  cases t <;> cases u <;> cases v <;> simp_all [drives]

structure Strand where
  env : EnvId
  wire : Connection
  deriving DecidableEq

namespace Strand

def start (a : Strand) : Place := ⟨a.env, a.wire.source, a.wire.sourceTerminal⟩

def finish (a : Strand) : Place := ⟨a.env, a.wire.target, a.wire.targetTerminal⟩

end Strand

namespace Expansion

open Relation

def strands (x : Expansion) : List Strand :=
  x.scopes.zipIdx.flatMap fun (s, env) => s.connections.map fun c => ⟨env, c⟩

/-- What a wire that ends at the first place brings to a custom block, a wire that starts at the
second takes on from the same terminal on the other side of the boundary.  A wire from the position
that means the boundary never starts at a block that stands there. -/
inductive Joins (x : Expansion) : Place → Place → Prop
  | inward {env custom child terminal} : x.parent? child = some (env, custom) →
      Joins x ⟨env, custom, terminal⟩ ⟨child, .outside, terminal⟩
  | outward {env custom child terminal} : x.parent? child = some (env, custom) →
      custom ≠ .outside → Joins x ⟨child, .outside, terminal⟩ ⟨env, custom, terminal⟩

def Emits (x : Expansion) (p : Place) (source : Producer) (type : WireType) : Prop :=
  ∃ m t, x.instances[source.node]? = some (p.env, m) ∧ m.decl.pos = p.node ∧ p.node ≠ .outside ∧
    m.block.dataOutputs[source.output]? = some t ∧ t.pos = p.terminal ∧ t.type = type

/-- The wires on the way to a place, the last one first.  The way starts at a data output of a
built-in block, or at a place without a wire. -/
inductive Way (x : Expansion) : Place → List Strand → Option (Producer × WireType) → Prop
  | unwired {p} : (∀ a ∈ x.strands, a.finish ≠ p) → Way x p [] none
  | output {a source type} : a ∈ x.strands → x.Emits a.start source type →
      Way x a.finish [a] (some (source, type))
  | joined {a p l start} : a ∈ x.strands → x.Joins p a.start → Way x p l start →
      Way x a.finish (a :: l) start

/-- Wires that lead back from a place without end. -/
structure Endless (x : Expansion) (p : Place) (f : Nat → Strand) : Prop where
  ends : (f 0).finish = p
  wires : ∀ i, f i ∈ x.strands
  joins : ∀ i, x.Joins (f (i + 1)).finish (f i).start

variable {c : Catalog} {d : Document} {x : Expansion}

theorem mem_strands {a : Strand} :
    a ∈ x.strands ↔ ∃ s, x.scopes[a.env]? = some s ∧ a.wire ∈ s.connections := by
  obtain ⟨env, wire⟩ := a
  unfold strands
  rw [List.mem_flatMap]
  constructor
  · rintro ⟨⟨s, env'⟩, hs, hwire⟩
    obtain ⟨wire', hwire, heq⟩ := List.mem_map.mp hwire
    cases heq
    exact ⟨s, List.mem_zipIdx_iff_getElem?.mp hs, hwire⟩
  · rintro ⟨s, hs, hwire⟩
    exact ⟨(s, env), List.mem_zipIdx_iff_getElem?.mpr hs, List.mem_map_of_mem hwire⟩

theorem length_strands (x : Expansion) : x.strands.length = x.wireCount := by
  rw [← length_ends]
  simp [strands, ends, List.length_flatMap]

theorem mem_targets_of_mem {a : Strand} (ha : a ∈ x.strands) : a.finish ∈ x.targets a.start := by
  obtain ⟨s, hs, hwire⟩ := mem_strands.mp ha
  rw [Strand.start, targets, hs]
  exact List.mem_map.mpr ⟨a.wire, List.mem_filter.mpr ⟨hwire, by simp⟩, rfl⟩

/-- Crossing a boundary against the direction of a wire. -/
theorem joins_iff (h : ofDocument c d = .ok x) {p q : Place} :
    x.Joins p q ↔ x.follow q.env q.node q.terminal = .ok (.beyond p) := by
  constructor
  · intro hjoins
    cases hjoins with
    | inward hparent => simp [follow, hparent]
    | outward hparent hne =>
      obtain ⟨m, g, -, -, hm, hg, -⟩ := custom_of_parent h hparent
      simp only [follow, hne, if_false, hm, bind, Except.bind, Member.template_of_graph? hg,
        child_of_parent h hparent]
      rfl
  · intro hfollow
    obtain ⟨env, node, terminal⟩ := q
    rcases follow_beyond hfollow with ⟨hout, parent, custom, hparent, rfl⟩ |
      ⟨hne, child, hchild, rfl⟩
    · simp only at hout hparent
      subst hout
      exact .inward hparent
    · exact .outward (parent_of_child hchild) hne

/-- Nothing leads across a boundary to an output of a built-in block. -/
theorem Emits.not_joins (h : ofDocument c d = .ok x) {p q : Place} {source : Producer}
    {type : WireType} (hq : x.Emits q source type) : ¬x.Joins p q := by
  obtain ⟨m, -, hi, hpos, hne, -⟩ := hq
  intro hjoins
  cases hjoins with
  | inward hparent => exact hne rfl
  | outward hparent _ =>
    simp only at hi hpos
    rw [← hpos] at hparent
    exact not_custom_of_instance h hi hparent

theorem Joins.unique (h : ofDocument c d = .ok x) {p p' q : Place} (hp : x.Joins p q)
    (hp' : x.Joins p' q) : p = p' := by
  have heq := ((joins_iff h).mp hp).symm.trans ((joins_iff h).mp hp')
  simpa using heq

theorem Emits.unique (hc : c.Made) (h : ofDocument c d = .ok x) {p : Place}
    {source source' : Producer} {type type' : WireType} (hp : x.Emits p source type)
    (hp' : x.Emits p source' type') : source = source' ∧ type = type' := by
  obtain ⟨m, t, hi, hpos, -, ht, hterminal, rfl⟩ := hp
  obtain ⟨m', t', hi', hpos', -, ht', hterminal', rfl⟩ := hp'
  have hnode := id_unique h hi hi' (hpos.trans hpos'.symm)
  rw [← hnode] at hi'
  cases hi.symm.trans hi'
  obtain ⟨-, s, hs, hm⟩ := mem_instances (List.mem_of_getElem? hi)
  have hplaced := (placed_of_member hc (scopesFit_ofDocument h)
    (member_pos (scopesFit_ofDocument h) hs hm)).1
  have hmem := (List.mem_filter.mp (List.mem_of_getElem? ht)).1
  have hmem' := (List.mem_filter.mp (List.mem_of_getElem? ht')).1
  have heq := Block.terminalAt_pos hplaced hmem
  rw [hterminal.trans hterminal'.symm, Block.terminalAt_pos hplaced hmem'] at heq
  cases heq
  have houtput := Block.index_unique hplaced ht ht'
  obtain ⟨node, output⟩ := source
  obtain ⟨node', output'⟩ := source'
  simp only at hnode houtput
  exact ⟨by rw [hnode, houtput], rfl⟩

theorem Sink.unique {p : Place} {t t' : Terminal} (ht : x.Sink p t) (ht' : x.Sink p t') :
    t = t' := by
  obtain ⟨b, howner, hfind, -⟩ := ht
  obtain ⟨b', howner', hfind', -⟩ := ht'
  cases howner.symm.trans howner'
  exact Option.some.inj (hfind.symm.trans hfind')

theorem Emits.type_eq (hc : c.Made) (h : ofDocument c d = .ok x) {p : Place} {source : Producer}
    {type : WireType} {start : Terminal} (hp : x.Emits p source type) (hstart : x.Source p start) :
    type = start.type := by
  obtain ⟨m, t, hi, hpos, hne, ht, hterminal, rfl⟩ := hp
  obtain ⟨b, howner, hfind, -⟩ := hstart
  obtain ⟨m', hm', rfl⟩ := owner_of_ne hne howner
  obtain ⟨-, s, hs, hm⟩ := mem_instances (List.mem_of_getElem? hi)
  have hmember := member_pos (scopesFit_ofDocument h) hs hm
  rw [hpos] at hmember
  cases hmember.symm.trans hm'
  have hplaced := (placed_of_member hc (scopesFit_ofDocument h) hm').1
  rw [← hterminal, Block.terminalAt_pos hplaced
    (List.mem_filter.mp (List.mem_of_getElem? ht)).1] at hfind
  rw [Option.some.inj hfind]

def Carries (x : Expansion) (p : Place) : Prop := ∀ t, x.Sink p t → t.type ≠ .void

/-- The two wires that are joined at a boundary meet at one terminal. -/
theorem terminal_eq_of_joins (hc : c.Made) (h : ofDocument c d = .ok x) {p q : Place}
    {start t : Terminal} (hstart : x.Source q start) (hjoins : x.Joins p q) (ht : x.Sink p t) :
    t = start := by
  have hfollow := (joins_iff h).mp hjoins
  have hterminal := terminal_of_follow hfollow
  have hinner := inner_of_follow hc (scopesFit_ofDocument h) ht hstart hterminal
  exact terminal_eq_of_follow h (follow_back h hfollow hinner.symm).1 hinner ht hstart
    hterminal.symm

section Checked

variable {u : Unit} (hcheck : Wiring.check x = .ok u)

include hcheck

theorem linked_of_mem {a : Strand} (ha : a ∈ x.strands) : ∃ start finish, x.Source a.start start ∧
    x.Sink a.finish finish ∧ start.type.drives finish.type = true :=
  linked_of_targets hcheck (mem_targets_of_mem ha)

/-- Only one wire ends at a place for data. -/
theorem eq_of_finish {a b : Strand} (ha : a ∈ x.strands) (hb : b ∈ x.strands)
    (hcarries : x.Carries a.finish) (heq : a.finish = b.finish) : a = b := by
  obtain ⟨-, finish, -, hsink, -⟩ := linked_of_mem hcheck ha
  have hdata := hcarries finish hsink
  obtain ⟨block, howner, hfind, -⟩ := hsink
  obtain ⟨s, hs, hwire⟩ := mem_strands.mp ha
  obtain ⟨s', hs', hwire'⟩ := mem_strands.mp hb
  obtain ⟨env, wire⟩ := a
  obtain ⟨env', wire'⟩ := b
  simp only [Strand.finish, Place.mk.injEq] at heq howner hfind
  obtain ⟨rfl, hnode, hterminal⟩ := heq
  cases hs.symm.trans hs'
  have hclash : Wiring.Clash x env wire wire' :=
    ⟨hnode, hterminal, block, finish, hnode ▸ howner, hterminal ▸ hfind,
      by simpa [Terminal.isControl] using hdata⟩
  rw [show wire = wire' from Wiring.eq_of_clash hcheck hs hwire hwire' hclash]

variable (hc : c.Made) (h : ofDocument c d = .ok x)

include hc h

theorem carries_of_joins {a : Strand} {q : Place} (ha : a ∈ x.strands)
    (hcarries : x.Carries a.finish) (hjoins : x.Joins q a.start) : x.Carries q := by
  intro t ht hvoid
  obtain ⟨start, finish, hstart, hfinish, hdrives⟩ := linked_of_mem hcheck ha
  rw [terminal_eq_of_joins hc h hstart hjoins ht] at hvoid
  exact hcarries finish hfinish (eq_void_of_drives hdrives hvoid)

/-- There is one way to a place for data. -/
theorem Way.unique {p : Place} {l l' : List Strand} {start start' : Option (Producer × WireType)}
    (hw : x.Way p l start) (hw' : x.Way p l' start') (hcarries : x.Carries p) :
    l = l' ∧ start = start' := by
  induction hw generalizing l' start' with
  | unwired hnone =>
    cases hw' with
    | unwired _ => exact ⟨rfl, rfl⟩
    | output ha _ => exact absurd rfl (hnone _ ha)
    | joined ha _ _ => exact absurd rfl (hnone _ ha)
  | @output a source type ha hemits =>
    generalize hp : a.finish = p at hw'
    cases hw' with
    | unwired hnone => exact absurd hp (hnone a ha)
    | output hb hemits' =>
      cases eq_of_finish hcheck ha hb hcarries hp
      obtain ⟨rfl, rfl⟩ := hemits.unique hc h hemits'
      exact ⟨rfl, rfl⟩
    | joined hb hjoins _ =>
      cases eq_of_finish hcheck ha hb hcarries hp
      exact absurd hjoins (hemits.not_joins h)
  | @joined a q l start ha hjoins _ ih =>
    generalize hp : a.finish = p at hw'
    cases hw' with
    | unwired hnone => exact absurd hp (hnone a ha)
    | output hb hemits =>
      cases eq_of_finish hcheck ha hb hcarries hp
      exact absurd hjoins (hemits.not_joins h)
    | joined hb hjoins' hrest =>
      cases eq_of_finish hcheck ha hb hcarries hp
      cases hjoins.unique h hjoins'
      obtain ⟨rfl, rfl⟩ := ih hrest (carries_of_joins hcheck hc h ha hcarries hjoins)
      exact ⟨rfl, rfl⟩

/-- A way with a start does not go on without end. -/
theorem Way.not_endless {p : Place} {l : List Strand} {start : Option (Producer × WireType)}
    (hw : x.Way p l start) (hcarries : x.Carries p) : ∀ f, ¬x.Endless p f := by
  induction hw with
  | unwired hnone => exact fun f hf => hnone (f 0) (hf.wires 0) hf.ends
  | output ha hemits =>
    intro f hf
    cases eq_of_finish hcheck ha (hf.wires 0) hcarries hf.ends.symm
    exact hemits.not_joins h (hf.joins 0)
  | joined ha hjoins _ ih =>
    intro f hf
    cases eq_of_finish hcheck ha (hf.wires 0) hcarries hf.ends.symm
    exact ih (carries_of_joins hcheck hc h ha hcarries hjoins) (fun i => f (i + 1))
      ⟨(hf.joins 0).unique h hjoins, fun i => hf.wires (i + 1), fun i => hf.joins (i + 1)⟩

/-- What flows along a way can drive all that it comes to. -/
theorem Way.drives {p : Place} {l : List Strand} {source : Producer} {type : WireType}
    (hw : x.Way p l (some (source, type))) : ∀ t, x.Sink p t → type.drives t.type = true := by
  generalize hstart : some (source, type) = start at hw
  induction hw with
  | unwired _ => exact nomatch hstart
  | output ha hemits =>
    cases hstart
    intro t ht
    obtain ⟨start, finish, hsource, hsink, hdrives⟩ := linked_of_mem hcheck ha
    rw [hemits.type_eq hc h hsource, ht.unique hsink]
    exact hdrives
  | @joined a q l _ ha hjoins hrest ih =>
    intro t ht
    obtain ⟨start, finish, hsource, hsink, hdrives⟩ := linked_of_mem hcheck ha
    -- the way has a start, so some wire of it ends on the other side
    have hother : ∃ b ∈ x.strands, b.finish = q := by
      subst hstart
      cases hrest with
      | output hb _ => exact ⟨_, hb, rfl⟩
      | joined hb _ _ => exact ⟨_, hb, rfl⟩
    obtain ⟨b, hb, rfl⟩ := hother
    obtain ⟨-, other, -, hother, -⟩ := linked_of_mem hcheck hb
    have hflow := ih hstart other hother
    rw [terminal_eq_of_joins hc h hsource hjoins hother] at hflow
    rw [ht.unique hsink]
    exact WireType.drives_trans hflow hdrives

/-! ## The trace -/

/-- What one step of the trace comes to: no wire, an output of a built-in block, or a boundary. -/
theorem step_of_carries {p : Place} (hcarries : x.Carries p) :
    ((∀ a ∈ x.strands, a.finish ≠ p) ∧ ∀ hops, x.traceBack (hops + 1) p = .ok none) ∨
    ∃ a ∈ x.strands, a.finish = p ∧
      ((∃ source type, x.Emits a.start source type ∧
          ∀ hops, x.traceBack (hops + 1) p = .ok (some (source, type))) ∨
        ∃ q, x.Joins q a.start ∧ ∀ hops, x.traceBack (hops + 1) p = x.traceBack hops q) := by
  obtain ⟨env, node, terminal⟩ := p
  cases hdriver : x.driver? ⟨env, node, terminal⟩ with
  | none =>
    refine .inl ⟨fun a ha heq => ?_, fun hops => by rw [traceBack, hdriver]⟩
    obtain ⟨s, hs, hwire⟩ := mem_strands.mp ha
    simp only [Strand.finish, Place.mk.injEq] at heq
    obtain ⟨rfl, hnode, hterminal⟩ := heq
    simp only [driver?, hs, Option.bind_eq_bind, Option.bind_some] at hdriver
    exact List.find?_eq_none.mp hdriver a.wire hwire (by simp [hnode, hterminal])
  | some conn =>
    obtain ⟨s, hs, hconn⟩ := driver_mem hdriver
    have hend : conn.target = node ∧ conn.targetTerminal = terminal := by
      simp only [driver?, hs, Option.bind_eq_bind, Option.bind_some] at hdriver
      simpa using List.find?_some hdriver
    obtain ⟨rfl, rfl⟩ := hend
    have ha : (⟨env, conn⟩ : Strand) ∈ x.strands := mem_strands.mpr ⟨s, hs, hconn⟩
    refine .inr ⟨⟨env, conn⟩, ha, rfl, ?_⟩
    obtain ⟨start, finish, ⟨b, howner, hfind, hdir⟩, hsink, hdrives⟩ := linked_of_mem hcheck ha
    obtain ⟨e, he⟩ := exists_follow (p := Strand.start ⟨env, conn⟩) ⟨b, howner⟩
    cases e with
    | nothing => exact absurd he (follow_ne_nothing hc h howner hfind)
    | beyond q =>
      simp only [Strand.start] at he
      exact .inr ⟨q, (joins_iff h).mpr he, fun hops => by
        simp only [traceBack, hdriver, he, bind, Except.bind]⟩
    | builtin m =>
      simp only [Strand.start] at he howner hfind hdir
      obtain ⟨hne, hm, k, hk⟩ := follow_builtin he
      obtain ⟨m', hm', rfl⟩ := owner_of_ne hne howner
      cases hm.symm.trans hm'
      obtain ⟨hpos, hi⟩ := instance_of_member (scopesFit_ofDocument h) hm hk
      obtain ⟨hstart, hterminal⟩ := Block.terminalAt_eq_some hfind
      have hgroup := Block.group_ordinal (placed_of_member hc (scopesFit_ofDocument h) hm).1 hstart
      have hdata : start.isControl = false := by
        have hvoid := mt (drives_void hdrives).mp (hcarries finish hsink)
        simpa [Terminal.isControl] using hvoid
      rw [hdir, hdata, Wiring.sourceDirection, if_neg hne] at hgroup
      refine .inl ⟨{ node := m.id, output := m.block.ordinal start }, start.type,
        ⟨m, start, hi, hpos, hne, hgroup, hterminal, rfl⟩, fun hops => ?_⟩
      simp only [traceBack, hdriver, he, producer, hfind, bind, Except.bind]
      rfl

theorem way_of_traceBack {hops : Nat} : ∀ {p : Place} {start : Option (Producer × WireType)},
    x.Carries p → x.traceBack hops p = .ok start → ∃ l, x.Way p l start := by
  induction hops with
  | zero =>
    intro p start _ htrace
    rw [traceBack] at htrace
    cases htrace
  | succ hops ih =>
    intro p start hcarries htrace
    rcases step_of_carries hcheck hc h hcarries with ⟨hnone, hstep⟩ |
      ⟨a, ha, rfl, ⟨source, type, hemits, hstep⟩ | ⟨q, hjoins, hstep⟩⟩
    · rw [hstep] at htrace
      cases htrace
      exact ⟨[], .unwired hnone⟩
    · rw [hstep] at htrace
      cases htrace
      exact ⟨[a], .output ha hemits⟩
    · rw [hstep] at htrace
      obtain ⟨l, hway⟩ := ih (carries_of_joins hcheck hc h ha hcarries hjoins) htrace
      exact ⟨a :: l, .joined ha hjoins hway⟩

/-- A trace that fails has gone back along as many wires as it was allowed. -/
theorem wires_of_traceBack {hops : Nat} : ∀ {p : Place} {fault : Fault}, x.Carries p →
    x.traceBack hops p = .error fault → (∃ pos, fault = .cycle pos) ∧
      ∃ l : List Strand, l.length = hops ∧ (∀ a ∈ l, a ∈ x.strands) ∧
        (∀ a ∈ l.head?, a.finish = p) ∧ l.IsChain fun a b => x.Joins b.finish a.start := by
  induction hops with
  | zero =>
    intro p fault _ htrace
    rw [traceBack] at htrace
    cases htrace
    exact ⟨⟨p.node, rfl⟩, [], rfl, by simp, by simp, .nil⟩
  | succ hops ih =>
    intro p fault hcarries htrace
    rcases step_of_carries hcheck hc h hcarries with ⟨-, hstep⟩ |
      ⟨a, ha, rfl, ⟨source, type, -, hstep⟩ | ⟨q, hjoins, hstep⟩⟩
    · rw [hstep] at htrace
      cases htrace
    · rw [hstep] at htrace
      cases htrace
    · rw [hstep] at htrace
      obtain ⟨hcycle, l, hlen, hmem, hhead, hchain⟩ :=
        ih (carries_of_joins hcheck hc h ha hcarries hjoins) htrace
      refine ⟨hcycle, a :: l, congrArg (· + 1) hlen, List.forall_mem_cons.mpr ⟨ha, hmem⟩,
        by simp, ?_⟩
      cases l with
      | nil => exact .singleton a
      | cons b l =>
        refine .cons_cons ?_ hchain
        rw [hhead b rfl]
        exact hjoins

end Checked

/-- More wires than there are cannot all be different, so a chain of them can be followed for
ever. -/
theorem endless_of_wires {p : Place} {l : List Strand} (hlen : x.wireCount < l.length)
    (hmem : ∀ a ∈ l, a ∈ x.strands) (hhead : ∀ a ∈ l.head?, a.finish = p)
    (hchain : l.IsChain fun a b => x.Joins b.finish a.start) : ∃ f, x.Endless p f := by
  let back := fun a b : Strand => b ∈ x.strands ∧ x.Joins b.finish a.start
  have hpairs : l.Pairwise (TransGen back) := by
    refine List.isChain_iff_pairwise.mp (hchain.imp_of_mem_imp fun a b _ hb hjoins => ?_)
    exact .single ⟨hmem b hb, hjoins⟩
  cases l with
  | nil => exact absurd hlen (Nat.not_lt_zero _)
  | cons first rest =>
    have hloop : ∃ a ∈ first :: rest, TransGen back a a := by
      by_contra hnone
      have hnodup : (first :: rest).Nodup :=
        hpairs.imp_of_mem fun {a b} ha _ hab heq => by
          subst heq
          exact hnone ⟨a, ha, hab⟩
      have hle := (hnodup.subperm hmem).length_le
      rw [length_strands] at hle
      omega
    obtain ⟨a, ha, hloop⟩ := hloop
    have hreach : ReflTransGen back first a := by
      rcases List.mem_cons.mp ha with rfl | ha
      · exact .refl
      · exact ((List.pairwise_cons.mp hpairs).1 a ha).to_reflTransGen
    have hacc : ¬Acc (flip back) first := fun hacc => not_loop_of_acc hacc ⟨a, hreach, hloop⟩
    obtain ⟨f, hzero, hstep⟩ := not_acc_iff_exists_descending_chain.mp hacc
    have hfirst : f 0 ∈ x.strands := hzero ▸ hmem first List.mem_cons_self
    refine ⟨f, hzero ▸ hhead first rfl, fun i => ?_, fun i => (hstep i).2⟩
    cases i with
    | zero => exact hfirst
    | succ i => exact (hstep i).1

section Checked

variable {u : Unit} (hc : c.Made) (h : ofDocument c d = .ok x) {env : EnvId} {s : Scope}
  {m : Member}
  {t : Terminal} (hs : x.scopes[env]? = some s) (hm : m ∈ s.members)
  (ht : t ∈ m.block.dataInputs)

include hc h hs hm ht

/-- The wires that end at an input of a block do so by that input. -/
theorem sink_eq_input {t' : Terminal} (hsink : x.Sink ⟨env, m.decl.pos, t.pos⟩ t') : t' = t := by
  have hfit := scopesFit_ofDocument h
  have hmember := member_pos hfit hs hm
  obtain ⟨hmem, hrole⟩ := List.mem_filter.mp ht
  simp only [Bool.and_eq_true, decide_eq_true_eq] at hrole
  have hne := inner_of_sink hc hfit hmember hmem hrole.1 hsink
  obtain ⟨b, howner, hfind, -⟩ := hsink
  cases (owner_of_member hne hmember).symm.trans howner
  rw [Block.terminalAt_pos (placed_of_member hc hfit hmember).1 hmem] at hfind
  exact (Option.some.inj hfind).symm

theorem carries_of_dataInput : x.Carries ⟨env, m.decl.pos, t.pos⟩ := by
  intro t' hsink
  rw [sink_eq_input hc h hs hm ht hsink]
  have hrole := (List.mem_filter.mp ht).2
  simpa [Terminal.isControl] using (Bool.and_eq_true_iff.mp hrole).2

variable (hcheck : Wiring.check x = .ok u)

include hcheck

/-- The trace of a data input finds the start of the way to it, if there is one. -/
theorem driver_eq_ok_iff {start : Option (Producer × WireType)} :
    x.driver ⟨env, m.decl.pos, t.pos⟩ = .ok start ↔
      ∃ l, x.Way ⟨env, m.decl.pos, t.pos⟩ l start := by
  have hcarries := carries_of_dataInput hc h hs hm ht
  refine ⟨way_of_traceBack hcheck hc h hcarries, fun ⟨l, hway⟩ => ?_⟩
  cases htrace : x.driver ⟨env, m.decl.pos, t.pos⟩ with
  | error fault =>
    obtain ⟨-, wires, hlen, hmem, hhead, hchain⟩ :=
      wires_of_traceBack hcheck hc h hcarries htrace
    obtain ⟨f, hf⟩ := endless_of_wires (by rw [hlen, budget]; omega) hmem hhead hchain
    exact absurd hf (hway.not_endless hcheck hc h hcarries f)
  | ok start' =>
    obtain ⟨l', hway'⟩ := way_of_traceBack hcheck hc h hcarries htrace
    rw [(hway.unique hcheck hc h hway' hcarries).2]

/-- The trace fails only where the wires lead back without end, and calls that a cycle. -/
theorem driver_eq_error_iff {fault : Fault}
    (hfault : x.driver ⟨env, m.decl.pos, t.pos⟩ = .error fault) :
    (∃ pos, fault = .cycle pos) ∧ ∃ f, x.Endless ⟨env, m.decl.pos, t.pos⟩ f := by
  obtain ⟨hcycle, wires, hlen, hmem, hhead, hchain⟩ :=
    wires_of_traceBack hcheck hc h (carries_of_dataInput hc h hs hm ht) hfault
  exact ⟨hcycle, endless_of_wires (by rw [hlen, budget]; omega) hmem hhead hchain⟩

theorem drives_of_driver {source : Producer} {type : WireType}
    (hdriver : x.driver ⟨env, m.decl.pos, t.pos⟩ = .ok (some (source, type))) :
    type.drives t.type = true := by
  obtain ⟨l, hway⟩ := (driver_eq_ok_iff hc h hs hm ht hcheck).mp hdriver
  obtain ⟨a, ha, hend⟩ : ∃ a ∈ x.strands, a.finish = ⟨env, m.decl.pos, t.pos⟩ := by
    generalize hp : (⟨env, m.decl.pos, t.pos⟩ : Place) = p at hway
    cases hway with
    | output ha _ => exact ⟨_, ha, rfl⟩
    | joined ha _ _ => exact ⟨_, ha, rfl⟩
  obtain ⟨-, finish, -, hsink, -⟩ := linked_of_mem hcheck ha
  rw [hend] at hsink
  have hdrives := hway.drives hcheck hc h finish hsink
  rwa [sink_eq_input hc h hs hm ht hsink] at hdrives

end Checked

/-- Tracing a data input is exact: it finds the output at the start of the one way to the input, it
finds nothing if the way starts at a place without a wire, and it reports a cycle if the wires lead
back without end.  What it finds can drive the input. -/
theorem driver_exact {u : Unit} (hc : c.Made) (h : ofDocument c d = .ok x)
    (hcheck : Wiring.check x = .ok u) {env : EnvId} {s : Scope} {m : Member} {t : Terminal}
    (hs : x.scopes[env]? = some s) (hm : m ∈ s.members) (ht : t ∈ m.block.dataInputs) :
    (∀ start, x.driver ⟨env, m.decl.pos, t.pos⟩ = .ok start ↔
      ∃ l, x.Way ⟨env, m.decl.pos, t.pos⟩ l start) ∧
    (∀ l l' start start', x.Way ⟨env, m.decl.pos, t.pos⟩ l start →
      x.Way ⟨env, m.decl.pos, t.pos⟩ l' start' → l = l' ∧ start = start') ∧
    ((∃ pos, x.driver ⟨env, m.decl.pos, t.pos⟩ = .error (.cycle pos)) ↔
      ∃ f, x.Endless ⟨env, m.decl.pos, t.pos⟩ f) ∧
    (∀ fault, x.driver ⟨env, m.decl.pos, t.pos⟩ = .error fault → ∃ pos, fault = .cycle pos) ∧
    (∀ source type, x.driver ⟨env, m.decl.pos, t.pos⟩ = .ok (some (source, type)) →
      type.drives t.type = true) ∧
    ∀ kind input pos expected found,
      Nodes.operand x env m kind input t ≠ .error (.typeMismatch pos expected found) := by
  have hcarries := carries_of_dataInput hc h hs hm ht
  have hok := @driver_eq_ok_iff c d x u hc h env s m t hs hm ht hcheck
  have herror := @driver_eq_error_iff c d x u hc h env s m t hs hm ht hcheck
  have hdrives := @drives_of_driver c d x u hc h env s m t hs hm ht hcheck
  refine ⟨fun _ => hok, fun l l' start start' hw hw' => hw.unique hcheck hc h hw' hcarries,
    ⟨fun ⟨pos, hcycle⟩ => (herror hcycle).2, fun ⟨f, hf⟩ => ?_⟩,
    fun fault hfault => (herror hfault).1, fun source type => hdrives, ?_⟩
  · cases htrace : x.driver ⟨env, m.decl.pos, t.pos⟩ with
    | ok start =>
      obtain ⟨l, hway⟩ := hok.mp htrace
      exact absurd hf (hway.not_endless hcheck hc h hcarries f)
    | error fault =>
      obtain ⟨pos, rfl⟩ := (herror htrace).1
      exact ⟨pos, rfl⟩
  · intro kind input pos expected found hmismatch
    unfold Nodes.operand at hmismatch
    cases htrace : x.driver ⟨env, m.decl.pos, t.pos⟩ with
    | error fault =>
      obtain ⟨pos', rfl⟩ := (herror htrace).1
      simp only [htrace, bind, Except.bind] at hmismatch
      exact nomatch hmismatch
    | ok start =>
      simp only [htrace, bind, Except.bind] at hmismatch
      match start with
      | some (source, type) =>
        simp only [hdrives htrace, if_true] at hmismatch
        exact nomatch hmismatch
      | none =>
        simp only at hmismatch
        split at hmismatch <;> exact nomatch hmismatch

/-- A number that passes through a block on its way to the statement that shows it. -/
def passing : Document where
  main := {
    id := 0
    nodes := [{ pos := ⟨0, 0, 0⟩, kind := 36 }, { pos := ⟨4, 0, 4⟩, kind := 1000 },
      { pos := ⟨8, 0, 8⟩, kind := 16 }]
    connections := [.between ⟨0, 0, 0⟩ ⟨15, 1, 3⟩ ⟨4, 0, 4⟩ ⟨0, 1, 3⟩,
      .between ⟨4, 0, 4⟩ ⟨15, 1, 3⟩ ⟨8, 0, 8⟩ ⟨0, 1, 3⟩] }
  blocks := [{
    id := 1000
    name := "pass"
    footprint := ⟨2, 1⟩
    terminals := [{ type := .value .float, dir := .input },
      { type := .value .float, dir := .output }]
    graph := {
      id := 7
      connections := [.between .outside ⟨0, 1, 3⟩ .outside ⟨15, 1, 3⟩] } }]

theorem exists_passing : ∃ c x s m t, c.Made ∧ ofDocument c passing = .ok x ∧
    Wiring.check x = .ok () ∧ x.scopes[0]? = some s ∧ m ∈ s.members ∧ m.isBuiltin = true ∧
    t ∈ m.block.dataInputs ∧
    x.driver ⟨0, m.decl.pos, t.pos⟩ = .ok (some ({ node := 0, output := 0 }, .value .float)) := by
  have hall : (Catalog.stock.bind fun c => (passing.blocks.foldlM Catalog.addCustom c).bind fun c =>
      ofDocument c passing).toOption.any (fun x => (Wiring.check x).toOption.isSome ∧
        (x.scopes[0]?).any fun s => s.members.any fun m => m.block.dataInputs.any fun t =>
          (x.driver ⟨0, m.decl.pos, t.pos⟩).toOption =
            some (some ({ node := 0, output := 0 }, .value .float)) ∧ m.isBuiltin) = true := by
    decide +kernel
  obtain ⟨c, x, hc, hx, hall⟩ := Catalog.exists_stocked hall
  obtain ⟨hcheck, hany⟩ := of_decide_eq_true hall
  obtain ⟨u, hu⟩ := Option.isSome_iff_exists.mp hcheck
  obtain ⟨s, hs, hany⟩ := (Option.any_eq_true _ _).mp hany
  obtain ⟨m, hm, hany⟩ := List.any_eq_true.mp hany
  obtain ⟨t, ht, hdriver⟩ := List.any_eq_true.mp hany
  obtain ⟨hdriver, hbuiltin⟩ := of_decide_eq_true hdriver
  exact ⟨c, x, s, m, t, hc.made, hx, Outcome.toOption_eq_some.mp hu, hs, hm, hbuiltin, ht,
    Outcome.toOption_eq_some.mp hdriver⟩

theorem driver_exact_passing : ∃ c x s m t l, c.Made ∧ ofDocument c passing = .ok x ∧
    Wiring.check x = .ok () ∧ x.scopes[0]? = some s ∧ m ∈ s.members ∧ m.isBuiltin = true ∧
    t ∈ m.block.dataInputs ∧
    x.Way ⟨0, m.decl.pos, t.pos⟩ l (some ({ node := 0, output := 0 }, .value .float)) := by
  obtain ⟨c, x, s, m, t, hc, hx, hcheck, hs, hm, hb, ht, hdriver⟩ := exists_passing
  obtain ⟨l, hway⟩ := ((driver_exact hc hx hcheck hs hm ht).1 _).mp hdriver
  exact ⟨c, x, s, m, t, l, hc, hx, hcheck, hs, hm, hb, ht, hway⟩

end Expansion
end SignalGraph
