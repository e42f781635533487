import Mathlib.Logic.Relation
import SignalGraph.Proofs.Analysis.Expansion.Declarations
import SignalGraph.Proofs.Analysis.Tracing.Wires

/-!
# Crossings

How a control output is traced to the statements it starts.  The trace unfolds a tree: a boundary
gives way to the far ends of the wires behind it.  It fails only for want of budget, which pays for
every visit of the whole tree.  So it fails where a place lies beyond itself, and also where the
same places are visited along many ways.
-/

namespace SignalGraph
namespace Expansion

open Relation

/-- A wire's end at a boundary, and the far ends of the wires on the other side. -/
def Crosses (x : Expansion) (p q : Place) : Prop :=
  ∃ r, x.follow p.env p.node p.terminal = .ok (.beyond r) ∧ q ∈ x.targets r

/-- Crossing boundaries leads from a place to one that is beyond itself. -/
def Loops (x : Expansion) (p : Place) : Prop :=
  ∃ q, ReflTransGen x.Crosses p q ∧ TransGen x.Crosses q q

/-- The places of a stack are traced to the end in `n` visits, which meet the nodes `ids`. -/
inductive Walk (x : Expansion) : List Place → Nat → List NodeId → Prop
  | done : Walk x [] 0 []
  | nothing {p rest n ids} : x.follow p.env p.node p.terminal = .ok .nothing →
      Walk x rest n ids → Walk x (p :: rest) (n + 1) ids
  | builtin {p rest n ids m} : x.follow p.env p.node p.terminal = .ok (.builtin m) →
      Walk x rest n ids → Walk x (p :: rest) (n + 1) (m.id :: ids)
  | beyond {p rest n ids q} : x.follow p.env p.node p.terminal = .ok (.beyond q) →
      Walk x (x.targets q ++ rest) n ids → Walk x (p :: rest) (n + 1) ids

variable {x : Expansion}

theorem Walk.append {a b : List Place} {n m : Nat} {ids more : List NodeId} (ha : x.Walk a n ids)
    (hb : x.Walk b m more) : x.Walk (a ++ b) (n + m) (ids ++ more) := by
  induction ha with
  | done => simpa using hb
  | nothing he _ ih =>
    rw [Nat.add_right_comm]
    exact .nothing he ih
  | builtin he _ ih =>
    rw [Nat.add_right_comm]
    exact .builtin he ih
  | beyond he _ ih =>
    rw [Nat.add_right_comm]
    exact .beyond he (by rwa [List.append_assoc] at ih)

/-- A stack has one walk. -/
theorem Walk.unique {stack : List Place} {n m : Nat} {ids ids' : List NodeId}
    (h : x.Walk stack n ids) (h' : x.Walk stack m ids') : n = m ∧ ids = ids' := by
  induction h generalizing m ids' with
  | done =>
    cases h'
    exact ⟨rfl, rfl⟩
  | nothing he _ ih =>
    cases h' with
    | nothing _ h' => exact ⟨congrArg (· + 1) (ih h').1, (ih h').2⟩
    | builtin he' _ => exact nomatch he.symm.trans he'
    | beyond he' _ => exact nomatch he.symm.trans he'
  | builtin he _ ih =>
    cases h' with
    | nothing he' _ => exact nomatch he.symm.trans he'
    | builtin he' h' =>
      cases he.symm.trans he'
      exact ⟨congrArg (· + 1) (ih h').1, congrArg (_ :: ·) (ih h').2⟩
    | beyond he' _ => exact nomatch he.symm.trans he'
  | beyond he _ ih =>
    cases h' with
    | nothing he' _ => exact nomatch he.symm.trans he'
    | builtin he' _ => exact nomatch he.symm.trans he'
    | beyond he' h' =>
      cases he.symm.trans he'
      exact ⟨congrArg (· + 1) (ih h').1, (ih h').2⟩

/-- A trace succeeds with the nodes of a walk that the budget pays for. -/
theorem traceForward_of_walk {stack : List Place} {n : Nat} {ids : List NodeId}
    (h : x.Walk stack n ids) : ∀ {hops : Nat}, n ≤ hops → x.traceForward hops stack = .ok ids := by
  induction h with
  | done => exact fun _ => by rw [traceForward]
  | nothing he _ ih | beyond he _ ih =>
    intro hops hle
    obtain ⟨hops, rfl⟩ := Nat.exists_eq_add_of_le' (Nat.le_trans (Nat.le_add_left 1 _) hle)
    rw [traceForward, he]
    exact ih (Nat.le_of_succ_le_succ hle)
  | builtin he _ ih =>
    intro hops hle
    obtain ⟨hops, rfl⟩ := Nat.exists_eq_add_of_le' (Nat.le_trans (Nat.le_add_left 1 _) hle)
    rw [traceForward, he]
    simp only [bind, Except.bind, ih (Nat.le_of_succ_le_succ hle)]
    rfl

theorem walk_of_traceForward : ∀ {hops : Nat} {stack : List Place} {ids : List NodeId},
    x.traceForward hops stack = .ok ids → ∃ n, n ≤ hops ∧ x.Walk stack n ids
  | hops, [], ids, h => by
    rw [traceForward] at h
    cases h
    exact ⟨0, Nat.zero_le hops, .done⟩
  | 0, p :: rest, ids, h => by
    rw [traceForward] at h
    cases h
  | hops + 1, p :: rest, ids, h => by
    rw [traceForward] at h
    obtain ⟨e, he, h⟩ := Outcome.bind_eq_ok.mp h
    cases e with
    | nothing =>
      obtain ⟨n, hn, hwalk⟩ := walk_of_traceForward h
      exact ⟨n + 1, Nat.succ_le_succ hn, .nothing he hwalk⟩
    | builtin m =>
      obtain ⟨more, hmore, h⟩ := Outcome.bind_eq_ok.mp h
      cases h
      obtain ⟨n, hn, hwalk⟩ := walk_of_traceForward hmore
      exact ⟨n + 1, Nat.succ_le_succ hn, .builtin he hwalk⟩
    | beyond q =>
      obtain ⟨n, hn, hwalk⟩ := walk_of_traceForward h
      exact ⟨n + 1, Nat.succ_le_succ hn, .beyond he hwalk⟩

def Owned (x : Expansion) (p : Place) : Prop := ∃ b, x.owner p.env p.node = .ok b

theorem exists_follow {p : Place} (h : x.Owned p) :
    ∃ e, x.follow p.env p.node p.terminal = .ok e := by
  obtain ⟨b, hb⟩ := h
  by_cases hp : p.node = .outside
  · rw [hp] at hb
    obtain ⟨parent, pos, -, hparent, -⟩ := owner_outside hb
    exact ⟨_, by rw [follow, if_pos hp, hparent]⟩
  · obtain ⟨m, hm, -⟩ := owner_of_ne hp hb
    rw [follow, if_neg hp, hm]
    cases htemplate : m.block.template with
    | builtin k => exact ⟨.builtin m, by simp only [bind, Except.bind, htemplate]; rfl⟩
    | inert => exact ⟨.nothing, by simp only [bind, Except.bind, htemplate]; rfl⟩
    | custom g =>
      cases hchild : x.child? p.env p.node with
      | none => exact ⟨.nothing, by simp only [bind, Except.bind, htemplate]; rfl⟩
      | some child => exact ⟨_, by simp only [bind, Except.bind, htemplate]; rfl⟩

theorem owned_of_targets {u : Unit} (hcheck : Wiring.check x = .ok u) {p q : Place}
    (hq : q ∈ x.targets p) : x.Owned q := by
  obtain ⟨s, conn, hs, hconn, -, -, rfl⟩ := targets_mem hq
  obtain ⟨_, _, hchecked⟩ := Wiring.checked_of_check hcheck hs hconn
  obtain ⟨b, hb, -⟩ := hchecked.target
  exact ⟨b, hb⟩

/-- In a checked document only the budget makes a trace fail. -/
theorem traceForward_total {u : Unit} (hcheck : Wiring.check x = .ok u) :
    ∀ (hops : Nat) (stack : List Place), (∀ p ∈ stack, x.Owned p) →
      (∃ ids, x.traceForward hops stack = .ok ids) ∨
        ∃ pos, x.traceForward hops stack = .error (.cycle pos)
  | _, [], _ => .inl ⟨[], by rw [traceForward]⟩
  | 0, p :: rest, _ => .inr ⟨p.node, by rw [traceForward]⟩
  | hops + 1, p :: rest, howned => by
    obtain ⟨hp, hrest⟩ := List.forall_mem_cons.mp howned
    obtain ⟨e, he⟩ := exists_follow hp
    rw [traceForward, he]
    cases e with
    | nothing => exact traceForward_total hcheck hops rest hrest
    | builtin m =>
      rcases traceForward_total hcheck hops rest hrest with ⟨ids, hids⟩ | ⟨pos, hpos⟩
      · refine .inl ⟨m.id :: ids, ?_⟩
        simp only [bind, Except.bind, hids]
        rfl
      · refine .inr ⟨pos, ?_⟩
        simp only [bind, Except.bind, hpos]
    | beyond q =>
      refine traceForward_total hcheck hops _ fun r hr => ?_
      rcases List.mem_append.mp hr with hr | hr
      · exact owned_of_targets hcheck hr
      · exact hrest r hr

def ends (x : Expansion) : List Place :=
  x.scopes.zipIdx.flatMap fun (s, env) =>
    s.connections.map fun c => ⟨env, c.target, c.targetTerminal⟩

theorem length_ends (x : Expansion) : x.ends.length = x.wireCount := by
  have hall : ∀ (scopes : List Scope) (first : EnvId),
    ((scopes.zipIdx first).flatMap fun (s, env) =>
      s.connections.map fun c => (⟨env, c.target, c.targetTerminal⟩ : Place)).length =
        (scopes.flatMap fun s => s.connections).length := by
    intro scopes
    induction scopes with
    | nil => exact fun _ => rfl
    | cons s rest ih => exact fun first => by simp [List.zipIdx_cons, ih]
  exact hall x.scopes 0

theorem mem_ends_of_targets {p q : Place} (h : q ∈ x.targets p) : q ∈ x.ends := by
  obtain ⟨s, conn, hs, hconn, -, -, rfl⟩ := targets_mem h
  exact List.mem_flatMap.mpr ⟨(s, p.env), List.mem_zipIdx_iff_getElem?.mpr hs,
    List.mem_map_of_mem hconn⟩

theorem countP_lt_countP {α : Type} {l : List α} {a : α} {p q : α → Bool} (ha : a ∈ l)
    (hpq : ∀ b, p b = true → q b = true) (hp : p a = false) (hq : q a = true) :
    l.countP p < l.countP q := by
  induction l with
  | nil => exact nomatch ha
  | cons b rest ih =>
    rw [List.countP_cons, List.countP_cons]
    rcases List.mem_cons.mp ha with rfl | ha
    · have hle := List.countP_mono_left (l := rest) fun b _ => hpq b
      simp only [hp, hq, if_true, Bool.false_eq_true, if_false]
      omega
    · have hlt := ih ha
      by_cases hb : p b = true
      · simp only [hb, hpq b hb, if_true]
        omega
      · simp only [hb, if_false, Bool.false_eq_true]
        omega

open Classical in
/-- A relation into a finite set ends unless it leads into a loop, since fewer elements lie beyond
each step. -/
theorem acc_of_not_loop {α : Type} {r : α → α → Prop} {l : List α} (hl : ∀ {a b}, r a b → b ∈ l)
    {a : α} (h : ¬∃ b, ReflTransGen r a b ∧ TransGen r b b) : Acc (flip r) a := by
  induction hleft : l.countP (fun b => TransGen r a b) using Nat.strongRecOn
    generalizing a with
  | _ left ih =>
    refine ⟨_, fun b hab => ih _ ?_ (fun ⟨c, hbc, hcc⟩ => h ⟨c, .head hab hbc, hcc⟩) rfl⟩
    rw [← hleft]
    refine countP_lt_countP (hl hab) (fun c hbc => ?_) ?_ ?_
    · exact decide_eq_true (.head hab (of_decide_eq_true hbc))
    · exact decide_eq_false fun hbb => h ⟨b, .single hab, hbb⟩
    · exact decide_eq_true (.single hab)

theorem not_loop_of_acc {α : Type} {r : α → α → Prop} {a : α} (h : Acc (flip r) a) :
    ¬∃ b, ReflTransGen r a b ∧ TransGen r b b := by
  induction h with
  | intro a _ ih =>
    rintro ⟨b, hab, hbb⟩
    rcases hab.cases_head with rfl | ⟨c, hac, hcb⟩
    · obtain ⟨c, hac, hca⟩ := TransGen.head'_iff.mp hbb
      exact ih c hac ⟨a, hca, hbb⟩
    · exact ih c hac ⟨b, hcb, hbb⟩

/-! ## Which traces end -/

theorem acc_of_walk {stack : List Place} {n : Nat} {ids : List NodeId} (h : x.Walk stack n ids) :
    ∀ p ∈ stack, Acc (flip x.Crosses) p := by
  induction h with
  | done => exact fun _ hp => nomatch hp
  | nothing he _ ih =>
    refine List.forall_mem_cons.mpr ⟨⟨_, ?_⟩, ih⟩
    rintro q ⟨r, hr, -⟩
    exact nomatch he.symm.trans hr
  | builtin he _ ih =>
    refine List.forall_mem_cons.mpr ⟨⟨_, ?_⟩, ih⟩
    rintro q ⟨r, hr, -⟩
    exact nomatch he.symm.trans hr
  | beyond he _ ih =>
    refine List.forall_mem_cons.mpr ⟨⟨_, ?_⟩, fun p hp => ih p (List.mem_append_right _ hp)⟩
    rintro q ⟨r, hr, hq⟩
    cases he.symm.trans hr
    exact ih q (List.mem_append_left _ hq)

theorem walk_of_forall : ∀ {stack : List Place}, (∀ p ∈ stack, ∃ n ids, x.Walk [p] n ids) →
    ∃ n ids, x.Walk stack n ids
  | [], _ => ⟨0, [], .done⟩
  | p :: rest, h => by
    obtain ⟨hp, hrest⟩ := List.forall_mem_cons.mp h
    obtain ⟨n, ids, hwalk⟩ := hp
    obtain ⟨m, more, hmore⟩ := walk_of_forall hrest
    exact ⟨n + m, ids ++ more, hwalk.append hmore⟩

theorem walk_of_acc {u : Unit} (hcheck : Wiring.check x = .ok u) {p : Place}
    (h : Acc (flip x.Crosses) p) (howned : x.Owned p) : ∃ n ids, x.Walk [p] n ids := by
  induction h with
  | intro p _ ih =>
    obtain ⟨e, he⟩ := exists_follow howned
    cases e with
    | nothing => exact ⟨1, [], .nothing he .done⟩
    | builtin m => exact ⟨1, [m.id], .builtin he .done⟩
    | beyond q =>
      have hstack : ∀ r ∈ x.targets q, ∃ n ids, x.Walk [r] n ids := fun r hr =>
        ih r ⟨q, he, hr⟩ (owned_of_targets hcheck hr)
      obtain ⟨n, ids, hwalk⟩ := walk_of_forall hstack
      exact ⟨n + 1, ids, .beyond he (by rwa [List.append_nil])⟩

/-- The wires out of a place are traced to the end unless some of them lead into a loop. -/
theorem exists_walk_iff {u : Unit} (hcheck : Wiring.check x = .ok u) (p : Place) :
    (∃ n ids, x.Walk (x.targets p) n ids) ↔ ∀ q ∈ x.targets p, ¬x.Loops q := by
  constructor
  · rintro ⟨n, ids, hwalk⟩ q hq
    exact not_loop_of_acc (acc_of_walk hwalk q hq)
  · intro hloops
    refine walk_of_forall fun q hq => walk_of_acc hcheck ?_ (owned_of_targets hcheck hq)
    refine acc_of_not_loop (l := x.ends) ?_ (hloops q hq)
    rintro a b ⟨r, -, hb⟩
    exact mem_ends_of_targets hb

/-- The statements a control output starts are those on its walk, if that makes no more visits than
there are wires and one.  Otherwise a cycle is reported: for a loop, or for too many visits. -/
theorem successors_iff {u : Unit} (hcheck : Wiring.check x = .ok u) (p : Place) :
    (∀ ids, x.successors p = .ok ids ↔
      ∃ n, n ≤ x.wireCount + 1 ∧ x.Walk (x.targets p) n ids) ∧
    ((∃ pos, x.successors p = .error (.cycle pos)) ↔
      (∃ q ∈ x.targets p, x.Loops q) ∨
        ∃ n ids, x.wireCount + 1 < n ∧ x.Walk (x.targets p) n ids) ∧
    ∀ fault, x.successors p = .error fault → ∃ pos, fault = .cycle pos := by
  have hok : ∀ ids, x.successors p = .ok ids ↔
      ∃ n, n ≤ x.wireCount + 1 ∧ x.Walk (x.targets p) n ids := fun ids =>
    ⟨walk_of_traceForward, fun ⟨_, hn, hwalk⟩ => traceForward_of_walk hwalk hn⟩
  have htotal := traceForward_total hcheck x.budget (x.targets p) fun q hq =>
    owned_of_targets hcheck hq
  refine ⟨hok, ⟨?_, ?_⟩, ?_⟩
  · rintro ⟨pos, hpos⟩
    by_cases hloops : ∃ q ∈ x.targets p, x.Loops q
    · exact .inl hloops
    · simp only [not_exists, not_and] at hloops
      obtain ⟨n, ids, hwalk⟩ := (exists_walk_iff hcheck p).mpr hloops
      refine .inr ⟨n, ids, ?_, hwalk⟩
      rcases Nat.lt_or_ge (x.wireCount + 1) n with hlt | hge
      · exact hlt
      · exact nomatch hpos.symm.trans ((hok ids).mpr ⟨n, hge, hwalk⟩)
  · intro hwhy
    rcases htotal with ⟨ids, hids⟩ | ⟨pos, hpos⟩
    · exfalso
      obtain ⟨n, hn, hwalk⟩ := (hok ids).mp hids
      rcases hwhy with ⟨q, hq, hloop⟩ | ⟨m, ids', hm, hwalk'⟩
      · exact (exists_walk_iff hcheck p).mp ⟨n, ids, hwalk⟩ q hq hloop
      · have heq := (hwalk.unique hwalk').1
        omega
    · exact ⟨pos, hpos⟩
  · intro fault hfault
    rcases htotal with ⟨ids, hids⟩ | ⟨pos, hpos⟩
    · exact nomatch hfault.symm.trans hids
    · cases hfault.symm.trans hpos
      exact ⟨pos, rfl⟩

/-- A statement wired to two inputs of a block that both lead to its one output, and from there to
two more statements: six wires, and eight visits. -/
def joining : Document where
  main := {
    id := 0
    nodes := [{ pos := ⟨0, 0, 0⟩, kind := 252 }, { pos := ⟨4, 0, 4⟩, kind := 1000 },
      { pos := ⟨8, 0, 8⟩, kind := 256 }, { pos := ⟨12, 0, 12⟩, kind := 256 }]
    connections := [.between ⟨0, 0, 0⟩ ⟨3, 1, 0⟩ ⟨4, 0, 4⟩ ⟨0, 1, 11⟩,
      .between ⟨0, 0, 0⟩ ⟨3, 1, 0⟩ ⟨4, 0, 4⟩ ⟨0, 1, 3⟩,
      .between ⟨4, 0, 4⟩ ⟨15, 1, 3⟩ ⟨8, 0, 8⟩ ⟨3, 1, 15⟩,
      .between ⟨4, 0, 4⟩ ⟨15, 1, 3⟩ ⟨12, 0, 12⟩ ⟨3, 1, 15⟩] }
  blocks := [{
    id := 1000
    name := "join"
    footprint := ⟨2, 2⟩
    terminals := [{ type := .void, dir := .input }, { type := .void, dir := .input },
      { type := .void, dir := .output }]
    graph := {
      id := 7
      connections := [.between .outside ⟨0, 1, 11⟩ .outside ⟨15, 1, 3⟩,
        .between .outside ⟨0, 1, 3⟩ .outside ⟨15, 1, 3⟩] } }]

def joiningStart : Place := ⟨0, ⟨0, 0, 0⟩, ⟨3, 1, 0⟩⟩

theorem exists_joining : ∃ c x m t, Catalog.stock = .ok c ∧ Program.expansion c joining [] = .ok x ∧
    Wiring.check x = .ok () ∧ x.member 0 ⟨0, 0, 0⟩ = .ok m ∧ m.isBuiltin = true ∧
    t ∈ m.block.controlOutputs ∧ joiningStart = ⟨0, m.decl.pos, t.pos⟩ ∧ x.wireCount = 6 ∧
    x.Walk (x.targets joiningStart) 8 [1, 2, 1, 2] := by
  have hall : (Catalog.stock.bind fun c => Program.expansion c joining []).toOption.any (fun x =>
      (Wiring.check x).toOption.isSome ∧
      (x.member 0 ⟨0, 0, 0⟩).toOption.any (fun m => m.isBuiltin ∧
        m.block.controlOutputs.any fun t => joiningStart = ⟨0, m.decl.pos, t.pos⟩) ∧
      x.wireCount = 6 ∧
      (x.traceForward 7 (x.targets joiningStart)).toOption = none ∧
      (x.traceForward 8 (x.targets joiningStart)).toOption = some [1, 2, 1, 2]) = true := by
    decide +kernel
  obtain ⟨c, x, hc, -, hx, hall⟩ := Catalog.exists_stock hall
  obtain ⟨hcheck, hmember, hcount, hseven, height⟩ := of_decide_eq_true hall
  obtain ⟨u, hu⟩ := Option.isSome_iff_exists.mp hcheck
  obtain ⟨m, hm, hmember⟩ := Outcome.any_toOption.mp hmember
  obtain ⟨hbuiltin, hany⟩ := of_decide_eq_true hmember
  obtain ⟨t, ht, hplace⟩ := List.any_eq_true.mp hany
  obtain ⟨n, hn, hwalk⟩ := walk_of_traceForward (Outcome.toOption_eq_some.mp height)
  -- seven visits are not enough, so the walk has all eight
  have hlast : n = 8 := by
    rcases Nat.lt_or_eq_of_le hn with hlt | heq
    · have hless := traceForward_of_walk hwalk (Nat.le_of_lt_succ hlt)
      rw [hless] at hseven
      exact nomatch hseven
    · exact heq
  rw [hlast] at hwalk
  exact ⟨c, x, m, t, hc, hx, Outcome.toOption_eq_some.mp hu, hm, hbuiltin, ht,
    of_decide_eq_true hplace, hcount, hwalk⟩

theorem successors_iff_joining : ∃ c x, Program.expansion c joining [] = .ok x ∧
    Wiring.check x = .ok () ∧ ∃ pos, x.successors joiningStart = .error (.cycle pos) := by
  obtain ⟨c, x, -, -, -, hx, hcheck, -, -, -, -, hcount, hwalk⟩ := exists_joining
  exact ⟨c, x, hx, hcheck, (successors_iff hcheck joiningStart).2.1.mpr
    (.inr ⟨8, _, by rw [hcount]; decide, hwalk⟩)⟩

/-- The control output of a built-in block is refused as a cycle though nothing loops. -/
theorem cycle_without_loop : ∃ c x m t, Catalog.stock = .ok c ∧
    Program.expansion c joining [] = .ok x ∧ Wiring.check x = .ok () ∧
    x.member 0 ⟨0, 0, 0⟩ = .ok m ∧ m.isBuiltin = true ∧ t ∈ m.block.controlOutputs ∧
    (∃ pos, x.successors ⟨0, m.decl.pos, t.pos⟩ = .error (.cycle pos)) ∧
    ∀ q ∈ x.targets ⟨0, m.decl.pos, t.pos⟩, ¬x.Loops q := by
  obtain ⟨c, x, m, t, hc, hx, hcheck, hm, hbuiltin, ht, hplace, hcount, hwalk⟩ := exists_joining
  rw [hplace] at hwalk
  refine ⟨c, x, m, t, hc, hx, hcheck, hm, hbuiltin, ht, ?_, fun q hq =>
    not_loop_of_acc (acc_of_walk hwalk q hq)⟩
  rcases traceForward_total hcheck x.budget (x.targets ⟨0, m.decl.pos, t.pos⟩)
    (fun q hq => owned_of_targets hcheck hq) with ⟨ids, hids⟩ | hcycle
  · obtain ⟨n, hn, hwalk'⟩ := walk_of_traceForward hids
    have heq := (hwalk.unique hwalk').1
    rw [budget, hcount] at hn
    omega
  · exact hcycle

end Expansion
end SignalGraph
