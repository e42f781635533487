import SignalGraph.Analysis.Analyse
import SignalGraph.Proofs.Analysis.Tracing.Feeding

/-!
# Faults of analysis

The faults that each stage of analysis may end with, and what they tell of the document.  Once the
wires are checked, no later stage finds a wire that leads nowhere.
-/

namespace SignalGraph

namespace Outcome

variable {ε α β : Type} {P : ε → Prop} {x : Except ε α}

def Fails (P : ε → Prop) (x : Except ε α) : Prop := ∀ e, x = .error e → P e

theorem fails_ok {a : α} : Fails P (.ok a : Except ε α) := nofun

theorem fails_error {e : ε} (h : P e) : Fails P (.error e : Except ε α) := fun _ he => by
  cases he
  exact h

theorem Fails.mono {Q : ε → Prop} (h : Fails P x) (hPQ : ∀ e, P e → Q e) : Fails Q x :=
  fun e he => hPQ e (h e he)

theorem fails_bind {f : α → Except ε β} (hx : Fails P x) (hf : ∀ a, x = .ok a → Fails P (f a)) :
    Fails P (x >>= f) := by
  cases x with
  | error e => exact fails_error (hx e rfl)
  | ok a => exact hf a rfl

theorem fails_map {f : α → β} (hx : Fails P x) : Fails P (x.map f) :=
  fun e he => hx e (map_eq_error.mp he)

theorem fails_guard {c : Prop} [Decidable c] {e : ε} {f : β → Except ε α} (he : c → P e)
    (hx : ¬c → Fails P x) :
    Fails P (if c then (throw e >>= f) else x) := by
  split
  · next h => exact fails_error (he h)
  · next h => exact hx h

theorem fails_mapM {f : α → Except ε β} :
    ∀ {l : List α}, (∀ a ∈ l, Fails P (f a)) → Fails P (l.mapM f)
  | [], _ => fails_ok
  | a :: l, h => by
    rw [List.mapM_cons]
    exact fails_bind (h a List.mem_cons_self) fun _ _ =>
      fails_bind (fails_mapM fun x hx => h x (List.mem_cons_of_mem a hx)) fun _ _ => fails_ok

theorem fails_filterMapM {f : α → Except ε (Option β)} : ∀ {l : List α}, (∀ a ∈ l, Fails P (f a)) →
    Fails P (l.filterMapM f)
  | [], _ => fails_ok
  | a :: l, h => by
    rw [List.filterMapM_cons]
    refine fails_bind (h a List.mem_cons_self) fun o _ => ?_
    have hrest : Fails P (l.filterMapM f) :=
      fails_filterMapM fun x hx => h x (List.mem_cons_of_mem a hx)
    cases o with
    | none => exact hrest
    | some b => exact fails_bind hrest fun _ _ => fails_ok

theorem fails_forM {f : α → Except ε Unit} :
    ∀ {l : List α}, (∀ a ∈ l, Fails P (f a)) → Fails P (l.forM f)
  | [], _ => fails_ok
  | a :: l, h => by
    rw [List.forM_eq_forM, List.forM_cons]
    exact fails_bind (h a List.mem_cons_self) fun _ _ =>
      fails_forM (l := l) fun x hx => h x (List.mem_cons_of_mem a hx)

theorem fails_foldlM {f : β → α → Except ε β} :
    ∀ {l : List α} {b : β}, (∀ a ∈ l, ∀ b, Fails P (f b a)) →
    Fails P (l.foldlM f b) :=
  fun h e he =>
    let ⟨a, ha, b, hstep⟩ := foldlM_eq_error he
    h a ha b e hstep

end Outcome

open Outcome

namespace Expansion

variable {c : Catalog} {d : Document}

inductive Refusal (c : Catalog) (d : Document) : Fault → Prop
  | unknownKind (id : KindId) (pos : Pos) : Refusal c d (.unknownKind id pos)
  | unknownGraph {b : Block} {g : GraphId} : b ∈ c.blocks → b.template = .custom g →
      d.graph? g = none →
    Refusal c d (.unknownGraph g)
  | selfInstance (g : GraphId) : Refusal c d (.breach (.selfInstance g))
  | sharedPosition {g : Graph} (pos : Pos) : g ∈ d.main :: d.blocks.map (·.graph) →
      ¬(g.nodes.map (·.pos)).Nodup →
    Refusal c d (.breach (.sharedPosition pos g.id))

theorem members_fails {g : Graph} (hg : g ∈ d.main :: d.blocks.map (·.graph))
    {enclosing : List GraphId} :
    ∀ {decls : List NodeDecl} {id : NodeId} {seen : List Pos},
      g.nodes.map (·.pos) = seen.reverse ++ decls.map (·.pos) →
        Fails (Refusal c d) (members c d g.id enclosing id seen decls)
  | [], _, _, _ => by
    rw [members]
    exact fails_ok
  | decl :: rest, id, seen, hseen => by
    rw [members]
    cases hfind : c.find? decl.kind with
    | none => exact fails_error (.unknownKind _ _)
    | some block =>
      have htail : Fails (Refusal c d) (do
          if seen.contains decl.pos then throw (.breach (.sharedPosition decl.pos g.id))
          let next := if Member.isBuiltin { decl, block, id } then id + 1 else id
          return { decl, block, id } ::
          (← members c d g.id enclosing next (decl.pos :: seen) rest) :
            Except Fault (List Member)) := by
        refine fails_guard (fun hmem => .sharedPosition _ hg fun hnodup => ?_) fun _ =>
          fails_bind (members_fails hg ?_) fun _ _ => fails_ok
        · rw [hseen, List.nodup_append] at hnodup
          exact hnodup.2.2 decl.pos (by simpa using hmem) decl.pos (by simp) rfl
        · rw [hseen]
          simp
      simp only
      split
      · next inner hinner =>
        refine fails_guard (fun hnone => ?_) fun _ => fails_guard (fun _ => .selfInstance _)
          fun _ => htail
        exact .unknownGraph (List.mem_of_find?_eq_some hfind) (Member.template_of_graph? hinner)
          (by simpa using hnone)
      · exact htail

theorem expandGraph_fails :
    ∀ (depth : Nat) {enclosing : List GraphId} {scopes : List Scope} {g : Graph}
    {parent : Option (EnvId × Pos)}, g ∈ d.main :: d.blocks.map (·.graph) →
      Fails (Refusal c d) (expandGraph c d depth enclosing scopes g parent)
  | 0, _, _, g, _, _ => by
    rw [expandGraph]
    exact fails_error (.selfInstance g.id)
  | depth + 1, enclosing, scopes, g, parent, hg => by
    rw [expandGraph]
    refine fails_bind (members_fails hg (by simp)) fun ms _ => fails_foldlM fun m _ mid => ?_
    split
    · next inner hinner =>
      obtain ⟨id, -, hfind⟩ := Option.bind_eq_some_iff.mp hinner
      obtain ⟨decl, hdecl, rfl⟩ := Option.map_eq_some_iff.mp hfind
      exact expandGraph_fails depth (List.mem_cons_of_mem _
        (List.mem_map_of_mem (List.mem_reverse.mp (List.mem_of_find?_eq_some hdecl))))
    · exact fails_ok

theorem ofDocument_fails (c : Catalog) (d : Document) : Fails (Refusal c d) (ofDocument c d) :=
  fails_bind (expandGraph_fails _ List.mem_cons_self) fun _ _ => fails_ok

end Expansion

/-! ## Wires -/

namespace Wiring

open Expansion

variable {x : Expansion}

inductive Stray : Fault → Prop
  | danglingWire (node : Pos) : Stray (.danglingWire node)
  | unknownTerminal (node terminal : Pos) : Stray (.unknownTerminal node terminal)
  | backwardWire (source sourceTerminal target targetTerminal : Pos) :
    Stray (.breach (.backwardWire source sourceTerminal target targetTerminal))

/-- Both ends of a wire are at terminals that face each other. -/
def Attached (x : Expansion) (env : EnvId) (w : Connection) : Prop :=
  (∃ t, x.Source ⟨env, w.source, w.sourceTerminal⟩ t) ∧
    ∃ t, x.Sink ⟨env, w.target, w.targetTerminal⟩ t

inductive Refusal (x : Expansion) : Fault → Prop
  | stray {env : EnvId} {s : Scope} {w : Connection} {f : Fault} : x.scopes[env]? = some s →
    w ∈ s.connections → ¬Attached x env w → Stray f → Refusal x f
  | typeMismatch (node : Pos) (expected found : WireType) :
      Refusal x (.typeMismatch node expected found)
  | multipleDrivers (node terminal : Pos) : Refusal x (.multipleDrivers node terminal)

theorem member_fails (env : EnvId) (pos : Pos) :
    Fails (fun f => f = .danglingWire pos) (x.member env pos) := by
  unfold member
  split
  · exact fails_ok
  · exact fails_error rfl

theorem owner_fails (env : EnvId) (pos : Pos) : Fails Stray (x.owner env pos) := by
  have hmember : ∀ env pos, Fails Stray (x.member env pos) := fun env pos =>
    (member_fails env pos).mono fun _ hf => hf ▸ .danglingWire pos
  unfold owner
  split
  · split
    · exact fails_error (.danglingWire _)
    · exact fails_bind (hmember _ _) fun _ _ => fails_ok
  · exact fails_bind (hmember _ _) fun _ _ => fails_ok

theorem terminal_fails (b : Block) (node pos : Pos) :
    Fails (fun f => Stray f ∧ b.terminalAt pos = none) (terminal b node pos) := by
  unfold terminal
  split
  · exact fails_ok
  · next hnone => exact fails_error ⟨.unknownTerminal node pos, hnone⟩

theorem checkWire_fails {env : EnvId} {s : Scope} {w : Connection} (hs : x.scopes[env]? = some s)
    (hw : w ∈ s.connections) (earlier : List Connection) :
    Fails (Refusal x) (checkWire x env earlier w) := by
  unfold checkWire
  refine fails_bind (fun f hf => ?_) fun source hsource =>
    fails_bind (fun f hf => ?_) fun target htarget =>
    fails_bind (fun f hf => ?_) fun start hstart =>
      fails_bind (fun f hf => ?_) fun finish hfinish =>
    fails_guard (fun hdirs => ?_) fun _ => fails_guard (fun _ => .typeMismatch _ _ _) fun _ => ?_
  · exact .stray hs hw (fun ⟨⟨_, _, howner, _⟩, _⟩ => nomatch hf.symm.trans howner)
      (owner_fails env _ f hf)
  · exact .stray hs hw (fun ⟨_, _, _, howner, _⟩ => nomatch hf.symm.trans howner)
      (owner_fails env _ f hf)
  · obtain ⟨hstray, hnone⟩ := terminal_fails source _ _ f hf
    refine .stray hs hw (fun ⟨⟨t, b, howner, ht, _⟩, _⟩ => ?_) hstray
    cases hsource.symm.trans howner
    exact nomatch hnone.symm.trans ht
  · obtain ⟨hstray, hnone⟩ := terminal_fails target _ _ f hf
    refine .stray hs hw (fun ⟨_, t, b, howner, ht, _⟩ => ?_) hstray
    cases htarget.symm.trans howner
    exact nomatch hnone.symm.trans ht
  · refine .stray hs hw (fun ⟨⟨t, b, howner, ht, hout⟩, t', b', howner', ht', hin⟩ => ?_)
      (.backwardWire _ _ _ _)
    cases hsource.symm.trans howner
    cases htarget.symm.trans howner'
    cases (terminal_eq_ok hstart).symm.trans ht
    cases (terminal_eq_ok hfinish).symm.trans ht'
    exact hdirs.elim (fun h => h hout) (fun h => h hin)
  · dsimp only
    split
    · exact fails_error (.multipleDrivers _ _)
    · exact fails_ok

theorem checkWires_fails {env : EnvId} {s : Scope} (hs : x.scopes[env]? = some s) :
    ∀ {rest earlier : List Connection}, (∀ w ∈ rest, w ∈ s.connections) →
      Fails (Refusal x) (checkWires x env earlier rest)
  | [], _, _ => by
    rw [checkWires]
    exact fails_ok
  | w :: rest, earlier, hrest => by
    obtain ⟨hw, hrest⟩ := List.forall_mem_cons.mp hrest
    rw [checkWires]
    exact fails_bind (checkWire_fails hs hw earlier) fun _ _ => checkWires_fails hs hrest

theorem check_fails (x : Expansion) : Fails (Refusal x) (check x) :=
  fails_forM fun (_, _) hs => checkWires_fails (List.mem_zipIdx_iff_getElem?.mp hs) fun _ hw => hw

end Wiring

namespace Nodes

variable {x : Expansion}

inductive Refusal : Fault → Prop
  | pointerVariable (name : String) (type : WireType) : Refusal (.pointerVariable name type)
  | typeMismatch (node : Pos) (expected found : WireType) :
      Refusal (.typeMismatch node expected found)
  | cycle (node : Pos) : Refusal (.cycle node)
  | noNode (id : NodeId) : Refusal (.breach (.noNode id))

theorem named?_fails (env : EnvId) (decl : NodeDecl) (k : Kind) :
    Fails Refusal (named? env decl k) := by
  unfold named?
  split
  · exact fails_ok
  · refine fails_map ?_
    unfold Variable.declare
    split
    · exact fails_ok
    · exact fails_error (.pointerVariable _ _)

theorem constant_fails (names : Variable → VarId) (env : EnvId) (decl : NodeDecl) (k : Kind) :
    Fails Refusal (constant names env decl k) := by
  refine fails_bind (named?_fails env decl k) fun v _ => ?_
  cases v with
  | none => exact fails_ok
  | some v => exact fails_ok

/-- A wire that is checked has a terminal to take the value from. -/
theorem traceBack_fails (hcheck : Wiring.check x = .ok ()) : ∀ (hops : Nat) (p : Place),
    Fails Refusal (x.traceBack hops p)
  | 0, p => by
    rw [Expansion.traceBack]
    exact fails_error (.cycle p.node)
  | hops + 1, p => by
    rw [Expansion.traceBack]
    cases hdriver : x.driver? p with
    | none => exact fails_ok
    | some w =>
      obtain ⟨s, hs, hw⟩ := Expansion.driver_mem hdriver
      obtain ⟨start, _, hchecked⟩ := Wiring.checked_of_check hcheck hs hw
      obtain ⟨b, howner, hstart⟩ := hchecked.source
      obtain ⟨e, he⟩ :=
        Expansion.exists_follow (p := ⟨p.env, w.source, w.sourceTerminal⟩) ⟨b, howner⟩
      simp only [he, bind, Except.bind]
      cases e with
      | nothing => exact fails_ok
      | beyond q => exact traceBack_fails hcheck hops q
      | builtin m =>
        obtain ⟨hne, hm, -⟩ := Expansion.follow_builtin he
        obtain ⟨m', hm', rfl⟩ := Expansion.owner_of_ne hne howner
        cases hm.symm.trans hm'
        simp only [Expansion.producer, hstart]
        exact fails_ok

theorem operand_fails (hcheck : Wiring.check x = .ok ()) (env : EnvId) (m : Member)
    (k : Kind) (i : Nat)
    (t : Terminal) : Fails Refusal (operand x env m k i t) := by
  refine fails_bind (traceBack_fails hcheck _ _) fun found _ => ?_
  cases found with
  | none =>
    simp only
    split <;> exact fails_ok
  | some found =>
    obtain ⟨source, type⟩ := found
    simp only
    split
    · exact fails_ok
    · exact fails_error (.typeMismatch _ _ _)

theorem successors_fails (hcheck : Wiring.check x = .ok ()) (p : Place) :
    Fails Refusal (x.successors p) := by
  intro f hf
  rcases Expansion.traceForward_total hcheck x.budget (x.targets p) fun q hq =>
    Expansion.owned_of_targets hcheck hq
    with ⟨ids, hids⟩ | ⟨pos, hpos⟩
  · exact nomatch hf.symm.trans hids
  · cases hf.symm.trans hpos
    exact .cycle pos

theorem build_fails (hcheck : Wiring.check x = .ok ()) (names : Variable → VarId) (env : EnvId)
    (m : Member)
    (k : Kind) : Fails Refusal (build x names env m k) :=
  fails_bind (constant_fails names env m.decl k) fun _ _ =>
    fails_bind (fails_mapM fun (t, i) _ => operand_fails hcheck env m k i t) fun _ _ =>
      fails_bind (fails_mapM fun _ _ => successors_fails hcheck _) fun _ _ => fails_ok

theorem isEntry_fails (hcheck : Wiring.check x = .ok ()) (env : EnvId) (m : Member) :
    Fails Refusal (isEntry x env m) := by
  unfold isEntry
  split
  · exact fails_ok
  · refine fails_map fun f hf => ?_
    obtain ⟨answer, hanswer⟩ := Expansion.exists_searchBack hcheck x.budget [] _
    exact nomatch hf.symm.trans hanswer

theorem all_fails (hcheck : Wiring.check x = .ok ()) (vars : List Variable) :
    Fails Refusal (all x vars) := by
  refine fails_filterMapM fun (env, m) _ => ?_
  simp only
  split
  · exact fails_ok
  · exact fails_bind (build_fails hcheck _ env m _) fun _ _ =>
      fails_bind (isEntry_fails hcheck env m) fun _ _ => fails_ok

end Nodes

namespace Order

variable (nodes : Array Node)

theorem cycleAt_refusal (id : NodeId) : Nodes.Refusal (cycleAt nodes id) := by
  unfold cycleAt
  split
  · exact .cycle _
  · exact .noNode id

theorem checkControl_fails : Fails Nodes.Refusal (checkControl nodes) := by
  unfold checkControl
  split
  · exact fails_ok
  · exact fails_error (cycleAt_refusal nodes _)

theorem volatileNodes_fails : Fails Nodes.Refusal (volatileNodes nodes) := by
  unfold volatileNodes
  split
  · exact fails_ok
  · exact fails_error (cycleAt_refusal nodes _)

end Order

inductive Program.Refusal (c : Catalog) (d : Document) : Fault → Prop
  | expansion {f : Fault} : Expansion.Refusal c d f → Refusal c d f
  | wiring {x : Expansion} {f : Fault} : Expansion.ofDocument c d = .ok x → Wiring.Refusal x f →
      Refusal c d f
  | nodes {f : Fault} : Nodes.Refusal f → Refusal c d f

theorem Program.analyse_fails (c : Catalog) (d : Document) : Fails (Refusal c d) (analyse c d) := by
  refine fails_bind ((Expansion.ofDocument_fails c d).mono fun _ => .expansion) fun x hx =>
    fails_bind ((Wiring.check_fails x).mono fun _ => .wiring hx) fun _ hcheck =>
    fails_bind ((Nodes.all_fails hcheck _).mono fun _ => .nodes) fun _ _ =>
    fails_bind ((Order.checkControl_fails _).mono fun _ => .nodes) fun _ _ =>
    fails_bind ((Order.volatileNodes_fails _).mono fun _ => .nodes) fun _ _ => fails_ok

end SignalGraph
