import SignalGraph.Proofs.Analysis.PointerChains
import SignalGraph.Proofs.Instrumentation.Chronicle.LateUpdates
import SignalGraph.Proofs.Instrumentation.Chronicle.MemoReads

/-!
# Pointers

The pointer that comes to an input is to the variable at the end of its chain.  So a call changes no
variable but those that a statement it executes names, or finds at the end of the chain of its
input.
-/

namespace SignalGraph

variable {σ : Type} {p : Program} {x : Expansion}

theorem VariableStore.cells_set {s : VariableStore} {q : Pointer} {var : VarId} (h : q.var ≠ var)
    (v : Value) :
    (s.set q v).cells[var]? = s.cells[var]? := by
  unfold set
  split
  · rfl
  · split
    · rw [Array.getElem?_modify, if_neg h]
    · rfl

namespace Program

open Chronicle

/-- A statement that may set a variable: it names the variable, or its pointer input is at the end
of a chain that begins with a block which does. -/
inductive Sets (p : Program) (x : Expansion) (id : NodeId) (var : VarId) : Prop
  | named {n : Node} {type : WireType} :
    p.nodes[id]? = some n → n.kind = .statement (.setVariable type) → p.variableOf id = some var →
    Sets p x id var
  | pointed {n : Node} {st : Statement} {env : EnvId} {m : Member} {t : Terminal} {g : NodeId} :
    p.nodes[id]? = some n → n.kind = .statement st → st.followsPointer = true →
    x.instances[id]? = some (env, m) → m.block.dataInputs[0]? = some t →
    x.Ends ⟨env, m.decl.pos, t.pos⟩ (some g) → p.variableOf g = some var → Sets p x id var

/-- After a lawful chronicle a stretch sets no variable but those that its statements may set. -/
def Spares (p : Program) (x : Expansion) : Tale := fun h es h' =>
  ∀ l, Lawful p (l ++ es) → ∀ var, (∀ id ∈ es.executed, ¬p.Sets x id var) →
    h'.vars.cells[var]? = h.vars.cells[var]?

/-- What the chain of a connected pointer input ends in, and what comes to the input. -/
theorem Stands.ends_of_wire (hx : p.Stands x) (hp : p.WellFormed) {id : NodeId} {n : Node} {i : Nat}
    {pin : Pin} {w : Wire} {r : Reading} (hget : p.nodes[id]? = some n)
    (hpin : n.kind.shape.inputs[i]? = some pin) (hpointer : pin.type.isPointer = true)
    (hinput : n.inputs[i]? = some (.wire w)) (hpoints : p.Points w.source r) :
    ∃ env m t found, x.instances[id]? = some (env, m) ∧ m.block.dataInputs[i]? = some t ∧
      x.Ends ⟨env, m.decl.pos, t.pos⟩ found ∧ r.pointee? = found.bind p.variableOf ∧
      (r.pointee? = none ↔ found = none) := by
  obtain ⟨env, m, hi, hn⟩ := hx id n hget
  obtain ⟨t, o, ht, -, ho, hholds⟩ := hn.inputs i pin hpin
  cases hinput.symm.trans ho
  cases hholds with
  | wire hway =>
    obtain ⟨hoffers, hsource⟩ := (hp.nodes id n hget).pointer_source hpin hpointer hinput
    obtain ⟨found, htraces⟩ := exists_traces hp hoffers hsource
    have hvariable := hpoints found htraces
    refine ⟨env, m, t, found, hi, ht, htraces.ends hx hway, hvariable, ?_⟩
    cases found with
    | none => exact iff_of_true hvariable rfl
    | some g =>
      obtain ⟨var, hvar⟩ := htraces.exists_variable hp
      have hsome : r.pointee? = some var := hvariable.trans hvar
      exact iff_of_false (by rw [hsome]; exact Option.some_ne_none var) (Option.some_ne_none g)

/-- The first input of a statement that follows a pointer takes one. -/
theorem pointer_of_follows {id : NodeId} {n : Node} (hn : n.Fits p id) {st : Statement}
    (hkind : n.kind = .statement st) (hfollows : st.followsPointer = true) :
    ∃ pin, n.kind.shape.inputs[0]? = some pin ∧ pin.type.isPointer = true := by
  have hplain := hn.plain
  rw [hkind] at hplain ⊢
  cases st with
  | setPointer t =>
    obtain ⟨b, rfl⟩ := WireType.isValue_iff.mp hplain
    exact ⟨_, rfl, rfl⟩
  | increment | decrement => exact ⟨_, rfl, rfl⟩
  | _ => cases hfollows

section

variable (hp : p.WellFormed) (hx : p.Stands x)
include hp hx

/-- What a statement reads from its pointer input points to a variable that it may set. -/
theorem sets_of_read {id : NodeId} {n : Node} {st : Statement} {r : Reading} {q : Pointer}
    (hget : p.nodes[id]? = some n) (hkind : n.kind = .statement st)
    (hfollows : st.followsPointer = true)
    {l : Chronicle} (hlawful : l.Lawful p) (hmem : .read id 0 r ∈ l) (hr : r.pointer? = some q) :
    p.Sets x id q.var := by
  obtain ⟨before, after, rfl⟩ := List.append_of_mem hmem
  obtain ⟨n', w, hget', hinput, hbacked⟩ := hlawful before id 0 r after rfl
  cases hget.symm.trans hget'
  have hn := hp.nodes id n hget
  obtain ⟨pin, hpin, hpointer⟩ := pointer_of_follows hn hkind hfollows
  obtain ⟨env, m, t, found, hi, ht, hends, hvariable, -⟩ :=
    hx.ends_of_wire hp hget hpin hpointer hinput hbacked.points
  have hsome : found.bind p.variableOf = some q.var := by
    rw [← hvariable, Reading.pointee?, hr]
    rfl
  obtain ⟨g, rfl, hvar⟩ := Option.bind_eq_some_iff.mp hsome
  exact .pointed hget hkind hfollows hi ht hends hvar

theorem carries_spares : Carries p (p.Spares x) where
  quiet _ _ _ _ _ _ _ := rfl
  append ha hb l hlawful var hvar := by
    rw [← List.append_assoc] at hlawful
    rw [executed_append] at hvar
    exact (hb _ hlawful var fun id hid => hvar id (List.mem_append_right _ hid)).trans
      (ha l hlawful.of_append var fun id hid => hvar id (List.mem_append_left _ hid))
  entered _ _ _ _ _ _ _ _ _ := rfl
  branched _ _ _ _ _ _ _ _ _ := rfl
  left _ _ _ _ _ _ _ _ _ := rfl
  store _ _ _ _ _ _ _ _ _ _ _ _ := rfl
  special id n h h' es hget hspecial l hlawful var hvar := by
    have hnot : ¬p.Sets x id var :=
      hvar id (mem_executed.mpr (List.mem_append_left _ List.mem_cons_self))
    cases hspecial with
    | late | again | first | missing => rfl
    | named hkind hvar' =>
      refine VariableStore.cells_set ?_ _
      rintro rfl
      refine hnot (.named hget hkind ?_)
      rw [variableOf, hget]
      exact hvar'
    | pointed hkind hfollows _ hread hr =>
      refine VariableStore.cells_set ?_ _
      rintro rfl
      refine hnot (sets_of_read hp hx hget hkind hfollows hlawful ?_ hr)
      exact List.mem_append_right _ (List.mem_append_left _ (List.mem_cons_of_mem _ hread))

theorem FrameRun.spares {h h' : Holdings} {es : Chronicle} (hrun : p.FrameRun h es h') :
    p.Spares x h es h' :=
  hrun.carries (carries_spares hp hx) fun _ _ _ _ _ _ => rfl

theorem LateRun.spares {h h' : Holdings} {es : Chronicle} {tasks : List NodeId}
    {r : Except Fault Unit}
    (hrun : p.LateRun tasks r h es h') : p.Spares x h es h' :=
  hrun.carries (carries_spares hp hx) fun _ _ _ _ _ _ => rfl

end

/-- A block means the variable of its name that its environment sees. -/
theorem Stages.variable_of_node {c : Catalog} {built : List (Node × Bool)} {nodes : List Node}
    {volatile : List NodeId} (h : Stages c p x built nodes volatile) {id : NodeId} {n : Node}
    {type : WireType}
    (hget : p.nodes[id]? = some n) (htype : n.kind.variableType = some type) :
    ∃ m var v, x.instances[id]? = some (n.env, m) ∧ p.variableOf id = some var ∧
      p.vars[var]? = some v ∧
      v.name = Nodes.variableName m.decl ∧ v.scope = Variable.scopeOf v.name n.env := by
  have hinspects : ∀ type, n.kind ≠ .statement (.inspect type) := by
    intro type' hkind
    rw [hkind] at htype
    cases htype
  obtain ⟨m, hi, hk, hconstant⟩ := h.constant_of_node hget hinspects
  obtain ⟨v, hnamed, -, hnames⟩ := Nodes.constant_named htype hconstant
  have hv : v ∈ Nodes.vars x := Nodes.mem_vars (List.mem_of_getElem? hi) hk hnamed
  refine ⟨m, _, v, hi, by rw [variableOf, hget, Option.bind_some, hnames]; rfl,
    by rw [h.vars]; exact List.getElem?_idxOf hv, Nodes.scope_of_named hnamed⟩

/-- A variable that is set from behind a list in a block of its own. -/
def lending : Document where
  main := {
    id := 0
    nodes := [{ pos := ⟨0, 0, 0⟩, kind := 48, settings := [.text "a"] },
      { pos := ⟨4, 0, 4⟩, kind := 1000 },
      { pos := ⟨12, 0, 12⟩, kind := 62 }]
    connections := [.between ⟨0, 0, 0⟩ ⟨15, 1, 3⟩ ⟨4, 0, 4⟩ ⟨0, 1, 3⟩,
      .between ⟨4, 0, 4⟩ ⟨15, 1, 3⟩ ⟨12, 0, 12⟩ ⟨0, 1, 11⟩] }
  blocks := [{
    id := 1000
    name := "lend"
    footprint := ⟨2, 1⟩
    terminals := [{ type := .pointer .obj, dir := .input },
      { type := .pointer .obj, dir := .output }]
    graph := {
      id := 7
      nodes := [{ pos := ⟨0, 0, 0⟩, kind := 86 }]
      connections := [.between .outside ⟨0, 1, 3⟩ ⟨0, 0, 0⟩ ⟨0, 1, 11⟩,
        .between ⟨0, 0, 0⟩ ⟨15, 1, 3⟩ .outside ⟨15, 1, 3⟩] } }]

theorem exists_analyse_lending : ∃ c p, c.Stocked ∧ analyse c lending = .ok p ∧
    p.nodes.size = 3 ∧ p.slots.length = 0 ∧ p.vars.length = 1 ∧ p.variableOf 0 = some 0 ∧
    p.nodes.toList.map (·.env) = [0, 0, 1] := by
  have hsome : (Catalog.stock.bind fun c =>
    (lending.blocks.foldlM Catalog.addCustom c).bind fun c =>
      analyse c lending).toOption.any (fun p => p.nodes.size = 3 ∧ p.slots.length = 0 ∧
        p.vars.length = 1 ∧
        p.variableOf 0 = some 0 ∧ p.nodes.toList.map (·.env) = [0, 0, 1]) = true := by
    decide +kernel
  obtain ⟨c, p, hc, hp, hsizes⟩ := Catalog.exists_stocked hsome
  exact ⟨c, p, hc, hp, of_decide_eq_true hsizes⟩

end Program

/-- Whatever comes to a pointer input points to the variable that is named at the end of the chain
of the input, and to none if nothing is connected there. -/
def Chronicle.Resolves (p : Program) (x : Expansion) (l : Chronicle) : Prop :=
  ∀ (before : Chronicle) (id : NodeId) (i : Nat) (r : Reading) (after : Chronicle) (env : EnvId)
    (m : Member)
    (t : Terminal), l = before ++ .read id i r :: after → x.instances[id]? = some (env, m) →
    m.block.dataInputs[i]? = some t → t.type.isPointer = true →
    ∃ found, x.Ends ⟨env, m.decl.pos, t.pos⟩ found ∧
      (∀ found', x.Ends ⟨env, m.decl.pos, t.pos⟩ found' → found' = found) ∧
      r.pointee? = found.bind p.variableOf ∧ (r.pointee? = none ↔ found = none)

namespace Backend

variable {e : Engine σ} {strategy : Strategy} {b : Backend σ}

/-- Pointers are resolved before the program runs.  What comes to a pointer input points to the
variable at the end of its chain, and a call changes no variable but those that the statements it
executes name, or find at the end of a chain.  A block means a variable of its own name and
environment.  Compiled code counts frames in a word of which one value stands for no frame, so there
this holds up to that frame; and it keeps ids in words, which are the limits on the size of the
program. -/
theorem pointers_resolved {c : Catalog} {d : Document} (hc : c.Stocked)
    (h : Program.analyse c d = .ok p) (hfit : strategy = .compiled → p.Addressable)
    {w : Backend (σ × Chronicle)} (hw : Chronicled strategy p e b w) :
    ∃ x l, Expansion.ofDocument c d = .ok x ∧ w = b.beside l ∧
      ((strategy = .compiled → b.frames < 4294967295) → l.Resolves p x) ∧
      (∃ es, w.tellFrame e = ((b.runFrame e).1, (b.runFrame e).2.beside (l ++ es)) ∧
        ((strategy = .compiled → b.frames + 1 < 4294967295) →
          ∀ var, (∀ id ∈ es.executed, ¬p.Sets x id var) →
            (b.runFrame e).2.vars.cells[var]? = b.vars.cells[var]?)) ∧
      (∀ tasks, ∃ es, w.tellLate e tasks =
          ((b.runLate e tasks).1, (b.runLate e tasks).2.beside (l ++ es)) ∧
        ((strategy = .compiled → b.frames < 4294967295) →
          ∀ var, (∀ id ∈ es.executed, ¬p.Sets x id var) →
            (b.runLate e tasks).2.vars.cells[var]? = b.vars.cells[var]?)) ∧
      ∀ (id : NodeId) (n : Node) (type : WireType), p.nodes[id]? = some n →
        n.kind.variableType = some type → ∃ m var v, x.instances[id]? = some (n.env, m) ∧
          p.variableOf id = some var ∧ p.vars[var]? = some v ∧ v.name = Nodes.variableName m.decl ∧
          v.scope = Variable.scopeOf v.name n.env := by
  have hp := Program.wellFormed_of_analyse hc h
  have howns := Program.owns_of_analyse hc h
  obtain ⟨x, built, nodes, volatile, hexpand, hstages⟩ := Program.stages_of_analyse hc h
  have hx := hstages.stands hexpand
  obtain ⟨l, rfl, htold, -⟩ := told_of_chronicled hp hfit howns (Program.shares_of_analyse hc h) hw
  refine ⟨x, l, hexpand, rfl, fun hlt => ?_, ?_, fun tasks => ?_,
    fun id n type => hstages.variable_of_node⟩
  · intro before id i r after env m t heq hi ht htype
    obtain ⟨n, w, hget, hinput, hbacked⟩ := htold.lawful hlt before id i r after heq
    obtain ⟨_, _, hi', hn⟩ := hx id n hget
    cases hi.symm.trans hi'
    have hbound := (List.getElem?_eq_some_iff.mp hinput).1
    rw [hn.arity] at hbound
    have hpin := List.getElem?_eq_getElem hbound
    obtain ⟨_, _, ht', hpinned, -⟩ := hn.inputs i _ hpin
    cases ht.symm.trans ht'
    obtain ⟨_, _, _, found, hi', ht', hends, hvariable⟩ :=
      hx.ends_of_wire hp hget hpin (hpinned ▸ htype) hinput hbacked.points
    cases hi.symm.trans hi'
    cases ht.symm.trans ht'
    refine ⟨found, hends, fun found' hends' => ?_, hvariable⟩
    exact hends'.unique hstages.checked hc.made hexpand hends
      (Expansion.carries_of_instance hc.made hexpand hi ht)
  · obtain ⟨tasks, es, hframe, htell, -, hrun, htold'⟩ := htold.frame (e := e) hp hfit howns
    rw [hframe] at htell
    refine ⟨es, htell.trans (by rw [hframe]),
      fun hlt var => hrun.spares hp hx l (htold'.lawful ?_) var⟩
    exact fun hcompiled => (frames_runFrame b).symm ▸ hlt hcompiled
  · obtain ⟨es, htell, hrun, htold'⟩ := htold.late (e := e) hp hfit howns tasks
    refine ⟨es, htell, fun hlt var => hrun.spares hp hx l (htold'.lawful ?_) var⟩
    exact fun hcompiled => (frames_runLate b tasks).symm ▸ hlt hcompiled

/-- A pointer that goes through a list in another environment. -/
theorem pointers_resolved_lending : ∃ c p, c.Stocked ∧ Program.analyse c Program.lending = .ok p ∧
    p.variableOf 0 = some 0 ∧ p.nodes.toList.map (·.env) = [0, 0, 1] ∧
    ∀ strategy, ∃ (b : Backend Headless) (w : Backend (Headless × Chronicle)),
      Chronicled strategy p Headless.engine b w ∧ ∃ (x : Expansion) (l es : Chronicle),
        Expansion.ofDocument c Program.lending = .ok x ∧ w = b.beside l ∧ l.Resolves p x ∧
        w.tellFrame Headless.engine =
          ((b.runFrame Headless.engine).1, (b.runFrame Headless.engine).2.beside (l ++ es)) ∧
        ∀ var, (∀ id ∈ es.executed, ¬p.Sets x id var) →
          (b.runFrame Headless.engine).2.vars.cells[var]? = b.vars.cells[var]? := by
  obtain ⟨c, p, hc, hp, hnodes, hslots, hvars, hvariable, henvs⟩ := Program.exists_analyse_lending
  refine ⟨c, p, hc, hp, hvariable, henvs, fun strategy => ?_⟩
  have hfit : p.Addressable := ⟨by omega, by omega, by omega⟩
  obtain ⟨b, w, hchronicled, hframes⟩ := exists_chronicled (Program.wellFormed_of_analyse hc hp)
    strategy Headless.engine (Headless.ofSeed 0) 1
  obtain ⟨x, l, hx, hl, hresolves, ⟨es, htell, hspares⟩, -⟩ :=
    pointers_resolved hc hp (fun _ => hfit) hchronicled
  exact ⟨_, _, hchronicled, x, l, es, hx, hl, hresolves (fun _ => by omega), htell,
    hspares fun _ => by omega⟩

/-- The pointer of a memo point that was never filled is to variable zero, while the chain of the
input ends in a block that names variable one. -/
theorem unfilled_pointer_read : ∃ c b w x l, c.Stocked ∧
    Program.analyse c Dormant.document = .ok Dormant.program ∧ Dormant.program.Addressable ∧
    Chronicled .compiled Dormant.program Dormant.engine b w ∧
    Expansion.ofDocument c Dormant.document = .ok x ∧ w = b.beside l ∧
    ¬l.Resolves Dormant.program x := by
  obtain ⟨c, hc, hp⟩ := Dormant.exists_analyse
  obtain ⟨b, l, l', rest, hw, heq⟩ := Dormant.exists_stale_read hc hp
  obtain ⟨x, built, nodes, volatile, hexpand, hstages⟩ := Program.stages_of_analyse hc hp
  have hx := hstages.stands hexpand
  refine ⟨c, b, _, x, l', hc, hp, Dormant.addressable, hw, hexpand, rfl, fun hresolves => ?_⟩
  obtain ⟨env, m, hi, hn⟩ := hx 3 (Dormant.setterNode ⟨12, 0, 12⟩ [4]) rfl
  obtain ⟨t, o, ht, htype, ho, hholds⟩ :=
    hn.inputs 0 { type := .pointer .obj, name := "Variable" } rfl
  cases ho
  cases hholds with
  | wire hway =>
    have hnamed : Dormant.program.Traces Dormant.pointerWire.source (some 1) := .named rfl rfl
    obtain ⟨found, -, honly, hpointee, -⟩ :=
      hresolves _ 3 0 _ rest env m t heq hi ht (by rw [htype]; rfl)
    cases honly _ (hnamed.ends hx hway)
    exact absurd hpointee (by decide)

end Backend
end SignalGraph
