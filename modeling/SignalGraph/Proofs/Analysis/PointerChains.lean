import SignalGraph.Proofs.Analysis.Realized
import SignalGraph.Proofs.Instrumentation.Chronicle.Freshness

/-!
# Chains of pointers

Every pointer output stands at the head of a chain of lists, and every pointer input of a document
at the end of a way to one.  A chain ends in one block that names a variable, or in an input that
nothing is connected to.
-/

namespace SignalGraph

/-- Only variables and lists have outputs that are pointers. -/
theorem Expression.isPointer_eq_false :
    ∀ x : Expression, (∀ t, x ≠ .getVariable t) → (∀ t, x ≠ .list t) →
    ∀ pin ∈ x.shape.dataOutputs, pin.type.isPointer = false
  | .literal l, _, _ => by
    rcases l with _ | _ | _ | (_ | _) <;> decide
  | .operation op, _, _ => by cases op <;> decide
  | .routine r, _, _ => by cases r <;> decide
  | .query q, _, _ => by cases q <;> decide
  | .currentFrame, _, _ => by decide
  | .and, _, _ => by decide
  | .or, _, _ => by decide
  | .getVariable t, h, _ => absurd rfl (h t)
  | .list t, _, h => absurd rfl (h t)

/-- A node with a pointer output is a variable or a list. -/
theorem Node.Fits.kind_of_pointer {p : Program} {id : NodeId} {n : Node} (h : n.Fits p id)
    {output : Nat}
    {type : WireType} (hout : n.outputs[output]? = some type) (hpointer : type.isPointer = true) :
    (∃ t, n.kind = .expression (.getVariable t)) ∨ ∃ t, n.kind = .expression (.list t) := by
  obtain ⟨pin, hpin, rfl⟩ := h.dataOutput hout
  have hplain := h.plain
  cases hkind : n.kind with
  | comment => exact absurd hkind h.known
  | statement st =>
    rw [hkind] at hpin hplain
    obtain ⟨_, _, _, _, -, -, -, ⟨-, htype⟩ | ⟨_, -, -, -, htype⟩⟩ :=
      Statement.slot_of_output hplain hpin
    · rw [htype] at hpointer
      cases hpointer
    · rw [htype] at hpointer
      cases hpointer
  | expression x =>
    rw [hkind] at hpin
    by_contra hneither
    obtain ⟨hvariable, hlist⟩ := not_or.mp hneither
    have hfalse := x.isPointer_eq_false (fun t heq => hvariable ⟨t, congrArg _ heq⟩)
      (fun t heq => hlist ⟨t, congrArg _ heq⟩) pin (List.mem_of_getElem? hpin)
    rw [hfalse] at hpointer
    cases hpointer

/-- What is connected to a pointer input is a pointer output. -/
theorem Node.Fits.pointer_source {p : Program} {id : NodeId} {n : Node} (h : n.Fits p id) {i : Nat}
    {pin : Pin} (hpin : n.kind.shape.inputs[i]? = some pin)
    (hpointer : pin.type.isPointer = true) {w : Wire}
    (hinput : n.inputs[i]? = some (.wire w)) :
    p.Offers w.source w.type ∧ w.type.isPointer = true := by
  obtain ⟨o, ho, hfits⟩ := h.inputs i pin hpin
  cases hinput.symm.trans ho
  cases hfits with
  | wire hw =>
    rcases hw.read with ⟨-, htype⟩ | ⟨_, -, -, htype⟩
    · exact ⟨hw.source, htype ▸ hpointer⟩
    · rw [htype] at hpointer
      cases hpointer

namespace Program

variable {p : Program}

/-- Reading does not go in circles, so every chain ends. -/
theorem exists_traces (hp : p.WellFormed) {source : Producer} {type : WireType}
    (hoffers : p.Offers source type) (hpointer : type.isPointer = true) :
    ∃ found, p.Traces source found := by
  obtain ⟨rank, hfalls⟩ := hp.reads
  induction hrank : rank source.node using Nat.strongRecOn generalizing source type with
  | ind k ih =>
    obtain ⟨n, hget, hout⟩ := hoffers
    have hn := hp.nodes _ n hget
    rcases hn.kind_of_pointer hout hpointer with ⟨t, hkind⟩ | ⟨t, hkind⟩
    · exact ⟨_, .named hget hkind⟩
    · have hplain := hn.plain
      have hstatement := hn.statement
      rw [hkind] at hplain hstatement
      obtain ⟨b, rfl⟩ := WireType.isValue_iff.mp hplain
      have hpin : n.kind.shape.inputs[0]? = some { type := .pointer b, name := "Variable" } := by
        rw [hkind]
        rfl
      rcases hn.absent_or_wire hpin (fun _ => WireType.noConfusion) with habsent | ⟨w, hinput, -⟩
      · exact ⟨_, .missing hget hkind habsent⟩
      · obtain ⟨hoffers, hpointer⟩ := hn.pointer_source hpin rfl hinput
        have hreads : p.Reads source.node w.source.node :=
          ⟨n, w, hget, hstatement, List.mem_of_getElem? hinput, rfl⟩
        obtain ⟨found, htraces⟩ := ih _ (hrank ▸ hfalls.falls _ _ hreads) hoffers hpointer rfl
        exact ⟨found, .element hget hkind hinput htraces⟩

/-- A chain that ends in a block ends in one that names a variable. -/
theorem Traces.exists_variable (hp : p.WellFormed) {source : Producer} {g : NodeId}
    (h : p.Traces source (some g)) : ∃ var, p.variableOf g = some var := by
  generalize hfound : some g = found at h
  induction h with
  | @named source n type hget hkind =>
    cases hfound
    obtain ⟨var, -, hconstant, -⟩ := (hp.nodes _ n hget).named type.toValue (by rw [hkind]; rfl)
    exact ⟨var, by rw [Program.variableOf, hget, Option.bind_some, hconstant]; rfl⟩
  | missing => cases hfound
  | element _ _ _ _ ih => exact ih hfound

end Program

namespace Expansion

/-- From a pointer input the wires lead to a block that names a variable, or to a list and on from
its own pointer input, or they lead nowhere. -/
inductive Ends (x : Expansion) : Place → Option NodeId → Prop
  | missing {q : Place} {l : List Strand} : x.Way q l none → Ends x q none
  | named {q : Place} {l : List Strand} {source : Producer} {type t : WireType} {env : EnvId}
      {m : Member} :
    x.Way q l (some (source, type)) → x.instances[source.node]? = some (env, m) →
    m.block.template = .builtin (.expression (.getVariable t)) → Ends x q (some source.node)
  | element {q : Place} {l : List Strand} {source : Producer} {type t : WireType} {env : EnvId}
    {m : Member} {terminal : Terminal} {found : Option NodeId} :
    x.Way q l (some (source, type)) → x.instances[source.node]? = some (env, m) →
    m.block.template = .builtin (.expression (.list t)) → m.block.dataInputs[0]? = some terminal →
    Ends x ⟨env, m.decl.pos, terminal.pos⟩ found → Ends x q found

section

variable {c : Catalog} {d : Document} {x : Expansion} {u : Unit} (hcheck : Wiring.check x = .ok u)
  (hc : c.Made) (h : ofDocument c d = .ok x)
include hcheck hc h

omit u hcheck in
theorem carries_of_instance {id : NodeId} {env : EnvId} {m : Member} {i : Nat} {terminal : Terminal}
    (hi : x.instances[id]? = some (env, m)) (ht : m.block.dataInputs[i]? = some terminal) :
    x.Carries ⟨env, m.decl.pos, terminal.pos⟩ := by
  obtain ⟨-, s, hs, hm⟩ := mem_instances (List.mem_of_getElem? hi)
  exact carries_of_dataInput hc h hs hm (List.mem_of_getElem? ht)

/-- There is one chain from a place for data. -/
theorem Ends.unique {q : Place} {found found' : Option NodeId} (hends : x.Ends q found)
    (hends' : x.Ends q found') (hcarries : x.Carries q) : found = found' := by
  induction hends generalizing found' with
  | missing hway =>
    cases hends' with
    | missing => rfl
    | named hway' | element hway' => cases (hway.unique hcheck hc h hway' hcarries).2
  | named hway hi hkind =>
    cases hends' with
    | missing hway' => cases (hway.unique hcheck hc h hway' hcarries).2
    | named hway' =>
      cases (hway.unique hcheck hc h hway' hcarries).2
      rfl
    | element hway' hi' hkind' =>
      cases (hway.unique hcheck hc h hway' hcarries).2
      cases hi.symm.trans hi'
      cases hkind.symm.trans hkind'
  | element hway hi hkind hterminal _ ih =>
    cases hends' with
    | missing hway' => cases (hway.unique hcheck hc h hway' hcarries).2
    | named hway' hi' hkind' =>
      cases (hway.unique hcheck hc h hway' hcarries).2
      cases hi.symm.trans hi'
      cases hkind.symm.trans hkind'
    | element hway' hi' _ hterminal' hrest =>
      cases (hway.unique hcheck hc h hway' hcarries).2
      cases hi.symm.trans hi'
      cases hterminal.symm.trans hterminal'
      exact ih hrest (carries_of_instance hc h hi hterminal)

end

end Expansion

namespace Program

open Expansion

variable {p : Program} {x : Expansion}

def Stands (p : Program) (x : Expansion) : Prop :=
  ∀ (id : NodeId) (n : Node), p.nodes[id]? = some n →
    ∃ env m, x.instances[id]? = some (env, m) ∧ n.Realizes p x id env m

theorem Stages.stands {c : Catalog} {d : Document} {built : List (Node × Bool)} {nodes : List Node}
    {volatile : List NodeId} (h : Stages c p x built nodes volatile) (hx : ofDocument c d = .ok x) :
    p.Stands x := by
  intro id n hget
  obtain ⟨env, m, hi⟩ := h.exists_instance (Array.getElem?_eq_some_iff.mp hget).1
  obtain ⟨n', hget', hn⟩ := h.realizes_of_instance hx hi
  cases hget.symm.trans hget'
  exact ⟨env, m, hi, hn⟩

/-- A list is a block whose first input stands for the list itself. -/
theorem Stands.list (hx : p.Stands x) {id : NodeId} {n : Node} {t : WireType} {o : Operand}
    (hget : p.nodes[id]? = some n) (hkind : n.kind = .expression (.list t))
    (hinput : n.inputs[0]? = some o) : ∃ env m terminal, x.instances[id]? = some (env, m) ∧
      m.block.template = .builtin (.expression (.list t)) ∧
      m.block.dataInputs[0]? = some terminal ∧
      p.Holds x ⟨env, m.decl.pos, terminal.pos⟩ { type := t.toPointer, name := "Variable" } o := by
  obtain ⟨env, m, hi, hn⟩ := hx id n hget
  obtain ⟨terminal, o', hterminal, -, ho, hholds⟩ :=
    hn.inputs 0 { type := t.toPointer, name := "Variable" } (by rw [hkind]; rfl)
  cases hinput.symm.trans ho
  exact ⟨env, m, terminal, hi, hkind ▸ hn.kind, hterminal, hholds⟩

/-- The chains of a program are those of the document. -/
theorem Traces.ends (hx : p.Stands x) {source : Producer} {found : Option NodeId}
    (h : p.Traces source found) : ∀ {q : Place} {l : List Strand} {type : WireType},
      x.Way q l (some (source, type)) → x.Ends q found := by
  induction h with
  | named hget hkind =>
    intro q l type hway
    obtain ⟨env, m, hi, hn⟩ := hx _ _ hget
    exact .named hway hi (hkind ▸ hn.kind)
  | @missing source n t hget hkind hinput =>
    intro q l type hway
    obtain ⟨env, m, terminal, hi, htemplate, hterminal, hholds⟩ := hx.list hget hkind hinput
    cases hholds with
    | absent hnone => exact .element hway hi htemplate hterminal (.missing hnone)
  | @element source n t w found hget hkind hinput _ ih =>
    intro q l type hway
    obtain ⟨env, m, terminal, hi, htemplate, hterminal, hholds⟩ := hx.list hget hkind hinput
    cases hholds with
    | wire hsome => exact .element hway hi htemplate hterminal (ih hsome)

end Program
end SignalGraph
