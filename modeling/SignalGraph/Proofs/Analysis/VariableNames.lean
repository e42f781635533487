import SignalGraph.Proofs.Instrumentation.Chronicle.Freshness
import SignalGraph.Proofs.Stores.Saved

/-!
# Names of variables

Which blocks mean the same variable.  A block says a name and a type, and the first character of the
name tells whether all blocks share it or only those of one environment.  Variables are numbered as
they are first named.

Main statement: two blocks name one variable if and only if they say the same and may share it, the
variables are the ones that are named, in the order of their first mention, and looking one up finds
the variable that the main graph means.
-/

namespace SignalGraph

/-- Numbers are given out in the order of first occurrences: what has a smaller number comes
earlier. -/
theorem mem_of_idxOf_lt {α : Type} [DecidableEq α] {a b : α} {before after : List α}
    (h : (before ++ b :: after).eraseDups.idxOf a < (before ++ b :: after).eraseDups.idxOf b) :
    a ∈ before := by
  rw [List.eraseDups_append] at h
  have hlast : ((before.eraseDups) ++ ((b :: after).removeAll before).eraseDups).idxOf b ≤
      before.eraseDups.length := by
    rw [List.idxOf_append]
    by_cases hb : b ∈ before
    · rw [if_pos (List.mem_eraseDups.mpr hb)]
      exact List.idxOf_le_length
    · have hkeep : (b :: after).removeAll before = b :: after.removeAll before := by
        simp [List.removeAll, hb]
      rw [if_neg (mt List.mem_eraseDups.mp hb), hkeep, List.eraseDups_cons, List.idxOf_cons_self]
      omega
  by_contra ha
  rw [List.idxOf_append_of_notMem (mt List.mem_eraseDups.mp ha)] at h
  omega

structure Mention where
  env : EnvId
  name : String
  type : Base
  deriving DecidableEq

namespace Mention

/-- Whether blocks of all environments mean the same by the name. -/
def IsShared (m : Mention) : Prop :=
  m.name.toList.head? = some '!' ∨ m.name.toList.head? = some '$'

instance (m : Mention) : Decidable m.IsShared := inferInstanceAs (Decidable (_ ∨ _))

def meant (m : Mention) : Variable :=
  { name := m.name, type := m.type, scope := Variable.scopeOf m.name m.env }

theorem scopeOf_eq_iff (name : String) (env env' : EnvId) :
    Variable.scopeOf name env = Variable.scopeOf name env' ↔
      (name.toList.head? = some '!' ∨ name.toList.head? = some '$') ∨ env = env' := by
  unfold Variable.scopeOf
  split
  · next heq => simp [heq]
  · next heq => simp [heq]
  · next hsaved hglobal =>
    have hhead : ∀ c, name.toList.head? = some c → ∃ rest, name.toList = c :: rest := fun c hc =>
      List.head?_eq_some_iff.mp hc
    have hown : ¬(name.toList.head? = some '!' ∨ name.toList.head? = some '$') := by
      rintro (hc | hc)
      · obtain ⟨rest, hrest⟩ := hhead _ hc
        exact hsaved rest hrest
      · obtain ⟨rest, hrest⟩ := hhead _ hc
        exact hglobal rest hrest
    simp [hown]

theorem meant_eq_iff {a b : Mention} :
    a.meant = b.meant ↔ a.name = b.name ∧ a.type = b.type ∧ (a.IsShared ∨ a.env = b.env) := by
  unfold meant
  rw [Variable.mk.injEq]
  constructor
  · rintro ⟨hname, htype, hscope⟩
    rw [← hname, scopeOf_eq_iff] at hscope
    exact ⟨hname, htype, hscope⟩
  · rintro ⟨hname, htype, hshared⟩
    refine ⟨hname, htype, ?_⟩
    rw [← hname, scopeOf_eq_iff]
    exact hshared

/-- Mentions of a variable that the main graph can mean as well. -/
theorem rooted_iff (m : Mention) :
    (m.meant.scope = .within 0 ∨ m.meant.scope = .global ∨ m.meant.scope = .saved) ↔
      m.IsShared ∨ m.env = 0 := by
  have hroot : m.meant.scope = .within 0 ∨ m.meant.scope = .global ∨ m.meant.scope = .saved ↔
      Variable.scopeOf m.name m.env = Variable.scopeOf m.name 0 := by
    unfold meant Variable.scopeOf
    dsimp only
    split <;> simp
  rw [hroot]
  exact scopeOf_eq_iff m.name m.env 0

end Mention

namespace Expansion

def mentionOf (i : EnvId × Member) : Option Mention :=
  match i.2.kind? >>= Kind.variableType with
  | some (.value type) => some { env := i.1, name := Nodes.variableName i.2.decl, type }
  | _ => none

/-- What the block says that is built as node `id`, if it names a variable. -/
def mention? (x : Expansion) (id : NodeId) : Option Mention := x.instances[id]? >>= mentionOf

variable {x : Expansion} {id : NodeId} {m : Mention}

theorem mention?_eq_some :
    x.mention? id = some m ↔ ∃ i, x.instances[id]? = some i ∧ mentionOf i = some m :=
  Option.bind_eq_some_iff

theorem mentionOf_eq_some {i : EnvId × Member} : mentionOf i = some m ↔
    m.env = i.1 ∧ m.name = Nodes.variableName i.2.decl ∧
      i.2.kind?.bind Kind.variableType = some (.value m.type) := by
  unfold mentionOf
  obtain ⟨env, name, type⟩ := m
  rw [Option.bind_eq_bind]
  split
  · next type' htype =>
    rw [htype, Option.some.injEq, Mention.mk.injEq, Option.some.injEq, WireType.value.injEq]
    exact ⟨fun ⟨h₁, h₂, h₃⟩ => ⟨h₁.symm, h₂.symm, h₃⟩, fun ⟨h₁, h₂, h₃⟩ => ⟨h₁.symm, h₂.symm, h₃⟩⟩
  · next hnone =>
    exact ⟨nofun, fun ⟨_, _, htype⟩ => absurd htype (hnone type)⟩

end Expansion

namespace Nodes

variable {x : Expansion}

/-- Variables are numbered as they are first mentioned. -/
theorem vars_eq (x : Expansion) :
    vars x = ((x.instances.filterMap Expansion.mentionOf).map Mention.meant).eraseDups := by
  unfold vars
  rw [List.map_filterMap]
  congr 1
  refine List.filterMap_congr fun (env, m) _ => ?_
  unfold Expansion.mentionOf
  dsimp only
  cases m.kind? with
  | none => rfl
  | some kind =>
    simp only [Option.map_some, Option.bind_eq_bind, Option.bind_some, named?]
    cases kind.variableType with
    | none => rfl
    | some type => cases type <;> rfl

/-- Only blocks that name a variable keep the number of one. -/
theorem var?_eq_none {names : Variable → VarId} {env : EnvId} {decl : NodeDecl} {kind : Kind}
    {constant : Constant} (htype : kind.variableType = none)
    (h : Nodes.constant names env decl kind = .ok constant) : constant.var? = none := by
  unfold Nodes.constant at h
  obtain ⟨o, ho, h⟩ := Outcome.bind_eq_ok.mp h
  unfold named? at ho
  simp only [htype] at ho
  cases ho
  cases h
  split <;> rfl

theorem var?_nameInspected {vars : List Variable} {nodes : List Node} {i : Nat} {n n' : Node}
    (h : nodes[i]? = some n) (h' : (nameInspected vars nodes)[i]? = some n')
    (hnone : n.kind.variableType = none → n.constant.var? = none) :
    n'.constant.var? = n.constant.var? := by
  unfold nameInspected at h'
  rw [List.getElem?_map, h, Option.map_some, Option.some.injEq] at h'
  subst h'
  split
  · next type hkind =>
    rw [hnone (by rw [hkind]; rfl)]
    rfl
  · rfl

end Nodes

namespace Program

variable {c : Catalog} {d : Document} {p : Program} {x : Expansion} {built : List (Node × Bool)}
  {volatile : List NodeId} {id : NodeId} {m : Mention}

/-- A block has the number of the variable that it mentions, and no other block has one. -/
theorem variableOf_assemble (hall : Nodes.all x (Nodes.vars x) = .ok built) (volatile : List NodeId)
    (id : NodeId) : (assemble x built volatile).variableOf id =
      (x.mention? id).map fun m => (Nodes.vars x).idxOf m.meant := by
  unfold variableOf Expansion.mention? assemble named
  dsimp only
  rw [List.getElem?_toArray]
  cases hi : x.instances[id]? with
  | none =>
    rw [List.getElem?_eq_none]
    · rfl
    · rw [length_of_all hall]
      exact List.getElem?_eq_none_iff.mp hi
  | some i =>
    obtain ⟨env, member⟩ := i
    obtain ⟨kind, n, entry, constant, hkind, hbuilt, hget, -, -, hnamed, hnode⟩ :=
      finished_of_all hall
      (Sharing.memoPoints (Nodes.nameInspected (Nodes.vars x) (built.map (·.1))) volatile) hi
    have hfirst : (built.map (·.1))[id]? = some n := by simp [hget]
    have hvar : constant.var? = n.constant.var? :=
      Nodes.var?_nameInspected hfirst hnamed fun htype =>
      Nodes.var?_eq_none (hbuilt.kind ▸ htype) hbuilt.constant
    rw [hnode, Option.bind_some,
      show (Sharing.finished _ _ { n with constant }).constant = constant from rfl,
      hvar]
    show n.constant.var? = (Expansion.mentionOf (env, member)).map _
    unfold Expansion.mentionOf
    dsimp only
    rw [hkind, Option.bind_eq_bind, Option.bind_some]
    cases htype : kind.variableType with
    | none => exact Nodes.var?_eq_none htype hbuilt.constant
    | some type =>
      obtain ⟨v, hv, hvalue, hnames⟩ := Nodes.constant_named htype hbuilt.constant
      subst hvalue
      obtain ⟨hname, hscope⟩ := Nodes.scope_of_named hv
      have hmeant : v = Mention.meant ⟨env, Nodes.variableName member.decl, v.type⟩ := by
        obtain ⟨name, type, scope⟩ := v
        simp only at hname hscope
        rw [Mention.meant, hscope, hname]
      rw [hnames]
      exact congrArg (fun v => some ((Nodes.vars x).idxOf v)) hmeant

theorem mem_vars_of_mention (h : x.mention? id = some m) : m.meant ∈ Nodes.vars x := by
  obtain ⟨i, hi, hm⟩ := Expansion.mention?_eq_some.mp h
  rw [Nodes.vars_eq, List.mem_eraseDups]
  exact List.mem_map_of_mem (List.mem_filterMap.mpr ⟨i, List.mem_of_getElem? hi, hm⟩)

theorem exists_mention {v : Variable} (h : v ∈ Nodes.vars x) :
    ∃ id m, x.mention? id = some m ∧ m.meant = v := by
  rw [Nodes.vars_eq, List.mem_eraseDups] at h
  obtain ⟨m, hm, rfl⟩ := List.mem_map.mp h
  obtain ⟨i, hi, hm⟩ := List.mem_filterMap.mp hm
  obtain ⟨id, hid⟩ := List.getElem?_of_mem hi
  exact ⟨id, m, Expansion.mention?_eq_some.mpr ⟨i, hid, hm⟩, rfl⟩

/-- What was numbered before a variable was mentioned before it. -/
theorem exists_earlier {a : Variable} (h : x.mention? id = some m)
    (hlt : (Nodes.vars x).idxOf a < (Nodes.vars x).idxOf m.meant) :
    ∃ id' < id, ∃ m', x.mention? id' = some m' ∧ m'.meant = a := by
  obtain ⟨i, hi, hm⟩ := Expansion.mention?_eq_some.mp h
  obtain ⟨hid, rfl⟩ := List.getElem?_eq_some_iff.mp hi
  have hsplit : (x.instances.filterMap Expansion.mentionOf).map Mention.meant =
      ((x.instances.take id).filterMap Expansion.mentionOf).map Mention.meant ++
        m.meant :: ((x.instances.drop (id + 1)).filterMap Expansion.mentionOf).map
          Mention.meant := by
    have hlist : x.instances.filterMap Expansion.mentionOf =
        (x.instances.take id ++ x.instances[id] :: x.instances.drop (id + 1)).filterMap
          Expansion.mentionOf := by
      rw [← List.drop_eq_getElem_cons hid, List.take_append_drop]
    rw [hlist, List.filterMap_append, List.filterMap_cons_some hm, List.map_append, List.map_cons]
  rw [Nodes.vars_eq, hsplit] at hlt
  obtain ⟨m', hm', rfl⟩ := List.mem_map.mp (mem_of_idxOf_lt hlt)
  obtain ⟨i', hi', hm'⟩ := List.mem_filterMap.mp hm'
  obtain ⟨id', hid'⟩ := List.getElem?_of_mem hi'
  rw [List.getElem?_take, Option.ite_none_right_eq_some] at hid'
  obtain ⟨hlt', hid'⟩ := hid'
  exact ⟨id', hlt', m', Expansion.mention?_eq_some.mpr ⟨i', hid', hm'⟩, rfl⟩

section

variable (hall : Nodes.all x (Nodes.vars x) = .ok built)
include hall

theorem variableOf_of_mention (h : x.mention? id = some m) :
    (assemble x built volatile).variableOf id = some ((Nodes.vars x).idxOf m.meant) := by
  rw [variableOf_assemble hall, h, Option.map_some]

theorem variableOf_eq_some {v : VarId} : (assemble x built volatile).variableOf id = some v ↔
    ∃ m, x.mention? id = some m ∧ (Nodes.vars x)[v]? = some m.meant := by
  rw [variableOf_assemble hall, Option.map_eq_some_iff]
  constructor
  · rintro ⟨m, hm, rfl⟩
    exact ⟨m, hm, List.getElem?_idxOf (mem_vars_of_mention hm)⟩
  · rintro ⟨m, hm, hv⟩
    obtain ⟨hlt, hv⟩ := List.getElem?_eq_some_iff.mp hv
    have hnodup : (Nodes.vars x).Nodup := nodup_eraseDups _
    exact ⟨m, hm, by rw [← hv, hnodup.idxOf_getElem]⟩

theorem kind_of_mention (h : x.mention? id = some m) :
    ∃ n, (assemble x built volatile).nodes[id]? = some n ∧
    n.env = m.env ∧ n.kind.variableType = some (.value m.type) := by
  obtain ⟨⟨env, member⟩, hi, hm⟩ := Expansion.mention?_eq_some.mp h
  obtain ⟨henv, -, htype⟩ := Expansion.mentionOf_eq_some.mp hm
  obtain ⟨kind, n, _, constant, hkind, hbuilt, -, -, -, -, hnode⟩ := finished_of_all hall
    (Sharing.memoPoints (named x built) volatile) hi
  rw [hkind, Option.bind_some] at htype
  refine ⟨_, (List.getElem?_toArray ..).trans hnode, hbuilt.environment.trans henv.symm, ?_⟩
  show n.kind.variableType = _
  rw [hbuilt.kind, htype]

theorem mention_of_kind {n : Node} {type : WireType}
    (h : (assemble x built volatile).nodes[id]? = some n)
    (htype : n.kind.variableType = some type) :
    ∃ m, x.mention? id = some m ∧ m.env = n.env ∧ type = .value m.type := by
  have hlt : id < x.instances.length := by
    rw [← length_of_all hall (Sharing.memoPoints (named x built) volatile)]
    exact (Array.getElem?_eq_some_iff.mp h).1
  obtain ⟨⟨env, member⟩, hi⟩ : ∃ i, x.instances[id]? = some i := ⟨_, List.getElem?_eq_getElem hlt⟩
  obtain ⟨kind, n₀, _, constant, hkind, hbuilt, -, -, -, -, hnode⟩ := finished_of_all hall
    (Sharing.memoPoints (named x built) volatile) hi
  cases h.symm.trans ((List.getElem?_toArray ..).trans hnode)
  have htype : kind.variableType = some type := by
    rw [← hbuilt.kind]
    exact htype
  obtain ⟨v, -, rfl, -⟩ := Nodes.constant_named htype hbuilt.constant
  have hmention : Expansion.mentionOf (env, member) =
    some ⟨env, Nodes.variableName member.decl, v.type⟩ :=
    Expansion.mentionOf_eq_some.mpr ⟨rfl, rfl, by rw [hkind, Option.bind_some, htype]⟩
  exact ⟨_, Expansion.mention?_eq_some.mpr ⟨_, hi, hmention⟩, hbuilt.environment.symm, rfl⟩

/-- Looking up a variable finds the one that the blocks of the main graph mean. -/
theorem findVariable?_eq_some {name : String} {type : Base} {v : VarId} :
    (assemble x built volatile).findVariable? name type = some v ↔ ∃ id m, x.mention? id = some m ∧
      m.name = name ∧ m.type = type ∧ (m.IsShared ∨ m.env = 0) ∧
      (assemble x built volatile).variableOf id = some v := by
  have hnodup : (Nodes.vars x).Nodup := nodup_eraseDups _
  show (Nodes.vars x).findIdx? _ = some v ↔ _
  rw [List.findIdx?_eq_some_iff_getElem]
  constructor
  · rintro ⟨hlt, hv, -⟩
    obtain ⟨id, m, hm, hmeant⟩ := exists_mention (x := x) (List.getElem_mem hlt)
    rw [← hmeant] at hv
    obtain ⟨hname, htype, hscope⟩ := of_decide_eq_true hv
    refine ⟨id, m, hm, hname, htype, m.rooted_iff.mp hscope,
      (variableOf_eq_some hall).mpr ⟨m, hm, ?_⟩⟩
    rw [hmeant, List.getElem?_eq_getElem hlt]
  · rintro ⟨id, m, hm, rfl, rfl, hroot, hv⟩
    obtain ⟨m', hm', hv⟩ := (variableOf_eq_some hall).mp hv
    cases hm.symm.trans hm'
    obtain ⟨hlt, hv⟩ := List.getElem?_eq_some_iff.mp hv
    refine ⟨hlt, ?_, fun w hw hother => ?_⟩
    · rw [hv]
      exact decide_eq_true ⟨rfl, rfl, m.rooted_iff.mpr hroot⟩
    · -- Another variable that the main graph means by the name would be the same one.
      have hwlt := Nat.lt_trans hw hlt
      obtain ⟨id', m', -, hmeant⟩ := exists_mention (x := x) (List.getElem_mem hwlt)
      rw [← hmeant] at hother
      obtain ⟨hname, htype, hscope⟩ := of_decide_eq_true hother
      have hsame : m'.meant = m.meant := by
        refine Mention.meant_eq_iff.mpr ⟨hname, htype, ?_⟩
        have hname' : m'.name = m.name := hname
        rcases m'.rooted_iff.mp hscope with hshared | henv
        · exact .inl hshared
        · rcases hroot with hshared | henv'
          · exact .inl (by unfold Mention.IsShared; rw [hname']; exact hshared)
          · exact .inr (henv.trans henv'.symm)
      have hidx := hnodup.getElem_inj_iff.mp ((hmeant.symm.trans hsame).trans hv.symm)
      exact absurd hidx (Nat.ne_of_lt hw)

end

/-- What holds of the variables of a program and of those that name them. -/
structure Identifies (p : Program) (x : Expansion) : Prop where
  /-- The blocks that mention a variable are those of the variable kinds. -/
  mentions : ∀ id n type, p.nodes[id]? = some n → n.kind.variableType = some type →
    ∃ m, x.mention? id = some m ∧ m.env = n.env ∧ type = .value m.type
  nodes : ∀ id m, x.mention? id = some m → ∃ n v, p.nodes[id]? = some n ∧
    n.kind.variableType = some (.value m.type) ∧ p.variableOf id = some v ∧
      p.vars[v]? = some m.meant
  same : ∀ id id' m m', x.mention? id = some m → x.mention? id' = some m' →
    (p.variableOf id = p.variableOf id' ↔ m.name = m'.name ∧ m.type = m'.type ∧
      (m.IsShared ∨ m.env = m'.env))
  distinct : p.vars.Nodup
  named : ∀ v < p.vars.length, ∃ id m, x.mention? id = some m ∧ p.variableOf id = some v
  order : ∀ v w id, v < w → p.variableOf id = some w → ∃ id' < id, p.variableOf id' = some v
  found : ∀ name type v, p.findVariable? name type = some v ↔ ∃ id m, x.mention? id = some m ∧
    m.name = name ∧ m.type = type ∧ (m.IsShared ∨ m.env = 0) ∧ p.variableOf id = some v

/-- Two blocks name one variable if and only if they say the same name and type, and the name is one
for all environments or they are in the same.  The variables are those that are named, none of them
twice, in the order in which they are first named, and looking one up by name and type finds the one
that the blocks of the main graph name so, or those of any environment if the name is one for
all. -/
theorem variables_identified (h : analyse c d = .ok p) :
    ∃ x, Expansion.ofDocument c d = .ok x ∧ p.Identifies x := by
  obtain ⟨x, built, volatile, hx, -, hall, -, -, rfl⟩ := analyse_eq_ok.mp h
  have hnodup : (Nodes.vars x).Nodup := nodup_eraseDups _
  refine ⟨x, hx, fun id n type => mention_of_kind hall, fun id m hm => ?_,
    fun id id' m m' hm hm' => ?_, hnodup, fun v hv => ?_, fun v w id hvw hw => ?_,
    fun name type v => findVariable?_eq_some hall⟩
  · obtain ⟨n, hn, -, htype⟩ := kind_of_mention hall hm
    exact ⟨n, _, hn, htype, variableOf_of_mention hall hm,
      List.getElem?_idxOf (mem_vars_of_mention hm)⟩
  · rw [variableOf_of_mention hall hm, variableOf_of_mention hall hm', Option.some.injEq,
      List.idxOf_inj (mem_vars_of_mention hm), Mention.meant_eq_iff]
  · obtain ⟨id, m, hm, hmeant⟩ := exists_mention (x := x) (List.getElem_mem hv)
    refine ⟨id, m, hm, (variableOf_eq_some hall).mpr ⟨m, hm, ?_⟩⟩
    rw [hmeant]
    exact List.getElem?_eq_getElem hv
  · obtain ⟨m, hm, hw⟩ := (variableOf_eq_some hall).mp hw
    obtain ⟨hwlt, hw⟩ := List.getElem?_eq_some_iff.mp hw
    have hvlt := Nat.lt_trans hvw hwlt
    have hlt : (Nodes.vars x).idxOf (Nodes.vars x)[v] < (Nodes.vars x).idxOf m.meant := by
      rw [← hw, hnodup.idxOf_getElem, hnodup.idxOf_getElem]
      exact hvw
    obtain ⟨id', hlt', m', hm', hmeant⟩ := exists_earlier hm hlt
    refine ⟨id', hlt', (variableOf_eq_some hall).mpr ⟨m', hm', ?_⟩⟩
    rw [hmeant, List.getElem?_eq_getElem hvlt]

/-- Two blocks of one kind and the main graph, which all name `x` and `$x`. -/
def naming : Document where
  main := {
    id := 0
    nodes := [{ pos := ⟨0, 0, 0⟩, kind := 46, settings := [.text "x"] },
      { pos := ⟨4, 0, 4⟩, kind := 46, settings := [.text "$x"] },
      { pos := ⟨8, 0, 8⟩, kind := 1000 },
      { pos := ⟨12, 0, 12⟩, kind := 1000 }] }
  blocks := [{
    id := 1000
    name := "name"
    footprint := ⟨2, 1⟩
    graph := {
      id := 7
      nodes := [{ pos := ⟨0, 0, 0⟩, kind := 46, settings := [.text "x"] },
        { pos := ⟨4, 0, 4⟩, kind := 46, settings := [.text "$x"] },
        { pos := ⟨8, 0, 8⟩, kind := 428, settings := [.text "x"] }] } }]

theorem variables_identified_naming : ∃ c p x, analyse c naming = .ok p ∧
    Expansion.ofDocument c naming = .ok x ∧ p.Identifies x ∧
    (List.range 8).map p.variableOf = [0, 1, 2, 1, 2, 3, 1, 3].map some ∧
    p.findVariable? "x" .float = some 0 ∧ p.findVariable? "$x" .float = some 1 := by
  have hsome : (Catalog.stock.bind fun c => (naming.blocks.foldlM Catalog.addCustom c).bind fun c =>
      analyse c naming).toOption.any (fun p =>
        (List.range 8).map p.variableOf = [0, 1, 2, 1, 2, 3, 1, 3].map some ∧
        p.findVariable? "x" .float = some 0 ∧ p.findVariable? "$x" .float = some 1) = true := by
    decide +kernel
  obtain ⟨c, p, -, hp, hnumbers⟩ := Catalog.exists_stocked hsome
  obtain ⟨x, hx, hidentifies⟩ := variables_identified hp
  exact ⟨c, p, x, hp, hx, hidentifies, of_decide_eq_true hnumbers⟩

end Program
end SignalGraph
