import Mathlib.Data.List.DropRight
import SignalGraph.Proofs.Analysis.WellFormed
import SignalGraph.Proofs.Instrumentation.Ledger.Basic

/-!
# Chronicles

A run can keep a chronicle of all it does, next to the state of the engine.  `Ran` tells which
chronicles a chain of statements admits and how they go with the stores and the queue, by the tables
of the program alone.  It leaves open what values are computed, so that it holds of any way to run a
program.
-/

namespace SignalGraph

def Reading.pointer? : Reading → Option Pointer
  | value v => v.asPtr
  | lanes [var, index] => Lanes.toPointer var.asInt index.asInt
  | lanes _ => none

def Reading.pointee? (r : Reading) : Option VarId := r.pointer?.map (·.var)

inductive Deed where
  /-- A frame begins. -/
  | frame
  /-- The body of a late task begins. -/
  | task (id : NodeId)
  /-- A statement begins. -/
  | entered (id : NodeId)
  /-- One of its branches begins. -/
  | branched (id : NodeId)
  /-- The statement ends; what follows it is yet to run. -/
  | left (id : NodeId)
  /-- The output of a memo point has been computed. -/
  | computed (k : MemoId) (reading : Reading)
  /-- An input of a node receives this from its wire, before any pointer is followed. -/
  | read (id : NodeId) (input : Nat) (reading : Reading)
  /-- The engine is asked to register a menu item. -/
  | registered (count : Option VariableRef) (picture : ObjectId) (name : String)
    (maxCount priceStep : Int32)
  /-- The engine is asked for anything else. -/
  | asked

namespace Deed

def ofRequest {α : Type} : Request α → Deed
  | .menuItem count picture name maxCount priceStep =>
    registered count picture name maxCount priceStep
  | _ => asked

def quiet : Deed → Bool
  | computed .. => true
  | read .. => true
  | asked => true
  | _ => false

def isFrame : Deed → Bool
  | frame => true
  | _ => false

/-- Whether no frame begins with it and no input receives anything. -/
def neutral : Deed → Bool
  | frame => false
  | read .. => false
  | _ => true

theorem isFrame_of_neutral {d : Deed} (h : d.neutral = true) : d.isFrame = false := by
  cases d <;> first | rfl | cases h

theorem ne_read_of_neutral {d : Deed} (h : d.neutral = true) (id : NodeId) (i : Nat) (r : Reading) :
    d ≠ read id i r := by
  rintro rfl
  cases h

def entered? : Deed → Option NodeId
  | entered id => some id
  | _ => none

end Deed

/-- Deeds in the order in which they were done. -/
abbrev Chronicle := List Deed

namespace Chronicle

/-- A deed in a chronicle of two parts is in one of them. -/
theorem split_append {l l' before after : List Deed} {d : Deed}
    (h : l ++ l' = before ++ d :: after) :
    (∃ rest, l = before ++ d :: rest ∧ after = rest ++ l') ∨
      ∃ first, before = l ++ first ∧ l' = first ++ d :: after := by
  rcases List.append_eq_append_iff.mp h with ⟨first, rfl, rfl⟩ | ⟨rest, rfl, htail⟩
  · exact .inr ⟨first, rfl, rfl⟩
  · cases rest with
    | nil =>
      rw [List.append_nil]
      exact .inr ⟨[], (List.append_nil _).symm, htail.symm⟩
    | cons d' rest =>
      obtain ⟨rfl, rfl⟩ := List.cons.inj htail
      exact .inl ⟨rest, rfl, rfl⟩

def executed (l : Chronicle) : List NodeId := l.filterMap Deed.entered?

def frames (l : Chronicle) : Nat := l.countP Deed.isFrame

/-- What was done since the latest frame began. -/
def current (l : Chronicle) : Chronicle := l.rtakeWhile fun d => !d.isFrame

def Quiet (l : Chronicle) : Prop := ∀ d ∈ l, d.quiet = true

variable {l l' : Chronicle} {d : Deed} {id : NodeId}

theorem quiet_nil : Quiet [] := fun _ h => absurd h List.not_mem_nil

theorem quiet_append (h : l.Quiet) (h' : l'.Quiet) : Quiet (l ++ l') := fun d hd =>
  (List.mem_append.mp hd).elim (h d) (h' d)

theorem quiet_one (h : d.quiet = true) : Quiet [d] := fun _ hd => List.mem_singleton.mp hd ▸ h

theorem mem_executed : id ∈ l.executed ↔ .entered id ∈ l := by
  unfold executed
  rw [List.mem_filterMap]
  constructor
  · rintro ⟨d, hd, heq⟩
    cases d <;> cases heq
    exact hd
  · exact fun h => ⟨_, h, rfl⟩

theorem executed_append : executed (l ++ l') = l.executed ++ l'.executed := List.filterMap_append

/-- To compute outputs is to execute nothing. -/
theorem Quiet.executed (h : l.Quiet) : l.executed = [] := by
  refine List.filterMap_eq_nil_iff.mpr fun d hd => ?_
  have hquiet := h d hd
  cases d <;> first | rfl | cases hquiet

theorem Quiet.not_entered (h : l.Quiet) (id : NodeId) : .entered id ∉ l := by
  intro hmem
  cases h _ hmem

theorem Quiet.frames (h : l.Quiet) : l.frames = 0 := by
  refine List.countP_eq_zero.mpr fun d hd => ?_
  have hquiet := h d hd
  cases d <;> first | exact Bool.false_ne_true | cases hquiet

theorem frames_append : frames (l ++ l') = l.frames + l'.frames := List.countP_append

theorem current_append_one : current (l ++ [d]) = if d.isFrame then [] else l.current ++ [d] := by
  unfold current
  rw [List.rtakeWhile_concat]
  cases d.isFrame <;> rfl

end Chronicle

/-- What a program holds of its own: its variables, its slots and its queue. -/
abbrev Holdings := World Unit

namespace World

variable {σ τ : Type} (w : World σ)

def holdings : Holdings := ⟨(), w.vars, w.slots, w.late⟩

end World

/-! ## Tales -/

/-- What some stretch of a run does: what is held before, its chronicle, what is held after. -/
abbrev Tale := Holdings → Chronicle → Holdings → Prop

namespace Tale

def stay : Tale := fun h es h' => es = [] ∧ h' = h

def quiet : Tale := fun h es h' => es.Quiet ∧ h' = h

def next (T U : Tale) : Tale := fun h es h'' =>
  ∃ a h' b, es = a ++ b ∧ T h a h' ∧ U h' b h''

theorem next_intro {T U : Tale} {h h' h'' : Holdings} {a b : Chronicle} (ha : T h a h')
    (hb : U h' b h'') : T.next U h (a ++ b) h'' := ⟨a, h', b, rfl, ha, hb⟩

theorem quiet_next {h h' : Holdings} {es : Chronicle} (hq : quiet.next quiet h es h') :
    quiet h es h' := by
  obtain ⟨a, _, b, rfl, ⟨ha, rfl⟩, hb, rfl⟩ := hq
  exact ⟨Chronicle.quiet_append ha hb, rfl⟩

end Tale

/-- Whether a statement does more to what the program holds than to set slots of its own and to run
its branches. -/
def Statement.special : Statement → Bool
  | lateUpdate => true
  | menuItem => true
  | setVariable _ => true
  | setPointer _ => true
  | increment => true
  | decrement => true
  | _ => false

def Node.Ordinary (n : Node) : Prop := ∃ st, n.kind = .statement st ∧ st.special = false

def Statement.followsPointer : Statement → Bool
  | setPointer _ => true
  | increment => true
  | decrement => true
  | _ => false

def Node.registration (n : Node) (count : Option VariableRef) (picture : ObjectId) : Chronicle :=
  match n.constant with
  | .menu name maxCount priceStep => [.registered count picture name maxCount priceStep]
  | _ => []

def Node.Heard (n : Node) (id : NodeId) (i : Nat) (es : Chronicle) : Prop :=
  ∀ w, n.inputs[i]? = some (.wire w) → ∃ r, .read id i r ∈ es

theorem Node.Heard.mono {n : Node} {id : NodeId} {i : Nat} {es es' : Chronicle}
    (h : n.Heard id i es) (hsub : es ⊆ es') : n.Heard id i es' := fun w hw =>
  have ⟨r, hr⟩ := h w hw
  ⟨r, hsub hr⟩

/-- What a menu item does that has not been registered, once it has read some of its inputs. -/
def Registers (id : NodeId) (n : Node) (slot : SlotId) (inputs : List Nat) : Tale := fun h es h' =>
  h' = h.setSlot slot (.bool true) ∧ ∃ es' count picture, es = es' ++ n.registration count picture ∧
    es'.Quiet ∧ ∀ i ∈ inputs, n.Heard id i es'

theorem Registers.after {id : NodeId} {n : Node} {slot : SlotId} {i : Nat} {is : List Nat}
    {h h₁ h' : Holdings} {a b : Chronicle} (hb : Registers id n slot is h₁ b h')
    (ha : Tale.quiet h a h₁) (hheard : n.Heard id i a) :
    Registers id n slot (i :: is) h (a ++ b) h' := by
  obtain ⟨rfl, es', count, picture, rfl, hquiet, hrest⟩ := hb
  obtain ⟨hquiet', rfl⟩ := ha
  refine ⟨rfl, a ++ es', count, picture, (List.append_assoc _ _ _).symm,
    Chronicle.quiet_append hquiet' hquiet, fun j hj => ?_⟩
  rcases List.mem_cons.mp hj with rfl | hj
  · exact hheard.mono (List.subset_append_left _ _)
  · exact (hrest j hj).mono (List.subset_append_right _ _)

inductive Special (id : NodeId) (n : Node) : Tale
  /-- Its body is queued, and does not run. -/
  | late {h : Holdings} :
    n.kind = .statement .lateUpdate → Special id n h [] (h.queue id)
  /-- The menu item is registered already. -/
  | again {h : Holdings} {slot : SlotId} :
    n.kind = .statement .menuItem → n.slot 0 = .ok slot → h.slots.get slot ≠ .bool false →
    Special id n h [] h
  /-- The menu item is registered. -/
  | first {h : Holdings} {slot : SlotId} {es : Chronicle} {count : Option VariableRef}
    {picture : ObjectId} :
    n.kind = .statement .menuItem → n.slot 0 = .ok slot → h.slots.get slot ≠ .bool true →
    es.Quiet → (∀ i < 2, n.Heard id i es) →
    Special id n h (es ++ n.registration count picture) (h.setSlot slot (.bool true))
  /-- The variable that the statement names is set. -/
  | named {h : Holdings} {es : Chronicle} {type : WireType} {var : VarId} {v : Value} :
    n.kind = .statement (.setVariable type) → n.constant.var? = some var → es.Quiet →
    Special id n h es (h.setVariable { var, index := 0 } v)
  /-- The variable behind the pointer that the statement reads is set. -/
  | pointed {h : Holdings} {es : Chronicle} {st : Statement} {r : Reading} {q : Pointer}
      {v : Value} :
    n.kind = .statement st → st.followsPointer = true → es.Quiet → .read id 0 r ∈ es →
    r.pointer? = some q → Special id n h es (h.setVariable q v)
  /-- There is no variable to set. -/
  | missing {h : Holdings} {es : Chronicle} {st : Statement} :
    n.kind = .statement st →
      (st.followsPointer = true ∨ ∃ type, st = .setVariable type) → es.Quiet →
    Special id n h es h

mutual

/-- Statements in order, each with all that follows it. -/
inductive Ran (p : Program) : List NodeId → Tale
  | nil {h : Holdings} : Ran p [] h [] h
  | ordinary {id : NodeId} {n : Node} {ids : List NodeId} {h h₁ h₂ h₃ : Holdings}
    {es after rest : Chronicle} :
    p.nodes[id]? = some n → n.Ordinary → Steps p id n h es h₁ → Ran p n.after h₁ after h₂ →
    Ran p ids h₂ rest h₃ →
    Ran p (id :: ids) h (.entered id :: es ++ .left id :: after ++ rest) h₃
  | special {id : NodeId} {n : Node} {ids : List NodeId} {h h₁ h₂ h₃ : Holdings}
    {es after rest : Chronicle} :
    p.nodes[id]? = some n → Special id n h es h₁ → Ran p n.after h₁ after h₂ →
    Ran p ids h₂ rest h₃ →
    Ran p (id :: ids) h (.entered id :: es ++ .left id :: after ++ rest) h₃

/-- What a statement that is not special does: it computes, sets slots of its own and runs
branches. -/
inductive Steps (p : Program) : NodeId → Node → Tale
  | quiet {id : NodeId} {n : Node} {h : Holdings} {es : Chronicle} : es.Quiet → Steps p id n h es h
  | store {id : NodeId} {n : Node} {h : Holdings} {slot : SlotId} {v : Value} :
    slot ∈ n.slots → Steps p id n h [] (h.setSlot slot v)
  | branch {id : NodeId} {n : Node} {h h' : Holdings} {ids : List NodeId} {es : Chronicle} :
    ids ∈ n.controls → Ran p ids h es h' → Steps p id n h (.branched id :: es) h'
  | append {id : NodeId} {n : Node} {h h' h'' : Holdings} {es es' : Chronicle} :
    Steps p id n h es h' → Steps p id n h' es' h'' → Steps p id n h (es ++ es') h''

end

theorem steps_stay {p : Program} {id : NodeId} {n : Node} {h : Holdings} : Steps p id n h [] h :=
  .quiet Chronicle.quiet_nil

/-- Lists of statements run one after the other. -/
theorem ran_append {p : Program} {ids ids' : List NodeId} : ∀ {h h' h'' : Holdings}
    {es es' : Chronicle}, Ran p ids h es h' → Ran p ids' h' es' h'' →
    Ran p (ids ++ ids') h (es ++ es') h''
  | _, _, _, _, _, .nil, hb => hb
  | _, _, _, _, _, .ordinary hget hn hsteps hafter hrest, hb => by
    rw [List.append_assoc]
    exact .ordinary hget hn hsteps hafter (ran_append hrest hb)
  | _, _, _, _, _, .special hget hspecial hafter hrest, hb => by
    rw [List.append_assoc]
    exact .special hget hspecial hafter (ran_append hrest hb)

/-- A statement from where it begins to where it ends. -/
def Performed (p : Program) (id : NodeId) : Tale := fun h es h' => ∃ n between,
  p.nodes[id]? = some n ∧ es = .entered id :: between ++ [.left id] ∧
    (n.Ordinary ∧ Steps p id n h between h' ∨ Special id n h between h')

/-- A statement with all that follows it. -/
theorem Performed.followed {p : Program} {id : NodeId} {n : Node} {h h₁ h' : Holdings}
    {es es' : Chronicle} (hget : p.nodes[id]? = some n) (ha : Performed p id h es h₁)
    (hb : Ran p n.after h₁ es' h') : Ran p [id] h (es ++ es') h' := by
  obtain ⟨n', between, hget', rfl, hstatement⟩ := ha
  cases hget.symm.trans hget'
  have hran : Ran p [id] h (.entered id :: between ++ .left id :: es' ++ []) h' := by
    rcases hstatement with ⟨hn, hsteps⟩ | hspecial
    · exact .ordinary hget hn hsteps hb .nil
    · exact .special hget hspecial hb .nil
  simpa only [List.append_nil, List.append_assoc, List.cons_append, List.nil_append] using hran

/-- What holds of every single step, and of two stretches in a row if it holds of both. -/
structure Carries (p : Program) (Q : Tale) : Prop where
  quiet : ∀ (h : Holdings) (es : Chronicle), es.Quiet → Q h es h
  append : ∀ {h h' h'' : Holdings} {es es' : Chronicle}, Q h es h' → Q h' es' h'' →
    Q h (es ++ es') h''
  entered : ∀ (id : NodeId) (n : Node) (h : Holdings), p.nodes[id]? = some n → n.Ordinary →
    Q h [.entered id] h
  branched : ∀ (id : NodeId) (n : Node) (h : Holdings), p.nodes[id]? = some n → n.Ordinary →
    Q h [.branched id] h
  left : ∀ (id : NodeId) (n : Node) (h : Holdings), p.nodes[id]? = some n → n.Ordinary →
    Q h [.left id] h
  store : ∀ (id : NodeId) (n : Node) (h : Holdings) (slot : SlotId) (v : Value),
    p.nodes[id]? = some n → n.Ordinary → slot ∈ n.slots → Q h [] (h.setSlot slot v)
  special : ∀ (id : NodeId) (n : Node) (h h' : Holdings) (es : Chronicle),
    p.nodes[id]? = some n → Special id n h es h' → Q h (.entered id :: es ++ [.left id]) h'

section

variable {p : Program} {Q : Tale} (hQ : Carries p Q)
include hQ

mutual

/-- By induction on the run. -/
theorem Carries.ran : ∀ {ids : List NodeId} {h h' : Holdings} {es : Chronicle},
    Ran p ids h es h' → Q h es h'
  | _, _, _, _, .nil => hQ.quiet _ _ Chronicle.quiet_nil
  | _, _, _, _, .ordinary hget hn hsteps hafter hrest => by
    have hbody := hQ.append (hQ.entered _ _ _ hget hn)
      (hQ.append (Carries.steps hget hn hsteps) (hQ.left _ _ _ hget hn))
    have hall := hQ.append hbody (hQ.append (Carries.ran hafter) (Carries.ran hrest))
    simpa only [List.cons_append, List.nil_append, List.append_assoc] using hall
  | _, _, _, _, .special hget hspecial hafter hrest => by
    have hall := hQ.append (hQ.special _ _ _ _ _ hget hspecial)
      (hQ.append (Carries.ran hafter) (Carries.ran hrest))
    simpa only [List.cons_append, List.nil_append, List.append_assoc] using hall

theorem Carries.steps : ∀ {id : NodeId} {n : Node}, p.nodes[id]? = some n → n.Ordinary →
    ∀ {h h' : Holdings} {es : Chronicle}, Steps p id n h es h' → Q h es h'
  | _, _, _, _, _, _, _, .quiet hes => hQ.quiet _ _ hes
  | _, _, hget, hn, _, _, _, .store hslot => hQ.store _ _ _ _ _ hget hn hslot
  | _, _, hget, hn, _, _, _, .branch _ hran =>
    hQ.append (hQ.branched _ _ _ hget hn) (Carries.ran hran)
  | _, _, hget, hn, _, _, _, .append ha hb =>
    hQ.append (Carries.steps hget hn ha) (Carries.steps hget hn hb)

end

end

end SignalGraph
