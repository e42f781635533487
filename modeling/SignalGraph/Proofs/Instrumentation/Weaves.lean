import SignalGraph.Proofs.Emission.Functions
import SignalGraph.Proofs.Instrumentation.Echoes
import SignalGraph.Proofs.Instrumentation.Pairs

/-!
# Woven code

The code of a node with something extra, next to that without it.  A relation between the two that
passes from parts of code to code passes through emission: it holds of the code of an expression if
it holds of that of the operands, and of the code of a statement if it also holds of the branches.
Whether the extra are marks, labels or fences, and what is told of it, is a matter of the relation.
-/

namespace SignalGraph

/-- Whether an imported function changes what the program holds, or registers a menu item. -/
def Import.changes : Import → Bool
  | menuItem => true
  | setVariable _ => true
  | setSlot _ => true
  | deferLate => true
  | _ => false

/-- The lists of statements within the code of a statement, in order.  A late update leaves its body
to the late tasks. -/
def Node.within (n : Node) : Statement → List (List NodeId)
  | .lateUpdate => []
  | st => n.controls.dropLast.take st.shape.branches.length

namespace Compiler

open Wasm

variable {ι : Type} {calls : Nat → Prop} {l l' : Locals} {n' n : Node} {a' a b' b : Code}

/-! ## Straight code -/

/-- Instructions that use no locals and have no code within them.  They call only some functions. -/
def StraightInstr (calls : Nat → Prop) : Instr → Prop
  | .const _ => True
  | .numeric _ => True
  | .call f => calls f
  | _ => False

def Straight (calls : Nat → Prop) : Code → Prop
  | [] => True
  | i :: rest => StraightInstr calls i ∧ Straight calls rest

theorem straight_consts : ∀ lanes : List Lane, Straight calls (lanes.map .const)
  | [] => trivial
  | _ :: lanes => ⟨trivial, straight_consts lanes⟩

theorem straight_variablePointer (c : Constant) : Straight calls (variablePointer c) := by
  unfold variablePointer
  split
  · exact ⟨trivial, trivial, trivial⟩
  · exact straight_consts _

theorem straight_request (e : Effect) (k : Int32) :
    Straight calls (if e.hasNumber then [int k] else []) := by
  split
  · exact ⟨trivial, trivial⟩
  · trivial

theorem calls_of_straight : ∀ {code : Code}, Straight calls code → Calls calls 0 code
  | [], _ => calls_nil
  | i :: _, h => by
    refine calls_cons (fun labels => ?_) (calls_of_straight h.2)
    have hi := h.1
    cases i <;> first | exact trivial | exact hi | exact hi.elim

def CallsPlain (calls : Nat → Prop) : Prop :=
  ∀ i ∈ Import.table, i.changes = false → calls i.index

/-- The imported functions that the code of a node may call, but for those that set slots. -/
structure Permits (calls : Nat → Prop) (n : Node) : Prop where
  plain : CallsPlain calls
  menuItem : n.kind = .statement .menuItem → calls Import.menuItem.index
  assign : ∀ st, n.kind = .statement st → st.assigns = true →
    ∀ f, calls (Import.setVariable f).index
  lateUpdate : n.kind = .statement .lateUpdate → calls Import.deferLate.index

theorem permits_of_readers (h : CallsReaders calls) : Permits calls n where
  plain i hi hchanges := h i hi fun f heq => by
    subst heq
    cases hchanges
  menuItem _ := h _ (by decide) fun _ heq => nomatch heq
  assign _ _ _ f := h _ (mem_table (fun heq => nomatch heq) fun heq => nomatch heq)
    fun _ heq => nomatch heq
  lateUpdate _ := h _ (by decide) fun _ heq => nomatch heq

/-! ## Weaves -/

/-- Where the emission of a node stands: the locals that are taken, those that the code of the node
may read, and whether it has set slots since one of its branches ran. -/
structure Standing where
  locals : Locals
  held : List Nat
  stored : Bool

/-- A relation between code with something extra and code without it, from one standing to another,
with these lists of statements within it. -/
abbrev Weaving := List (List NodeId) → Standing → Code → Code → Standing → Prop

/-- How many lanes code leaves, by its parts. -/
structure Lays (leaves : Code → Nat → Prop) : Prop where
  nil : leaves [] 0
  const : ∀ lane, leaves [.const lane] 1
  gets : ∀ locals, leaves (getLocals locals) locals.length
  append : ∀ {a b : Code} {height more : Nat}, leaves a height → leaves b more →
    leaves (a ++ b) (more + height)
  call : ∀ {i : Import} {a : Code}, i ∈ Import.table → leaves a i.type.params.length →
    leaves (a ++ [callImport i]) i.type.results.length

/-- A relation that passes from parts of code to code that computes and branches. -/
structure Weave (calls : Nat → Prop) (R : Weaving) : Prop where
  append : ∀ {B C s s₁ s' a' a b' b}, R B s a' a s₁ → R C s₁ b' b s' →
    R (B ++ C) s (a' ++ b') (a ++ b) s'
  straight : ∀ {l held a}, Straight calls a → R [] ⟨l, held, false⟩ a a ⟨l, held, false⟩
  /-- Lanes are moved into the next locals, the last first. -/
  spill : ∀ (l : Locals) (held : List Nat) (types : List LaneType), R [] ⟨l, held, false⟩
    ((List.range' l.count types.length).reverse.map .localSet)
    ((List.range' l.count types.length).reverse.map .localSet)
    ⟨l.take types, held ++ List.range' l.count types.length, false⟩
  gets : ∀ {s : Standing} (locals : List Nat), (∀ i ∈ locals, i ∈ s.held) →
    R [] s (getLocals locals) (getLocals locals) s
  when : ∀ {B l l' held held' a' a}, R B ⟨l, held, false⟩ a' a ⟨l', held', false⟩ →
    R B ⟨l, held, false⟩ [.when a'] [.when a] ⟨l', held', false⟩
  ifElse : ∀ {r B C l l₁ l' held a' a b' b}, r ≠ some .f32 →
    R B ⟨l, held, false⟩ a' a ⟨l₁, held, false⟩ → R C ⟨l₁, held, false⟩ b' b ⟨l', held, false⟩ →
    R (B ++ C) ⟨l, held, false⟩ [.ifElse r a' b'] [.ifElse r a b] ⟨l', held, false⟩
  /-- A loop whose counter goes up to its count. -/
  rounds : ∀ {B l l' held k count a' a}, k ∈ held → count ∈ held →
    R B ⟨l, held, false⟩ a' a ⟨l', held, false⟩ →
    R B ⟨l, held, false⟩
      [.block [.loop ([.localGet k, .localGet count, .numeric .i32GeU, .brIf 1] ++ a' ++
        [.localGet k, int 1, .numeric .i32Add, .localSet k, .br 0])]]
      [.block [.loop ([.localGet k, .localGet count, .numeric .i32GeU, .brIf 1] ++ a ++
        [.localGet k, int 1, .numeric .i32Add, .localSet k, .br 0])]] ⟨l', held, false⟩

/-- A relation that passes to code that sets the slots of a node. -/
structure Saves (leaves : Code → Nat → Prop) (n : Node) (R : Weaving) : Prop where
  lays : Lays leaves
  /-- Lanes go into a slot of the node, whose number lies right below them. -/
  store : ∀ {l l' held held' stored lanes' lanes slot} {f : Format}, f ≠ .rot → slot ∈ n.slots →
    R [] ⟨l, held, stored⟩ lanes' lanes ⟨l', held', stored⟩ → leaves lanes f.lanes.length →
    R [] ⟨l, held, stored⟩ (id slot :: lanes' ++ [callImport (.setSlot f)])
      (id slot :: lanes ++ [callImport (.setSlot f)]) ⟨l', held', true⟩
  /-- Slots need not have been set before what may come after that. -/
  forget : ∀ {B l held a' a s'}, R B ⟨l, held, true⟩ a' a s' → R B ⟨l, held, false⟩ a' a s'
  /-- A statement without branches that has set its slots has ended. -/
  ended : ∀ {B s l' held' a' a}, n.kind.shape.branches = [] → R B s a' a ⟨l', held', true⟩ →
    R B s a' a ⟨l', held', false⟩

/-- Code that takes locals of its own, and leaves those alone that are held. -/
def Sealed (R : Weaving) (B : List (List NodeId)) (l l' : Locals) (a' a : Code) : Prop :=
  ∀ held, R B ⟨l, held, false⟩ a' a ⟨l', held, false⟩

/-- Code that takes locals and goes on with some of them. -/
def Owned (R : Weaving) (B : List (List NodeId)) (l l' : Locals) (a' a : Code) : Prop :=
  ∃ own, R B ⟨l, [], false⟩ a' a ⟨l', own, false⟩

/-- Two nodes that differ at most in their inputs, whose codes go together. -/
structure Feeds (R : Weaving) (produce' : Producer → Emit Code) (n' : Node)
    (produce : Producer → Emit Code) (n : Node) : Prop where
  operand : ∀ i l, Parallels l (operand produce' n' i) (operand produce n i) (Sealed R [] l)
  flagged : ∀ i l, Parallels l (flaggedOperand produce' n' i) (flaggedOperand produce n i)
    (Sealed R [] l)
  same : n' = { n with inputs := n'.inputs }

/-- The codes of a chain go together when it runs as a branch. -/
def Follows (R : Weaving) (branches chain : List NodeId → Emit Code) (n : Node) : Prop :=
  ∀ ids ∈ n.controls, ∀ l, Parallels l (branches ids) (chain ids) fun l' a' a =>
    ∀ held, R [ids] ⟨l, held, true⟩ a' a ⟨l', held, false⟩

variable {R : Weaving} {B C : List (List NodeId)}
  {produce' produce : Producer → Emit Code} {branches chain : List NodeId → Emit Code}

/-- Operands that are the same without anything extra. -/
theorem feeds_reads (hreads : Reads calls produce n)
    (h : ∀ {l l' code}, Calls calls 0 code → Sealed R [] l l' code code) :
    Feeds R produce n produce n where
  operand i l := parallels_self fun code l' heq =>
    h (writes_operand hreads i l code l' (Nat.zero_le _) heq).2
  flagged i l := parallels_self fun code l' heq =>
    h (writes_flaggedOperand hreads i l code l' (Nat.zero_le _) heq).2
  same := rfl

theorem Sealed.owned (h : Sealed R B l l' a' a) : Owned R B l l' a' a := ⟨[], h []⟩

namespace Feeds

variable (h : Feeds R produce' n' produce n)
include h

theorem constant : n'.constant = n.constant := by rw [h.same]

theorem slot (i : Nat) : n'.slot i = n.slot i := by
  rw [h.same]
  rfl

theorem branch (i : Nat) : n'.branch i = n.branch i := by
  rw [h.same]
  rfl

end Feeds

namespace Weave

variable (hw : Weave calls R)
include hw

theorem sealed_append {l₁ : Locals} (ha : Sealed R B l l₁ a' a) (hb : Sealed R C l₁ l' b' b) :
    Sealed R (B ++ C) l l' (a' ++ b') (a ++ b) := fun held => hw.append (ha held) (hb held)

theorem sealed_straight (h : Straight calls a) : Sealed R [] l l a a := fun _ => hw.straight h

theorem parallels_straight (h : Straight calls a) :
    Parallels l (pure a) (pure a) (Owned R [] l) := parallels_pure (hw.sealed_straight h).owned

/-- A lane is moved into the next local. -/
theorem set (l : Locals) (held : List Nat) (type : LaneType) :
    R [] ⟨l, held, false⟩ [.localSet l.count] [.localSet l.count]
      ⟨l.take [type], held ++ [l.count], false⟩ := hw.spill l held [type]

/-- What comes before code that takes locals takes none for it. -/
theorem owned_append {l₁ : Locals} (ha : Sealed R B l l₁ a' a) (hb : Owned R C l₁ l' b' b) :
    Owned R (B ++ C) l l' (a' ++ b') (a ++ b) := by
  obtain ⟨own, hb⟩ := hb
  exact ⟨own, hw.append (ha []) hb⟩

theorem parallels_flatten {f' f : ι → Emit Code} {is : List ι}
    (h : ∀ i ∈ is, ∀ l, Parallels l (f' i) (f i) (Sealed R [] l)) (l : Locals) :
    Parallels l (do return (← is.mapM f').flatten) (do return (← is.mapM f).flatten)
      (Sealed R [] l) :=
  parallels_bind (parallels_row (R := fun _ => Sealed R []) (fun _ => hw.sealed_straight trivial)
    (fun ha hb => hw.sealed_append ha hb) h l) fun _ _ _ hcodes => parallels_pure hcodes

/-! ## Expressions -/

/-- Lanes go into locals, and some of them come back. -/
theorem parallels_keep (types : List LaneType) (start count : Nat) (l : Locals) :
    Parallels l (keep types start count) (keep types start count) (Owned R [] l) :=
  parallels_spill (parallels_pure ⟨_, hw.append (hw.spill l [] types) (hw.gets _ fun _ hi =>
    List.mem_append_right _ (List.mem_of_mem_drop (List.mem_of_mem_take hi)))⟩)

theorem parallels_keepOutput (pins : List Pin) (output : Nat) (l : Locals) :
    Parallels l (keepOutput pins output) (keepOutput pins output) (Owned R [] l) := by
  unfold keepOutput
  split
  · exact hw.parallels_straight (a := []) trivial
  · exact hw.parallels_keep _ _ _ l

theorem flatMap {s : Standing} {f : Nat → Code} : ∀ {is : List Nat},
    (∀ i ∈ is, R [] s (f i) (f i) s) → R [] s (is.flatMap f) (is.flatMap f) s
  | [], _ => hw.gets [] nofun
  | i :: _, h =>
    hw.append (h i List.mem_cons_self) (flatMap fun j hj => h j (List.mem_cons_of_mem i hj))

/-- Three times two of the lanes in locals are combined. -/
theorem parallels_components {types : List LaneType} (op : Numeric) (second : Nat → Nat)
    (h : ∀ i < 3, i < types.length ∧ second i < types.length) {emit : Emit Code}
    (hemit : emit = do
      let (locals, code) ← Compiler.spill types
      return code ++ (List.range 3).flatMap fun i =>
        getLocals [locals.getD i 0, locals.getD (second i) 0] ++ [.numeric op]) (l : Locals) :
    Parallels l emit emit (Owned R [] l) := by
  have hmem : ∀ i < types.length, (List.range' l.count types.length).getD i 0 ∈
      [] ++ List.range' l.count types.length := by
    intro i hi
    have hlt : i < (List.range' l.count types.length).length := by rwa [List.length_range']
    rw [List.getD_eq_getElem?_getD, List.getElem?_eq_getElem hlt]
    exact List.getElem_mem hlt
  rw [hemit]
  refine parallels_spill (parallels_pure ⟨_, hw.append (hw.spill l [] types)
    (hw.flatMap fun i hi => ?_)⟩)
  obtain ⟨hfirst, hsecond⟩ := h i (List.mem_range.mp hi)
  refine hw.append (hw.gets _ fun j hj => ?_) (hw.straight ⟨trivial, trivial⟩)
  rcases List.mem_cons.mp hj with rfl | hj
  · exact hmem i hfirst
  · exact List.mem_singleton.mp hj ▸ hmem _ hsecond

theorem parallels_operation (op : Operation) (output : Nat) (l : Locals) :
    Parallels l (operation op output) (operation op output) (Owned R [] l) := by
  cases op with
  | addVectors | subtractVectors =>
    refine hw.parallels_components _ (· + 3) (fun i hi => ?_) rfl l
    rw [List.length_replicate]
    omega
  | scale =>
    refine hw.parallels_components _ (fun _ => 3) (fun i hi => ?_) rfl l
    rw [List.length_replicate]
    omega
  | breakVector => exact hw.parallels_keepOutput _ _ l
  | makeVector => exact hw.parallels_straight (a := []) trivial
  | _ => exact hw.parallels_straight ⟨trivial, trivial⟩

section

variable (hplain : CallsPlain calls) (hmemo : ∀ k, calls (Target.memoFunction k))
  (h : ∀ source l, Parallels l (produce' source) (produce source) (Sealed R [] l))
include hplain hmemo h

theorem parallels_wire (w : Wire) (l : Locals) :
    Parallels l (wire produce' w) (wire produce w) (Sealed R [] l) := by
  have hfetch : Parallels l (fetch produce' w) (fetch produce w) (Sealed R [] l) := by
    unfold fetch
    cases w.memo with
    | some k => exact parallels_pure (hw.sealed_straight ⟨hmemo k, trivial⟩)
    | none => exact h w.source l
  have hi : Import.getVariable (.ofType w.type) ∈ Import.table :=
    mem_table (fun heq => by cases heq) fun heq => by cases heq
  rw [wire_eq, wire_eq]
  refine parallels_bind hfetch fun _ _ _ hcode => ?_
  cases w.deref with
  | true =>
    exact parallels_pure (hw.sealed_append hcode (hw.sealed_straight ⟨hplain _ hi rfl, trivial⟩))
  | false => exact parallels_pure hcode

theorem parallels_operand (i : Nat) (l : Locals) :
    Parallels l (operand produce' n i) (operand produce n i) (Sealed R [] l) := by
  refine parallels_lift fun o _ => ?_
  cases o with
  | default v => exact parallels_pure (hw.sealed_straight (straight_consts _))
  | absent =>
    refine parallels_lift fun type _ => parallels_pure (hw.sealed_straight ?_)
    unfold unconnected
    split <;> exact straight_consts _
  | wire w => exact hw.parallels_wire hplain hmemo h w l

/-- If outputs take locals of their own when they are read, then so do the inputs of a node. -/
theorem feeds : Feeds R produce' n produce n where
  operand := hw.parallels_operand hplain hmemo h
  flagged i l := by
    have hone : Straight calls [int 1] := ⟨trivial, trivial⟩
    have hflag : Parallels l (do return int 1 :: (← operand produce' n i))
        (do return int 1 :: (← operand produce n i)) (Sealed R [] l) :=
      parallels_bind (hw.parallels_operand hplain hmemo h i l) fun _ _ _ hcode =>
        parallels_pure (hw.sealed_append (hw.sealed_straight hone) hcode)
    refine parallels_lift fun o _ => ?_
    cases o with
    | absent =>
      exact parallels_lift fun type _ =>
        parallels_pure (hw.sealed_straight ⟨trivial, straight_consts _⟩)
    | default v => exact hflag
    | wire w => exact hflag
  same := rfl

end

theorem parallels_readSlot (hplain : CallsPlain calls) (p : Program) (n : Node) (output : Nat)
    (l : Locals) : Parallels l (readSlot p n output) (readSlot p n output) (Owned R [] l) := by
  refine parallels_lift fun r _ => parallels_lift fun type _ => ?_
  obtain ⟨slot, component⟩ := r
  have hi : Import.getSlot (.ofSlot type) ∈ Import.table :=
    mem_table (fun heq => ofSlot_ne_rot (Import.getSlot.inj heq)) fun heq => by cases heq
  have hget : Straight calls [id slot, callImport (.getSlot (.ofSlot type))] :=
    ⟨trivial, hplain _ hi rfl, trivial⟩
  cases component with
  | some i =>
    exact parallels_bind (hw.parallels_keep _ i 1 l) fun _ _ _ hkept =>
      parallels_pure (hw.owned_append (hw.sealed_straight hget) hkept)
  | none => exact hw.parallels_straight hget

section

variable (hplain : CallsPlain calls) (hfeeds : Feeds R produce' n' produce n)

include hfeeds in
theorem parallels_operands (count : Nat) (l : Locals) :
    Parallels l (operands produce' n' count) (operands produce n count) (Sealed R [] l) :=
  hw.parallels_flatten (fun i _ => hfeeds.operand i) l

include hfeeds in
theorem parallels_effectOperands (pins : List Pin) (l : Locals) :
    Parallels l (effectOperands produce' n' pins) (effectOperands produce n pins)
      (Sealed R [] l) := by
  refine hw.parallels_flatten (fun r _ => ?_) l
  dsimp only
  split
  · exact hfeeds.flagged r.2
  · exact hfeeds.operand r.2

include hplain hfeeds

theorem parallels_calling {i : Import} (hi : i ∈ Import.table) (hchanges : i.changes = false)
    (shape : Shape) (output : Nat) (l : Locals) :
    Parallels l (calling produce' n' shape i output) (calling produce n shape i output)
      (Owned R [] l) := by
  refine parallels_bind (hw.parallels_operands hfeeds _ l) fun l₁ _ _ harguments => ?_
  refine parallels_bind (hw.parallels_keepOutput shape.outputs output l₁) fun _ _ _ hkept =>
    parallels_pure ?_
  have hcall : Straight calls [callImport i] := ⟨hplain i hi hchanges, trivial⟩
  exact hw.owned_append harguments (hw.owned_append (hw.sealed_straight hcall) hkept)

theorem parallels_evaluate (output : Nat) (x : Expression) (l : Locals) :
    Parallels l (evaluate produce' n' output x) (evaluate produce n output x) (Owned R [] l) := by
  unfold evaluate
  rw [hfeeds.constant]
  cases x with
  | literal c => exact hw.parallels_straight (straight_consts _)
  | operation op =>
    refine parallels_bind (hw.parallels_operands hfeeds _ l) fun l₁ _ _ harguments => ?_
    exact parallels_bind (hw.parallels_operation op output l₁) fun _ _ _ hop =>
      parallels_pure (hw.owned_append harguments hop)
  | routine r =>
    exact hw.parallels_calling hplain hfeeds
      (mem_table (fun heq => by cases heq) fun heq => by cases heq) rfl _ _ l
  | query q =>
    exact hw.parallels_calling hplain hfeeds
      (mem_table (fun heq => by cases heq) fun heq => by cases heq) rfl _ _ l
  | currentFrame =>
    exact hw.parallels_straight ⟨hplain _ (by decide) rfl, trivial, trivial⟩
  | and =>
    refine parallels_bind (hfeeds.operand 0 l) fun l₁ _ _ hfirst => ?_
    refine parallels_bind (hfeeds.operand 1 l₁) fun l₂ _ _ hsecond => parallels_pure ?_
    refine (hw.sealed_append hfirst (C := []) fun held => ?_).owned
    exact hw.ifElse (by decide) (hsecond held) (hw.straight (a := [int 0]) ⟨trivial, trivial⟩)
  | or =>
    refine parallels_bind (hfeeds.operand 0 l) fun l₁ _ _ hfirst => ?_
    refine parallels_bind (hfeeds.operand 1 l₁) fun l₂ _ _ hsecond => parallels_pure ?_
    refine (hw.sealed_append hfirst (C := []) fun held => ?_).owned
    exact hw.ifElse (by decide) (hw.straight (a := [int 1]) ⟨trivial, trivial⟩) (hsecond held)
  | getVariable t => exact hw.parallels_straight (straight_variablePointer _)
  | list t =>
    refine parallels_bind (hw.parallels_operands hfeeds 2 l) fun l₁ _ _ harguments => ?_
    have helement : Straight calls
        [.numeric .f32Floor, .numeric .i32TruncSatF32S, .numeric .i32Add] :=
      ⟨trivial, trivial, trivial, trivial⟩
    exact parallels_pure (hw.sealed_append harguments (hw.sealed_straight helement)).owned

end

end Weave

/-! ## Statements -/

theorem within_one (st : Statement) {ids : List NodeId} (hst : st ≠ .lateUpdate)
    (hone : st.shape.branches.length = 1) (hids : n.controls.dropLast[0]? = some ids) :
    n.within st = [ids] := by
  have htake : n.within st = n.controls.dropLast.take st.shape.branches.length := by
    cases st <;> first | rfl | exact absurd rfl hst
  rw [htake, hone, List.take_one, List.head?_eq_getElem?, hids]
  rfl

namespace Weave

variable {leaves : Code → Nat → Prop} (hw : Weave calls R) (hs : Saves leaves n R)
  (hpermits : Permits calls n) (hfeeds : Feeds R produce' n' produce n)
  (hf : Follows R branches chain n)

include hfeeds hf in
theorem parallels_branch (i : Nat) (l : Locals) :
    Parallels l (branch branches n' i) (branch chain n i) fun l' a' a =>
      ∃ ids, n.controls.dropLast[i]? = some ids ∧
        ∀ held, R [ids] ⟨l, held, true⟩ a' a ⟨l', held, false⟩ := by
  unfold branch
  rw [hfeeds.branch]
  refine parallels_lift fun ids hids => (hf ids (Interpreter.branch_mem hids) l).mono
    fun _ _ _ h => ⟨ids, ?_, h⟩
  unfold Node.branch at hids
  split at hids
  · cases hids
    assumption
  · cases hids

include hw hs hfeeds in
/-- Lanes in locals go into a slot of the node. -/
theorem parallels_storeLocals {i : Nat} {f : Format} (hformat : f ≠ .rot) {locals held : List Nat}
    (hlen : locals.length = f.lanes.length) (hheld : ∀ i ∈ locals, i ∈ held) (stored : Bool)
    (l : Locals) : Parallels l (storeLocals n' i f locals) (storeLocals n i f locals) fun l' a' a =>
      l' = l ∧ R [] ⟨l, held, stored⟩ a' a ⟨l, held, true⟩ := by
  unfold storeLocals
  rw [hfeeds.slot]
  refine parallels_lift fun slot hslot => parallels_pure ⟨rfl, ?_⟩
  have hleaves : leaves (getLocals locals) f.lanes.length := hlen ▸ hs.lays.gets locals
  exact hs.store hformat (Interpreter.mem_of_slot hslot) (hw.gets locals hheld) hleaves

include hw hs hpermits hfeeds in
theorem parallels_effect {e : Effect} (hkind : n.kind = .effect e)
    (hoperands : ∀ l code l', effectOperands produce n e.shape.inputs l = .ok (code, l') →
      leaves code (Pin.flaggedLanes e.shape.inputs).length) (l : Locals) :
    Parallels l (effect produce' n' e) (effect produce n e) (Owned R [] l) := by
  have hi : Import.effect e ∈ Import.table :=
    mem_table (fun heq => by cases heq) fun heq => by cases heq
  have hcall : Straight calls [callImport (.effect e)] := ⟨hpermits.plain _ hi rfl, trivial⟩
  have hrequested : ∀ {l' a' a}, Sealed R [] l l' a' a →
      Sealed R [] l l' (a' ++ (if e.hasNumber then [int (e.number n.constant)] else []) ++
        [callImport (.effect e)])
        (a ++ (if e.hasNumber then [int (e.number n.constant)] else []) ++
          [callImport (.effect e)]) := fun ha =>
    hw.sealed_append (hw.sealed_append ha (hw.sealed_straight (straight_request e _)))
      (hw.sealed_straight hcall)
  unfold effect
  rw [hfeeds.constant]
  rcases Effect.slots_cases e with hslots | ⟨purpose, type, hslots, htype⟩
  · rw [hslots]
    exact parallels_bind (hw.parallels_effectOperands hfeeds _ l) fun _ _ _ harguments =>
      parallels_pure (hrequested harguments).owned
  · rw [hslots, hfeeds.slot]
    refine parallels_lift fun slot hslot => ?_
    refine parallels_bind (parallels_given (hw.parallels_effectOperands hfeeds _ l)
      (hoperands l)) fun l' code' code ⟨harguments, hcode⟩ => parallels_pure ?_
    have hrequest : leaves (if e.hasNumber then [int (e.number n.constant)] else [])
        (if e.hasNumber then [.i32] else [] : List LaneType).length := by
      split
      · exact hs.lays.const _
      · exact hs.lays.nil
    have hleaves : leaves (code ++ (if e.hasNumber then [int (e.number n.constant)] else []) ++
        [callImport (.effect e)]) (Format.ofSlot type).lanes.length := by
      have hparams : (Import.effect e).type.params.length = (if e.hasNumber then [.i32] else []
          : List LaneType).length + (Pin.flaggedLanes e.shape.inputs).length := by
        rw [Nat.add_comm, ← List.length_append]
        rfl
      have hresults : (Import.effect e).type.results = (Format.ofSlot type).lanes := by
        rw [lanes_ofSlot htype, show (Import.effect e).type.results =
          e.slots.flatMap fun slot => slot.2.lanes from rfl, hslots, List.flatMap_singleton]
      rw [← hresults]
      exact hs.lays.call hi (hparams ▸ hs.lays.append hcode hrequest)
    have hbranches : n.kind.shape.branches = [] := by
      rw [hkind]
      cases e <;> rfl
    have hstore := hs.ended hbranches (hs.store ofSlot_ne_rot (Interpreter.mem_of_slot hslot)
      (hrequested harguments []) hleaves)
    exact ⟨[], by simpa only [List.cons_append, List.append_assoc, List.nil_append] using hstore⟩

include hw hs hpermits hfeeds in
theorem parallels_menuItem (id : NodeId) (hkind : n.kind = .statement .menuItem) (l : Locals) :
    Parallels l (menuItem produce' id n') (menuItem produce id n) (Owned R [] l) := by
  unfold menuItem
  rw [hfeeds.slot]
  refine parallels_lift fun slot hslot => ?_
  refine parallels_bind (hw.parallels_operands hfeeds 2 l) fun l' _ _ harguments =>
    parallels_pure ?_
  have htest : Straight calls [Compiler.id slot, callImport (.getSlot .word), .numeric .i32Eqz] :=
    ⟨trivial, hpermits.plain _ (by decide) rfl, trivial, trivial⟩
  have hcall : Straight calls [callImport .menuItem] := ⟨hpermits.menuItem hkind, trivial⟩
  have hid : Straight calls [Compiler.id id] := ⟨trivial, trivial⟩
  have hone : R [] ⟨l', [], false⟩ [int 1] [int 1] ⟨l', [], false⟩ :=
    hw.straight ⟨trivial, trivial⟩
  have hstore := hs.store (f := .word) (by decide) (Interpreter.mem_of_slot hslot) hone
    (hs.lays.const _)
  have hregister := hw.append (hw.append (hw.append (hw.straight hid) (harguments []))
    (hw.straight hcall)) hstore
  have hwhen := hw.append (hw.straight htest)
    (hw.when (hs.ended (by rw [hkind]; rfl) hregister))
  refine ⟨[], ?_⟩
  simpa only [List.cons_append, List.append_assoc, List.nil_append] using hwhen

include hw hpermits hfeeds in
theorem parallels_adjust {st : Statement} (hkind : n.kind = .statement st)
    (hassigns : st.assigns = true) (delta : Binary32) (l : Locals) :
    Parallels l (adjust produce' n' delta) (adjust produce n delta) (Owned R [] l) := by
  refine parallels_bind (hfeeds.operand 0 l) fun l₁ _ _ hpointer => ?_
  refine parallels_spill (parallels_pure ⟨[] ++ List.range' l₁.count 2, ?_⟩)
  have hgets : R [] ⟨l₁.take [.i32, .i32], [] ++ List.range' l₁.count 2, false⟩
      (getLocals (List.range' l₁.count 2)) (getLocals (List.range' l₁.count 2))
      ⟨l₁.take [.i32, .i32], [] ++ List.range' l₁.count 2, false⟩ := hw.gets _ fun _ hi => hi
  have hsum : Straight calls [callImport (.getVariable .float), number delta, .numeric .f32Add,
      callImport (.setVariable .float)] :=
    ⟨hpermits.plain _ (by decide) rfl, trivial, trivial, hpermits.assign st hkind hassigns _,
      trivial⟩
  exact hw.append (hw.append (hw.append (hw.append (hpointer []) (hw.spill l₁ [] [.i32, .i32]))
    hgets) hgets) (hw.straight hsum)

include hw hs hpermits hfeeds hf

theorem parallels_touchSensor (l : Locals) : Parallels l (touchSensor branches n')
    (touchSensor chain n) (Owned R (n.within .touchSensor) l) := by
  unfold touchSensor
  rw [hfeeds.slot, hfeeds.constant]
  refine parallels_spill (parallels_lift fun slot hslot => ?_)
  let held := [] ++ List.range' l.count Import.touch.type.results.length
  refine parallels_bind (parallels_branch hfeeds hf 0 _) fun l' body' body ⟨ids, hids, hbody⟩ =>
    parallels_pure ⟨held, ?_⟩
  rw [within_one .touchSensor nofun rfl hids]
  have htouch : Straight calls [int n.constant.asInt, int n.constant.asSecondInt,
      callImport .touch] := ⟨trivial, trivial, hpermits.plain _ (by decide) rfl, trivial⟩
  have hnumber : Straight calls [number 0] := ⟨trivial, trivial⟩
  have hspilled := hw.append (hw.append (hw.straight htouch)
    (hw.spill l [] Import.touch.type.results))
    (hw.gets _ fun i hi => List.mem_of_mem_take (i := 1) hi)
  have hpoint := hw.append (hw.gets (s := ⟨l.take Import.touch.type.results, held, false⟩) _
    fun i hi => List.mem_of_mem_drop (i := 1) hi) (hw.straight hnumber)
  have hleaves := hs.lays.append
    (hs.lays.gets ((List.range' l.count Import.touch.type.results.length).drop 1))
    (hs.lays.const (.f32 0))
  have hstore := hs.store (f := .vec3) (by decide) (Interpreter.mem_of_slot hslot) hpoint hleaves
  have hall := hw.append hspilled (hw.when (hw.append hstore (hbody _)))
  simpa only [held, List.cons_append, List.append_assoc, List.nil_append] using hall

theorem parallels_swipeSensor (l : Locals) : Parallels l (swipeSensor branches n')
    (swipeSensor chain n) (Owned R (n.within .swipeSensor) l) := by
  refine parallels_spill ?_
  have hdirection : ∀ i ∈ (List.range' l.count 4).drop 1, i ∈ [] ++ List.range' l.count 4 :=
    fun i hi => List.mem_of_mem_drop hi
  refine parallels_bind
    (hw.parallels_storeLocals hs hfeeds (f := .vec3) (by decide) rfl hdirection false _) ?_
  rintro _ store' store ⟨rfl, hstore⟩
  refine parallels_bind (parallels_branch hfeeds hf 0 _) fun l' _ _ ⟨ids, hids, hbody⟩ =>
    parallels_pure ⟨[] ++ List.range' l.count 4, ?_⟩
  rw [within_one .swipeSensor nofun rfl hids]
  have hswipe : Straight calls [callImport .swipe] := ⟨hpermits.plain _ (by decide) rfl, trivial⟩
  exact hw.append (hw.append (hw.append (hw.straight hswipe)
    (hw.spill l [] Import.swipe.type.results))
    (hw.gets _ fun i hi => List.mem_of_mem_take (i := 1) hi)) (hw.when (hw.append hstore (hbody _)))

theorem parallels_collision (l : Locals) : Parallels l (collision produce' branches n')
    (collision produce chain n) (Owned R (n.within .collision) l) := by
  refine parallels_bind (hfeeds.operand 0 l) fun l₁ _ _ hobject => parallels_spill ?_
  have hheld : ∀ i ∈ List.range' l₁.count 6, i ∈ [] ++ List.range' l₁.count 6 := fun _ hi => hi
  refine parallels_bind (hw.parallels_storeLocals hs hfeeds (f := .word) (by decide) rfl
    (fun i hi => hheld i (List.mem_of_mem_drop (List.mem_of_mem_take hi))) false _) ?_
  rintro _ other' other ⟨rfl, hother⟩
  refine parallels_bind (hw.parallels_storeLocals hs hfeeds (f := .float) (by decide) rfl
    (fun i hi => hheld i (List.mem_of_mem_drop (List.mem_of_mem_take hi))) true _) ?_
  rintro _ impulse' impulse ⟨rfl, himpulse⟩
  refine parallels_bind (hw.parallels_storeLocals hs hfeeds (f := .vec3) (by decide) rfl
    (fun i hi => hheld i (List.mem_of_mem_drop hi)) true _) ?_
  rintro _ normal' normal ⟨rfl, hnormal⟩
  refine parallels_bind (parallels_branch hfeeds hf 0 _) fun l' _ _ ⟨ids, hids, hbody⟩ =>
    parallels_pure ⟨[] ++ List.range' l₁.count 6, ?_⟩
  rw [within_one .collision nofun rfl hids]
  have hcall : Straight calls [callImport .collision] :=
    ⟨hpermits.plain _ (by decide) rfl, trivial⟩
  have hcollision := hw.append (hw.append (hobject []) (hw.append (hw.straight hcall)
    (hw.spill l₁ [] Import.collision.type.results)))
    (hw.gets _ fun i hi => hheld i (List.mem_of_mem_take (i := 1) hi))
  exact hw.append hcollision
    (hw.when (hw.append (hw.append (hw.append hother himpulse) hnormal) (hbody _)))

/-- Each round sets the slot to its counter before the body runs.  The bounds, the count and the
counter are the loop's own. -/
theorem parallels_loop (l : Locals) : Parallels l (loop produce' branches n')
    (loop produce chain n) (Owned R (n.within .loop) l) := by
  unfold loop
  rw [hfeeds.slot]
  refine parallels_bind (hw.parallels_operands hfeeds 2 l) fun l₁ _ _ harguments =>
    parallels_spill (parallels_fresh (parallels_fresh (parallels_lift fun slot hslot => ?_)))
  let bounds := List.range' l₁.count [LaneType.f32, .f32].length
  let l₂ := l₁.take [.f32, .f32]
  let l₃ := l₂.take [.i32]
  let held := [] ++ bounds ++ [l₂.count] ++ [l₃.count]
  refine parallels_bind (parallels_branch hfeeds hf 0 _) fun l' _ _ ⟨ids, hids, hbody⟩ =>
    parallels_pure ⟨held, ?_⟩
  rw [within_one .loop nofun rfl hids]
  have hbounds : ∀ i ∈ bounds, i ∈ held := fun i hi =>
    List.mem_append_left _ (List.mem_append_left _ hi)
  have hk : l₃.count ∈ held := List.mem_append_right _ List.mem_cons_self
  have hcount : l₂.count ∈ held :=
    List.mem_append_left _ (List.mem_append_right _ List.mem_cons_self)
  have hcalled : Straight calls [callImport .loopCount] :=
    ⟨hpermits.plain _ (by decide) rfl, trivial⟩
  have hzero : Straight calls [int 0] := ⟨trivial, trivial⟩
  have hnext : Straight calls [callImport .loopCounter] :=
    ⟨hpermits.plain _ (by decide) rfl, trivial⟩
  have hgets := hw.gets (s := ⟨l₃.take [.i32], held, false⟩) bounds hbounds
  have hcounter := hw.append (hw.append hgets
    (hw.gets [l₃.count] fun i hi => List.mem_singleton.mp hi ▸ hk)) (hw.straight hnext)
  have hleaves := hs.lays.append (hs.lays.gets bounds) (hs.lays.gets [l₃.count])
  have hstore := hs.store (f := .float) (by decide) (Interpreter.mem_of_slot hslot) hcounter
    (hs.lays.call (i := .loopCounter) (by decide) hleaves)
  have hrounds := hw.rounds hk hcount (hw.append hstore (hbody held))
  have hstart := hw.append (hw.append (harguments []) (hw.spill l₁ [] [.f32, .f32]))
    (hw.gets _ fun i hi => hi)
  have hcounted := hw.append (hw.straight hcalled) (hw.append (hw.set l₂ ([] ++ bounds) .i32)
    (hw.append (hw.straight hzero) (hw.set l₃ _ .i32)))
  have hall := hw.append hstart (hw.append hcounted hrounds)
  simpa only [bounds, l₂, l₃, getLocals, List.map_cons, List.map_nil, List.cons_append,
    List.append_assoc, List.nil_append] using hall

/-- By the kind of the statement. -/
theorem parallels_statement
    (hoperands : ∀ e : Effect, n.kind = .effect e → ∀ l code l',
      effectOperands produce n e.shape.inputs l = .ok (code, l') →
      leaves code (Pin.flaggedLanes e.shape.inputs).length)
    (id : NodeId) {st : Statement} (hkind : n.kind = .statement st) (l : Locals) :
    Parallels l (statement produce' branches id n' st) (statement produce chain id n st)
      (Owned R (n.within st) l) := by
  have hbranch := fun l => parallels_branch hfeeds hf 0 l
  have hsensor : ∀ (test : Code) {ids : List NodeId} {l l' : Locals} {a' a : Code},
      Straight calls test → (∀ held, R [ids] ⟨l, held, true⟩ a' a ⟨l', held, false⟩) →
      Owned R [ids] l l' (test ++ [.when a']) (test ++ [.when a]) := fun _ _ _ _ _ _ htest hbody =>
    ⟨[], hw.append (hw.straight htest) (hw.when (hs.forget (hbody [])))⟩
  unfold statement
  rw [hfeeds.constant]
  cases st with
  | effect e =>
    have hwithin : n.within (.effect e) = [] := by cases e <;> rfl
    rw [hwithin]
    exact hw.parallels_effect hs hpermits hfeeds hkind (hoperands e hkind) l
  | menuItem => exact hw.parallels_menuItem hs hpermits hfeeds id hkind l
  | touchSensor => exact hw.parallels_touchSensor hs hpermits hfeeds hf l
  | swipeSensor => exact hw.parallels_swipeSensor hs hpermits hfeeds hf l
  | collision => exact hw.parallels_collision hs hpermits hfeeds hf l
  | loop => exact hw.parallels_loop hs hpermits hfeeds hf l
  | increment => exact hw.parallels_adjust hpermits hfeeds hkind rfl 1 l
  | decrement => exact hw.parallels_adjust hpermits hfeeds hkind rfl (-1) l
  | inspect type =>
    have hi : Import.inspect (.ofType type) ∈ Import.table :=
      mem_table (fun heq => by cases heq) fun heq => by cases heq
    have hcall : Straight calls [callImport (.inspect (.ofType type))] :=
      ⟨hpermits.plain _ hi rfl, trivial⟩
    have hid : Straight calls [Compiler.id id] := ⟨trivial, trivial⟩
    exact parallels_bind (hfeeds.operand 0 l) fun _ _ _ hshown => parallels_pure
      (hw.sealed_append (hw.sealed_append (hw.sealed_straight hid) hshown)
        (hw.sealed_straight hcall)).owned
  | setVariable type =>
    have hcall : Straight calls [callImport (.setVariable (.ofType type))] :=
      ⟨hpermits.assign _ hkind rfl _, trivial⟩
    exact parallels_bind (hfeeds.operand 0 l) fun _ _ _ hwritten => parallels_pure
      (hw.sealed_append (hw.sealed_append
        (hw.sealed_straight (straight_variablePointer n.constant)) hwritten)
        (hw.sealed_straight hcall)).owned
  | setPointer type =>
    have hcall : Straight calls [callImport (.setVariable (.ofType type))] :=
      ⟨hpermits.assign _ hkind rfl _, trivial⟩
    exact parallels_bind (hw.parallels_operands hfeeds 2 l) fun _ _ _ harguments => parallels_pure
      (hw.sealed_append harguments (hw.sealed_straight hcall)).owned
  | lateUpdate => exact hw.parallels_straight ⟨trivial, hpermits.lateUpdate hkind, trivial⟩
  | ifThen =>
    refine parallels_bind (hfeeds.operand 0 l) fun l₁ _ _ hcondition => ?_
    refine parallels_bind (hbranch l₁) fun l₂ _ _ ⟨first, hfirst, htrue⟩ => ?_
    refine parallels_bind (parallels_branch hfeeds hf 1 l₂) fun l' _ _ ⟨second, hsecond, hfalse⟩ =>
      parallels_pure ?_
    have hwithin : n.within .ifThen = [first] ++ [second] := by
      show n.controls.dropLast.take 2 = _
      rw [List.take_add_one, List.take_one, List.head?_eq_getElem?, hfirst, hsecond]
      rfl
    rw [hwithin]
    have hboth := hw.ifElse (r := none) (by decide) (hs.forget (htrue [])) (hs.forget (hfalse []))
    exact ⟨[], hw.append (B := []) (hcondition []) hboth⟩
  | playSensor =>
    refine parallels_bind (hbranch l) fun l' _ _ ⟨ids, hids, hbody⟩ => parallels_pure ?_
    rw [within_one .playSensor nofun rfl hids]
    exact hsensor [callImport .currentFrame, .numeric .i32Eqz]
      ⟨hpermits.plain _ (by decide) rfl, trivial, trivial⟩ hbody
  | boxArtSensor =>
    refine parallels_bind (hbranch l) fun l' _ _ ⟨ids, hids, hbody⟩ => parallels_pure ?_
    rw [within_one .boxArtSensor nofun rfl hids]
    exact hsensor [callImport .takingBoxArt]
      ⟨hpermits.plain _ (by decide) rfl, trivial⟩ hbody
  | button =>
    refine parallels_bind (hbranch l) fun l' _ _ ⟨ids, hids, hbody⟩ => parallels_pure ?_
    rw [within_one .button nofun rfl hids]
    exact hsensor [int n.constant.asInt, callImport .button]
      ⟨trivial, hpermits.plain _ (by decide) rfl, trivial⟩ hbody

end Weave

end Compiler
end SignalGraph
