import SignalGraph.Proofs.Instrumentation.Code
import SignalGraph.Proofs.Instrumentation.Weaves
import SignalGraph.Proofs.Wasm.StackHeights

/-!
# Tracked code

Code with something extra that does what other code does.  The code of a node sets slots of its own
alone, because the number of the slot lies right below the lanes that are stored, whatever code
computes them.
-/

namespace SignalGraph
namespace Compiler

open Wasm Machine

variable {σ L : Type} {labels : Nat} {P Q R N B : Machine (World σ) → L → Prop}
  {call' : Nat → List Lane → Exec (World (σ × L)) (List Lane)}
  {call : Nat → List Lane → Exec (World σ) (List Lane)} {calls : Nat → Prop} {a' a b' b : Code}

/-- Code with something extra that does on any stack what the other code does. -/
def Tracks (call' : Nat → List Lane → Exec (World (σ × L)) (List Lane))
    (call : Nat → List Lane → Exec (World σ) (List Lane)) (labels : Nat)
    (P Q : Machine (World σ) → L → Prop) (code' code : Code) : Prop :=
  ∀ s, Escorts P (Remains Q labels) (instrs call' code' s) (instrs call code s)

theorem tracks_nil : Tracks call' call labels P P [] [] := fun s => escorts_next s

theorem tracks_append (ha : Tracks call' call 0 P Q a' a) (hb : Tracks call' call labels Q R b' b) :
    Tracks call' call labels P R (a' ++ b') (a ++ b) := by
  intro s
  rw [instrs_append_bind, instrs_append_bind]
  exact escorts_proceed (ha s) hb

/-- Code that may branch out, with nothing to do where it does. -/
theorem tracks_guard (ha : Tracks call' call labels P Q a' a)
    (hb : Tracks call' call labels Q Q b' b) :
    Tracks call' call labels P Q (a' ++ b') (a ++ b) := by
  intro s
  rw [instrs_append_bind, instrs_append_bind]
  refine mirrors_bind (ha s) fun outcome => ?_
  cases outcome with
  | next s => exact mirrors_weaken (fun _ _ h => h.1) (hb s)
  | jump label => exact mirrors_pure fun _ _ h => h

theorem tracks_mono {P' Q' : Machine (World σ) → L → Prop} (h : Tracks call' call 0 P Q a' a)
    (hP : ∀ t l, P' t l → P t l) (hQ : ∀ t l, Q t l → Q' t l) :
    Tracks call' call labels P' Q' a' a := fun s =>
  mirrors_weaken hP (mirrors_mono (h s) fun _ t l ⟨hI, hlt⟩ =>
    ⟨hQ t l hI, fun label heq => absurd (hlt label heq) (Nat.not_lt_zero _)⟩)

theorem tracks_when (h : Tracks call' call 1 P P b' b) :
    Tracks call' call 0 P P [.when b'] [.when b] := by
  intro s
  rw [instrs_one, instrs_one]
  exact escorts_when (h []) s

theorem tracks_ifElse (r : Option LaneType) (ha : Tracks call' call 1 P P a' a)
    (hb : Tracks call' call 1 P P b' b) :
    Tracks call' call 0 P P [.ifElse r a' b'] [.ifElse r a b] := by
  intro s
  rw [instrs_one, instrs_one]
  exact escorts_ifElse r (ha []) (hb []) s

theorem tracks_block_loop (h : Tracks call' call 2 P P b' b) :
    Tracks call' call 0 P P [.block [.loop b']] [.block [.loop b]] := by
  intro s
  have hloop : Escorts P (Remains P 1) (instrs call' [.loop b'] []) (instrs call [.loop b] []) := by
    rw [instrs_one, instrs_one]
    exact escorts_loop (h []) []
  rw [instrs_one, instrs_one]
  exact escorts_body hloop s

structure Serves (calls : Nat → Prop) (call' : Nat → List Lane → Exec (World (σ × L)) (List Lane))
    (call : Nat → List Lane → Exec (World σ) (List Lane)) (P : Machine (World σ) → L → Prop) :
    Prop where
  calls : ∀ f, calls f → ∀ s, Escorts P (fun _ => P) (call' f s) (call f s)
  locals : IgnoresLocals P

section

variable (hserves : Serves calls call' call P)
include hserves

theorem tracks_confined {c : Limits} (hc : ∀ f, c.calls f → calls f)
    (hglobals : ∀ i, c.globals i → ∀ lane t l, P t l →
      P { t with globals := t.globals.setIfInBounds i lane } l) {code : Code}
    (h : confined c labels code) : Tracks call' call labels P P code code :=
  have hescorted : Escorted c P call' call :=
    ⟨fun f hf => hserves.calls f (hc f hf), hglobals, hserves.locals⟩
  fun s => escorts_instrs hescorted h s

theorem tracks_calls {code : Code} (h : Calls calls 0 code) :
    Tracks call' call 0 P P code code :=
  tracks_confined hserves (fun _ h => h) (fun _ (h : False) => h.elim) (h 0)

end

theorem tracks_int (hserves : Serves calls call' call P) (k : Int32) :
    Tracks call' call 0 P P [int k] [int k] := tracks_calls hserves (calls_int k)

theorem tracks_getLocals (hlocals : IgnoresLocals P) (locals : List Nat) :
    Tracks call' call 0 P P (getLocals locals) (getLocals locals) :=
  have hserves : Serves (fun _ => False) call' call P := ⟨fun _ h => h.elim, hlocals⟩
  tracks_calls hserves (calls_getLocals locals)

/-- What the function keeps that sets a slot, when it finds the number of the slot below the
lanes. -/
def Stores (call' : Nat → List Lane → Exec (World (σ × L)) (List Lane))
    (call : Nat → List Lane → Exec (World σ) (List Lane)) (P Q : Machine (World σ) → L → Prop)
    (slot : SlotId) : Prop :=
  ∀ f : Format, f ≠ .rot → ∀ below s, Piled (.i32 (Int32.ofNat slot) :: below) f.lanes.length s →
    Escorts P (fun _ => Q) (call' (Import.setSlot f).index s) (call (Import.setSlot f).index s)

/-- The imported functions take and leave as many lanes as they declare. -/
def Stacked (call : Nat → List Lane → Exec (World σ) (List Lane)) : Prop :=
  ∀ i ∈ Import.table, ∀ below s, Piled below i.type.params.length s →
    Returns (call i.index s) (Piled below i.type.results.length)

/-- The lanes of a value are computed on top of the number of a slot. -/
theorem tracks_store {f : Format} (hf : f ≠ .rot) {slot : SlotId}
    (hstore : Stores call' call P Q slot)
    {lanes' lanes : Code} (hlanes : Tracks call' call 0 P P lanes' lanes)
    (hpiles : Piles call lanes f.lanes.length) :
    Tracks call' call 0 P Q (Compiler.id slot :: lanes' ++ [callImport (.setSlot f)])
      (Compiler.id slot :: lanes ++ [callImport (.setSlot f)]) := by
  intro s
  have hcomputed := mirrors_and (hlanes (.i32 (Int32.ofNat slot) :: s))
    (hpiles (.i32 (Int32.ofNat slot) :: s))
  rw [instrs_append_bind, instrs_append_bind]
  refine mirrors_bind (J := fun outcome t l => Remains P 0 outcome t l ∧ _) hcomputed
    fun outcome => ?_
  cases outcome with
  | next s' =>
    rintro t l ⟨⟨hP, -⟩, hpiled⟩
    rw [proceed, proceed, instrs_one, instrs_one]
    refine mirrors_bind (hstore f hf s s' (hpiled s' rfl)) (fun s'' => ?_) t l hP
    exact escorts_next s''
  | jump label => exact fun _ _ h => absurd (h.1.2 label rfl) (Nat.not_lt_zero _)

variable {n' n : Node} {produce' produce : Producer → Emit Code}
  {branches chain : List NodeId → Emit Code}

/-- What a statement keeps: `N` while anything may run, and `B` once its slots are set, until one of
its branches runs. -/
structure Minds (call' : Nat → List Lane → Exec (World (σ × L)) (List Lane))
    (call : Nat → List Lane → Exec (World σ) (List Lane)) (N B : Machine (World σ) → L → Prop)
    (n : Node) : Prop where
  stored : ∀ t l, N t l → B t l
  locals : IgnoresLocals B
  store : ∀ slot ∈ n.slots, Stores call' call B B slot
  ended : n.kind.shape.branches = [] → ∀ t l, B t l → N t l

theorem Minds.first (hm : Minds call' call N B n) {slot : SlotId} (hslot : slot ∈ n.slots) :
    Stores call' call N B slot :=
  fun f hf below s hs => mirrors_weaken hm.stored (hm.store slot hslot f hf below s hs)

/-- What is kept from one standing to another. -/
def Tracking (call' : Nat → List Lane → Exec (World (σ × L)) (List Lane))
    (call : Nat → List Lane → Exec (World σ) (List Lane)) (N B : Machine (World σ) → L → Prop) :
    Weaving := fun _ s a' a s' =>
  Tracks call' call 0 (bif s.stored then B else N) (bif s'.stored then B else N) a' a

theorem weave_tracking (hserves : Serves calls call' call N) (hlocals : IgnoresLocals B) :
    Weave calls (Tracking call' call N B) where
  append := tracks_append
  straight h := tracks_calls hserves (calls_of_straight h)
  spill _ _ _ := tracks_calls hserves (calls_map fun _ _ _ => Nat.zero_le _)
  gets {s} is _ := by
    unfold Tracking
    cases s.stored with
    | false => exact tracks_getLocals hserves.locals is
    | true => exact tracks_getLocals hlocals is
  when h := tracks_when (tracks_mono h (fun _ _ h => h) fun _ _ h => h)
  ifElse _ ha hb := tracks_ifElse _ (tracks_mono ha (fun _ _ h => h) fun _ _ h => h)
    (tracks_mono hb (fun _ _ h => h) fun _ _ h => h)
  rounds {_ _ _ _ k count _ _} _ _ h := by
    have htest : confined (limits calls 0) 2
        [.localGet k, .localGet count, .numeric .i32GeU, .brIf 1] :=
      ⟨trivial, trivial, trivial, Nat.one_lt_two, confined_nil⟩
    have hagain : confined (limits calls 0) 2
        [.localGet k, int 1, .numeric .i32Add, .localSet k, .br 0] :=
      ⟨trivial, trivial, trivial, Nat.zero_le k, Nat.zero_lt_two, confined_nil⟩
    have hsame : ∀ {code}, confined (limits calls 0) 2 code → Tracks call' call 2 N N code code :=
      tracks_confined hserves (fun _ h => h) fun _ (h : False) => h.elim
    have hround := tracks_guard (tracks_guard (hsame htest)
      (tracks_mono h (fun _ _ h => h) fun _ _ h => h)) (hsame hagain)
    exact tracks_block_loop hround

theorem saves_tracking (hstacked : Stacked call) (hm : Minds call' call N B n) :
    Saves (Piles call) n (Tracking call' call N B) where
  lays := {
    nil := piles_nil
    const := piles_const
    gets := piles_localGets
    append := piles_append
    call := fun hi ha => piles_call ha fun below s hs => hstacked _ hi below s hs }
  store {_ _ _ _ stored _ _ _ _} hf hslot hlanes hleaves := by
    cases stored with
    | false => exact tracks_store hf (hm.first hslot) hlanes hleaves
    | true => exact tracks_store hf (hm.store _ hslot) hlanes hleaves
  forget h := tracks_mono h hm.stored fun _ _ h => h
  ended hbranches h := tracks_mono h (fun _ _ h => h) (hm.ended hbranches)

/-- Operands that do the same with something extra. -/
theorem feeds_tracking
    (hoperand : ∀ i, Pairs (operand produce' n' i) (operand produce n i) (Tracks call' call 0 N N))
    (hflagged : ∀ i, Pairs (flaggedOperand produce' n' i) (flaggedOperand produce n i)
      (Tracks call' call 0 N N))
    (hsame : n' = { n with inputs := n'.inputs }) :
    Feeds (Tracking call' call N B) produce' n' produce n where
  operand i l := (hoperand i l).mono fun _ _ _ h _ => h
  flagged i l := (hflagged i l).mono fun _ _ _ h _ => h
  same := hsame

theorem feeds_self (hserves : Serves calls call' call N) (hreads : Reads calls produce n) :
    Feeds (Tracking call' call N B) produce n produce n :=
  feeds_reads hreads fun hcode _ => tracks_calls hserves hcode

theorem follows_tracking
    (h : ∀ ids ∈ n.controls, Pairs (branches ids) (chain ids) (Tracks call' call 0 B N)) :
    Follows (Tracking call' call N B) branches chain n :=
  fun ids hids l => (h ids hids l).mono fun _ _ _ hbody _ => hbody

section

variable (hserves : Serves calls call' call N)
include hserves

theorem pairs_evaluate (hplain : CallsPlain calls)
    (hfeeds : Feeds (Tracking call' call N N) produce' n' produce n) (output : Nat)
    (x : Expression) : Pairs (evaluate produce' n' output x) (evaluate produce n output x)
      (Tracks call' call 0 N N) := fun l =>
  ((weave_tracking hserves hserves.locals).parallels_evaluate hplain hfeeds output x l).mono
    fun _ _ _ ⟨_, h⟩ => h

theorem pairs_readSlot (hplain : CallsPlain calls) (p : Program) (n : Node) (output : Nat) :
    Pairs (readSlot p n output) (readSlot p n output) (Tracks call' call 0 N N) := fun l =>
  ((weave_tracking hserves hserves.locals).parallels_readSlot hplain p n output l).mono
    fun _ _ _ ⟨_, h⟩ => h

theorem pairs_statement (hpermits : Permits calls n) (hstacked : Stacked call)
    (hm : Minds call' call N B n) (hfeeds : Feeds (Tracking call' call N B) produce' n' produce n)
    (hfollows : Follows (Tracking call' call N B) branches chain n)
    (hoperands : ∀ e : Effect, n.kind = .effect e → ∀ l code l',
      effectOperands produce n e.shape.inputs l = .ok (code, l') →
      Piles call code (Pin.flaggedLanes e.shape.inputs).length)
    (id : NodeId) {st : Statement} (hkind : n.kind = .statement st) :
    Pairs (statement produce' branches id n' st) (statement produce chain id n st)
      (Tracks call' call 0 N N) := fun l =>
  ((weave_tracking hserves hm.locals).parallels_statement (saves_tracking hstacked hm) hpermits
    hfeeds hfollows hoperands id hkind l).mono fun _ _ _ ⟨_, h⟩ => h

end

end Compiler
end SignalGraph
