import Mathlib.Data.List.Nodup
import SignalGraph.Proofs.Wasm.BoundedRuns

/-!
# Fences

Code with fences around some of its parts.  Each tells the locals from which on, and up to which,
the part inside has locals of its own.  What uses locals in such code, in order, and when nothing
interferes.

Main statement: if locals are taken in the order of the code, then the code inside a fence has all
locals of the fence to itself, wherever the fence stands.
-/

namespace SignalGraph
namespace Wasm

/-- A fence around code that has the locals from `first` up to `last`.  No code of a program
contains such an instruction. -/
def fence (first last : Nat) (code : List Instr) : Instr :=
  .ifElse (some .f32) [.br first, .br last] code

def bounds : List Instr → Nat × Nat
  | [.br first, .br last] => (first, last)
  | _ => (0, 0)

/-- A part of code that uses locals: a read, a write, or what is inside a fence. -/
inductive Access where
  | get (i : Nat)
  | set (i : Nat)
  | region (first last : Nat) (code : List Instr)

mutual

def flatInstr : Instr → List Instr
  | .when body => [.when (flat body)]
  | .ifElse none a b => [.ifElse none (flat a) (flat b)]
  | .ifElse (some .i32) a b => [.ifElse (some .i32) (flat a) (flat b)]
  | .ifElse (some .f32) _ code => flat code
  | .block body => [.block (flat body)]
  | .loop body => [.loop (flat body)]
  | i => [i]

def flat : List Instr → List Instr
  | [] => []
  | i :: rest => flatInstr i ++ flat rest

end

mutual

def outlineInstr : Instr → List Access
  | .localGet i => [.get i]
  | .localSet i => [.set i]
  | .when body => outline body
  | .ifElse none a b => outline a ++ outline b
  | .ifElse (some .i32) a b => outline a ++ outline b
  | .ifElse (some .f32) numbers code => [.region (bounds numbers).1 (bounds numbers).2 code]
  | .block body => outline body
  | .loop body => outline body
  | _ => []

/-- What uses locals in code, in order.  Fences are not entered. -/
def outline : List Instr → List Access
  | [] => []
  | i :: rest => outlineInstr i ++ outline rest

end

mutual

def localsInInstr : Instr → List Nat
  | .localGet i => [i]
  | .localSet i => [i]
  | .when body => localsIn body
  | .ifElse none a b => localsIn a ++ localsIn b
  | .ifElse (some .i32) a b => localsIn a ++ localsIn b
  | .ifElse (some .f32) _ code => localsIn code
  | .block body => localsIn body
  | .loop body => localsIn body
  | _ => []

/-- All locals that code reads or writes, inside fences too. -/
def localsIn : List Instr → List Nat
  | [] => []
  | i :: rest => localsInInstr i ++ localsIn rest

end

def Access.locals : Access → List Nat
  | get i => [i]
  | set i => [i]
  | region _ _ code => localsIn code

def uses (parts : List Access) : List Nat := parts.flatMap Access.locals

theorem uses_append (a b : List Access) : uses (a ++ b) = uses a ++ uses b := List.flatMap_append

theorem uses_cons (a : Access) (b : List Access) :
    uses (a :: b) = a.locals ++ uses b := List.flatMap_cons

theorem flat_append (a b : List Instr) : flat (a ++ b) = flat a ++ flat b := by
  induction a with
  | nil => rfl
  | cons i rest ih => rw [List.cons_append, flat, flat, ih, List.append_assoc]

theorem outline_append (a b : List Instr) : outline (a ++ b) = outline a ++ outline b := by
  induction a with
  | nil => rfl
  | cons i rest ih => rw [List.cons_append, outline, outline, ih, List.append_assoc]

mutual

theorem localsInInstr_eq : ∀ i : Instr, localsInInstr i = uses (outlineInstr i)
  | .when body | .block body | .loop body => localsIn_eq body
  | .ifElse none a b | .ifElse (some .i32) a b => by
    rw [localsInInstr, outlineInstr, uses_append, localsIn_eq a, localsIn_eq b]
  | .ifElse (some .f32) _ code => (List.append_nil _).symm
  | .localGet _ | .localSet _ => rfl
  | .const _ | .globalGet _ | .globalSet _ | .call _ | .numeric _ | .br _ | .brIf _ => rfl

/-- The locals in code are those that the parts of it use. -/
theorem localsIn_eq : ∀ code : List Instr, localsIn code = uses (outline code)
  | [] => rfl
  | i :: rest => by rw [localsIn, outline, uses_append, localsInInstr_eq i, localsIn_eq rest]

end

/-! ## Locals in order -/

/-- How many locals are taken, and which of them by the code inside the fence where one stands. -/
structure Stand where
  next : Nat
  held : List Nat

/-- Parts that take locals in order, from one stand to another. -/
inductive Scoped : Stand → List Access → Stand → Prop
  | nil {s : Stand} : Scoped s [] s
  /-- The next locals are taken and set, the last first. -/
  | spill {next : Nat} {held : List Nat} {rest : List Access} {s : Stand} (count : Nat) :
    Scoped ⟨next + count, held ++ List.range' next count⟩ rest s →
    Scoped ⟨next, held⟩ ((List.range' next count).reverse.map .set ++ rest) s
  | get {s s' : Stand} {i : Nat} {rest : List Access} : i ∈ s.held → Scoped s rest s' →
      Scoped s (.get i :: rest) s'
  /-- A local that was taken before counts up. -/
  | again {s s' : Stand} {i : Nat} {rest : List Access} :
    i ∈ s.held → Scoped s rest s' → Scoped s (.get i :: .set i :: rest) s'
  /-- The code inside a fence takes locals of its own. -/
  | region {next last : Nat} {held own : List Nat} {code : List Instr} {rest : List Access}
      {s : Stand} :
    Scoped ⟨next, []⟩ (outline code) ⟨last, own⟩ → Scoped ⟨last, held⟩ rest s →
    Scoped ⟨next, held⟩ (.region next last code :: rest) s

variable {s s' s₁ : Stand} {parts a b : List Access}

theorem scoped_append (ha : Scoped s a s₁) (hb : Scoped s₁ b s') : Scoped s (a ++ b) s' := by
  induction ha with
  | nil => exact hb
  | spill count _ ih =>
    rw [List.append_assoc]
    exact .spill count (ih hb)
  | get hi _ ih => exact .get hi (ih hb)
  | again hi _ ih => exact .again hi (ih hb)
  | region hcode _ _ ih => exact .region hcode (ih hb)

theorem uses_sets (is : List Nat) : uses (is.map .set) = is := by
  induction is with
  | nil => rfl
  | cons i is ih =>
    rw [List.map_cons, uses_cons, ih]
    rfl

/-- Held locals are taken. -/
def Stand.Sound (s : Stand) : Prop := ∀ i ∈ s.held, i < s.next

theorem sound_none (next : Nat) : Stand.Sound ⟨next, []⟩ := fun _ h => absurd h List.not_mem_nil

theorem sound_spill {next count : Nat} {held : List Nat} (h : Stand.Sound ⟨next, held⟩) :
    Stand.Sound ⟨next + count, held ++ List.range' next count⟩ := by
  intro i hi
  show i < next + count
  rcases List.mem_append.mp hi with hi | hi
  · have : i < next := h i hi
    omega
  · exact (List.mem_range'_1.mp hi).2

structure Advances (s : Stand) (parts : List Access) (s' : Stand) : Prop where
  next : s.next ≤ s'.next
  sound : s'.Sound
  uses : ∀ i ∈ uses parts, i ∈ s.held ∨ (s.next ≤ i ∧ i < s'.next)
  held : ∀ i ∈ s'.held, i ∈ s.held ∨ (s.next ≤ i ∧ .set i ∈ parts)

theorem advances_of_scoped (h : Scoped s parts s') (hs : s.Sound) : Advances s parts s' := by
  induction h with
  | nil => exact ⟨Nat.le_refl _, hs, fun _ h => absurd h List.not_mem_nil, fun i hi => .inl hi⟩
  | @spill next held rest s count _ ih =>
    obtain ⟨hnext, hsound, huses, hheld⟩ := ih (sound_spill hs)
    have hle : next + count ≤ s.next := hnext
    refine ⟨Nat.le_trans (Nat.le_add_right _ _) hle, hsound, fun i hi => ?_, fun i hi => ?_⟩
    · rw [uses_append, uses_sets, List.mem_append, List.mem_reverse] at hi
      have hrange : ∀ j ∈ List.range' next count, j ∈ held ∨ (next ≤ j ∧ j < s.next) :=
        fun j hj => by
        have := List.mem_range'_1.mp hj
        omega
      rcases hi with hi | hi
      · exact hrange i hi
      · rcases huses i hi with hi | ⟨hge, hlt⟩
        · exact (List.mem_append.mp hi).elim .inl (hrange i)
        · exact .inr ⟨Nat.le_trans (Nat.le_add_right _ _) hge, hlt⟩
    · rcases hheld i hi with hi | ⟨hge, hset⟩
      · refine (List.mem_append.mp hi).imp id fun hi => ⟨(List.mem_range'_1.mp hi).1, ?_⟩
        exact List.mem_append_left _ (List.mem_map_of_mem (List.mem_reverse.mpr hi))
      · exact .inr ⟨Nat.le_trans (Nat.le_add_right _ _) hge, List.mem_append_right _ hset⟩
  | @get s s' i rest hi _ ih =>
    obtain ⟨hnext, hsound, huses, hheld⟩ := ih hs
    refine ⟨hnext, hsound, fun j hj => ?_,
      fun j hj => (hheld j hj).imp id (.imp id (List.mem_cons_of_mem _))⟩
    rcases List.mem_cons.mp hj with rfl | hj
    · exact .inl hi
    · exact huses j hj
  | @again s s' i rest hi _ ih =>
    obtain ⟨hnext, hsound, huses, hheld⟩ := ih hs
    refine ⟨hnext, hsound, fun j hj => ?_, fun j hj => (hheld j hj).imp id
      (.imp id fun hset => List.mem_cons_of_mem _ (List.mem_cons_of_mem _ hset))⟩
    rcases List.mem_cons.mp hj with rfl | hj
    · exact .inl hi
    · rcases List.mem_cons.mp hj with rfl | hj
      · exact .inl hi
      · exact huses j hj
  | @region next last held own code rest s _ _ ihcode ih =>
    obtain ⟨hfirst, -, hcode, -⟩ := ihcode (sound_none next)
    have hle : next ≤ last := hfirst
    obtain ⟨hnext, hsound, huses, hheld⟩ := ih fun i hi => Nat.lt_of_lt_of_le (hs i hi) hle
    have hlast : last ≤ s.next := hnext
    refine ⟨Nat.le_trans hle hlast, hsound, fun i hi => ?_, fun i hi => ?_⟩
    · rw [uses_cons, List.mem_append] at hi
      rcases hi with hi | hi
      · rw [show Access.locals _ = localsIn code from rfl, localsIn_eq] at hi
        obtain ⟨hge, hlt⟩ : next ≤ i ∧ i < last := (hcode i hi).resolve_left List.not_mem_nil
        exact .inr ⟨hge, Nat.lt_of_lt_of_le hlt hlast⟩
      · exact (huses i hi).imp id fun ⟨hge, hlt⟩ => ⟨Nat.le_trans hle hge, hlt⟩
    · exact (hheld i hi).imp id fun ⟨hge, hset⟩ =>
        ⟨Nat.le_trans hle hge, List.mem_cons_of_mem _ hset⟩

/-- A local is read only if it is given or was set before, and it is set only if nothing used it
before, or right after it was read. -/
structure Fresh (given : List Nat) (parts : List Access) : Prop where
  get : ∀ (a : List Access) (i : Nat) (b : List Access), parts = a ++ .get i :: b →
    i ∈ given ∨ .set i ∈ a
  set : ∀ (a : List Access) (i : Nat) (b : List Access), parts = a ++ .set i :: b →
    i ∉ uses a ∨ ∃ c, a = c ++ [.get i]

/-- A part of what comes after sets comes after them, or is one of them. -/
theorem split_sets {part : Access} {rest : List Access} : ∀ {is : List Nat} {a : List Access},
    is.map .set ++ rest = a ++ part :: b →
      (∃ c, a = is.map .set ++ c ∧ rest = c ++ part :: b) ∨
        ∃ i js ks, part = .set i ∧ is = js ++ i :: ks ∧ a = js.map .set
  | [], a, h => .inl ⟨a, rfl, h⟩
  | i :: is, [], h => by
    obtain ⟨rfl, -⟩ := List.cons.inj h
    exact .inr ⟨i, [], is, rfl, rfl, rfl⟩
  | i :: is, x :: a, h => by
    obtain ⟨rfl, htail⟩ := List.cons.inj h
    rcases split_sets htail with ⟨c, rfl, hrest⟩ | ⟨j, js, ks, hpart, rfl, rfl⟩
    · exact .inl ⟨c, rfl, hrest⟩
    · exact .inr ⟨j, i :: js, ks, hpart, rfl, rfl⟩

theorem get_of_scoped (h : Scoped s parts s') {i : Nat} (heq : parts = a ++ .get i :: b) :
    i ∈ s.held ∨ .set i ∈ a := by
  induction h generalizing a with
  | nil => exact absurd heq.symm (List.append_ne_nil_of_right_ne_nil _ (List.cons_ne_nil _ _))
  | @spill next held rest s count _ ih =>
    rcases split_sets heq with ⟨c, rfl, hrest⟩ | ⟨j, js, ks, hpart, -, -⟩
    · rcases ih hrest with hi | hi
      · refine (List.mem_append.mp hi).imp id fun hi => ?_
        exact List.mem_append_left _ (List.mem_map_of_mem (List.mem_reverse.mpr hi))
      · exact .inr (List.mem_append_right _ hi)
    · cases hpart
  | @get s s' j rest hj _ ih =>
    rcases a with _ | ⟨x, a⟩
    · cases heq
      exact .inl hj
    · obtain ⟨-, htail⟩ := List.cons.inj heq
      exact (ih htail).imp id (List.mem_cons_of_mem x)
  | @again s s' j rest hj _ ih =>
    rcases a with _ | ⟨x, _ | ⟨y, a⟩⟩
    · cases heq
      exact .inl hj
    · cases heq
    · obtain ⟨-, htail⟩ := List.cons.inj (List.cons.inj heq).2
      exact (ih htail).imp id fun hi => List.mem_cons_of_mem x (List.mem_cons_of_mem y hi)
  | region _ _ _ ih =>
    rcases a with _ | ⟨x, a⟩
    · cases heq
    · obtain ⟨-, htail⟩ := List.cons.inj heq
      exact (ih htail).imp id (List.mem_cons_of_mem x)

/-- A part that uses only locals below those that are taken after it. -/
theorem set_cons {next next' i : Nat} {part : Access} (hle : next ≤ next')
    (hpart : ∀ j ∈ part.locals, j < next')
    (h : (next' ≤ i ∧ i ∉ uses a) ∨ ∃ c, a = c ++ [.get i]) :
    (next ≤ i ∧ i ∉ uses (part :: a)) ∨ ∃ c, part :: a = c ++ [.get i] := by
  rcases h with ⟨hge, hnot⟩ | ⟨c, rfl⟩
  · refine .inl ⟨Nat.le_trans hle hge, fun hi => ?_⟩
    rw [uses_cons] at hi
    rcases List.mem_append.mp hi with hi | hi
    · exact Nat.not_lt_of_le hge (hpart i hi)
    · exact hnot hi
  · exact .inr ⟨part :: c, rfl⟩

/-- What is set is taken there, or counts up. -/
theorem set_of_scoped (h : Scoped s parts s') (hs : s.Sound) {i : Nat}
    (heq : parts = a ++ .set i :: b) :
    (s.next ≤ i ∧ i ∉ uses a) ∨ ∃ c, a = c ++ [.get i] := by
  induction h generalizing a with
  | nil => exact absurd heq.symm (List.append_ne_nil_of_right_ne_nil _ (List.cons_ne_nil _ _))
  | @spill next held rest s count _ ih =>
    rcases split_sets heq with ⟨c, rfl, hrest⟩ | ⟨j, js, ks, hpart, his, rfl⟩
    · rcases ih (sound_spill hs) hrest with ⟨hge, hnot⟩ | ⟨d, rfl⟩
      · have hge : next + count ≤ i := hge
        refine .inl ⟨Nat.le_trans (Nat.le_add_right _ _) hge, ?_⟩
        rw [uses_append, uses_sets, List.mem_append, List.mem_reverse, List.mem_range'_1]
        rintro (hi | hi)
        · omega
        · exact hnot hi
      · exact .inr ⟨_, (List.append_assoc _ _ _).symm⟩
    · cases hpart
      have hnodup : (js ++ i :: ks).Nodup := his ▸ List.nodup_reverse.mpr List.nodup_range'
      have hmem : i ∈ (List.range' next count).reverse :=
        his ▸ List.mem_append_right _ List.mem_cons_self
      refine .inl ⟨(List.mem_range'_1.mp (List.mem_reverse.mp hmem)).1, ?_⟩
      rw [uses_sets]
      exact fun hi => (List.disjoint_of_nodup_append hnodup) hi List.mem_cons_self
  | @get s s' j rest hj _ ih =>
    rcases a with _ | ⟨x, a⟩
    · cases heq
    · obtain ⟨rfl, htail⟩ := List.cons.inj heq
      exact set_cons (Nat.le_refl _) (fun k hk => List.mem_singleton.mp hk ▸ hs j hj) (ih hs htail)
  | @again s s' j rest hj _ ih =>
    rcases a with _ | ⟨x, _ | ⟨y, a⟩⟩
    · cases heq
    · cases heq
      exact .inr ⟨[], rfl⟩
    · obtain ⟨rfl, hcons⟩ := List.cons.inj heq
      obtain ⟨rfl, htail⟩ := List.cons.inj hcons
      have hlt : ∀ k ∈ [j], k < s.next := fun k hk => List.mem_singleton.mp hk ▸ hs j hj
      exact set_cons (Nat.le_refl _) hlt (set_cons (Nat.le_refl _) hlt (ih hs htail))
  | @region next last held own code rest s hcode _ _ ih =>
    rcases a with _ | ⟨x, a⟩
    · cases heq
    · obtain ⟨rfl, htail⟩ := List.cons.inj heq
      obtain ⟨hfirst, -, hinner, -⟩ := advances_of_scoped hcode (sound_none next)
      have hle : next ≤ last := hfirst
      refine set_cons hle (fun j hj => ?_) (ih (fun i hi => Nat.lt_of_lt_of_le (hs i hi) hle) htail)
      rw [show Access.locals _ = localsIn code from rfl, localsIn_eq] at hj
      exact ((hinner j hj).resolve_left List.not_mem_nil).2

theorem fresh_of_scoped (h : Scoped s parts s') (hs : s.Sound) : Fresh s.held parts :=
  ⟨fun _ _ _ heq => get_of_scoped h heq, fun _ _ _ heq => (set_of_scoped h hs heq).imp And.right id⟩

/-! ## Fences within code -/

/-- Code inside a fence, somewhere in other code, and the locals that are used before and after
it. -/
inductive Encloses : (code : List Instr) → (before : List Nat) → (first last : Nat) →
    (inner : List Instr) →
    (after : List Nat) → Prop
  | here {code inner : List Instr} {first last : Nat} {a b : List Access} :
    outline code = a ++ .region first last inner :: b →
      Encloses code (uses a) first last inner (uses b)
  | within {code middle inner : List Instr} {first last first' last' : Nat}
      {before after : List Nat}
    {a b : List Access} : outline code = a ++ .region first' last' middle :: b →
    Encloses middle before first last inner after →
    Encloses code (uses a ++ before) first last inner (after ++ uses b)

/-- Code with locals to itself. -/
structure Apart (before : List Nat) (first last : Nat) (inner : List Instr)
    (after : List Nat) : Prop where
  own : ∀ i ∈ localsIn inner, first ≤ i ∧ i < last
  before : ∀ i ∈ before, i < first
  after : ∀ i ∈ after, i < first ∨ last ≤ i
  fresh : Fresh [] (outline inner)

/-- Parts up to a fence, the code inside it, and the parts behind it. -/
theorem split_region {first last : Nat} {inner : List Instr} (h : Scoped s parts s')
    (heq : parts = a ++ .region first last inner :: b) : ∃ held own, Scoped s a ⟨first, held⟩ ∧
      Scoped ⟨first, []⟩ (outline inner) ⟨last, own⟩ ∧ Scoped ⟨last, held⟩ b s' := by
  induction h generalizing a with
  | nil => exact absurd heq.symm (List.append_ne_nil_of_right_ne_nil _ (List.cons_ne_nil _ _))
  | spill count _ ih =>
    rcases split_sets heq with ⟨c, rfl, hrest⟩ | ⟨j, js, ks, hpart, -, -⟩
    · obtain ⟨held, own, hbefore, hall⟩ := ih hrest
      exact ⟨held, own, .spill count hbefore, hall⟩
    · cases hpart
  | get hi _ ih =>
    rcases a with _ | ⟨x, a⟩
    · cases heq
    · obtain ⟨rfl, htail⟩ := List.cons.inj heq
      obtain ⟨held, own, hbefore, hall⟩ := ih htail
      exact ⟨held, own, .get hi hbefore, hall⟩
  | again hi _ ih =>
    rcases a with _ | ⟨x, _ | ⟨y, a⟩⟩
    · cases heq
    · cases heq
    · obtain ⟨rfl, hcons⟩ := List.cons.inj heq
      obtain ⟨rfl, htail⟩ := List.cons.inj hcons
      obtain ⟨held, own, hbefore, hall⟩ := ih htail
      exact ⟨held, own, .again hi hbefore, hall⟩
  | region hcode hrest _ ih =>
    rcases a with _ | ⟨x, a⟩
    · cases heq
      exact ⟨_, _, .nil, hcode, hrest⟩
    · obtain ⟨rfl, htail⟩ := List.cons.inj heq
      obtain ⟨held, own, hbefore, hall⟩ := ih htail
      exact ⟨held, own, .region hcode hbefore, hall⟩

variable {code inner : List Instr} {before after : List Nat} {first last : Nat}

/-- By induction on the fences around the code: each has the locals of what it encloses. -/
theorem apart_of_encloses (he : Encloses code before first last inner after)
    (h : Scoped s (outline code) s')
    (hs : s.Sound) : s.next ≤ first ∧ last ≤ s'.next ∧ Apart before first last inner after := by
  induction he generalizing s s' with
  | @here code inner first last a b heq =>
    obtain ⟨held, own, hbefore, hinner, hafter⟩ := split_region h heq
    obtain ⟨hfirst, hsound, huses, -⟩ := advances_of_scoped hbefore hs
    obtain ⟨hle, -, hown, -⟩ := advances_of_scoped hinner (sound_none first)
    have hle : first ≤ last := hle
    have hheld : ∀ i ∈ held, i < first := hsound
    obtain ⟨hlast, -, huses', -⟩ :=
      advances_of_scoped hafter fun i hi => Nat.lt_of_lt_of_le (hheld i hi) hle
    refine ⟨hfirst, hlast, fun i hi => ?_, fun i hi => ?_,
      fun i hi => ?_, fresh_of_scoped hinner (sound_none _)⟩
    · rw [localsIn_eq] at hi
      exact (hown i hi).resolve_left List.not_mem_nil
    · exact (huses i hi).elim (fun hi => Nat.lt_of_lt_of_le (hs i hi) hfirst) And.right
    · exact (huses' i hi).imp (hheld i) And.left
  | @within code middle inner first last first' last' before after a b heq _ ih =>
    obtain ⟨held, own, hbefore, hmiddle, hafter⟩ := split_region h heq
    obtain ⟨hfirst, hsound, huses, -⟩ := advances_of_scoped hbefore hs
    obtain ⟨hle, -, -, -⟩ := advances_of_scoped hmiddle (sound_none first')
    have hle : first' ≤ last' := hle
    have hheld : ∀ i ∈ held, i < first' := hsound
    obtain ⟨hlast, -, huses', -⟩ :=
      advances_of_scoped hafter fun i hi => Nat.lt_of_lt_of_le (hheld i hi) hle
    obtain ⟨hge, hle', hapart⟩ := ih hmiddle (sound_none first')
    have hge : first' ≤ first := hge
    have hle' : last ≤ last' := hle'
    refine ⟨Nat.le_trans hfirst hge, Nat.le_trans hle' hlast, hapart.own, fun i hi => ?_,
      fun i hi => ?_,
      hapart.fresh⟩
    · rcases List.mem_append.mp hi with hi | hi
      · have hlt : i < first' :=
          (huses i hi).elim (fun hi => Nat.lt_of_lt_of_le (hs i hi) hfirst) And.right
        exact Nat.lt_of_lt_of_le hlt hge
      · exact hapart.before i hi
    · rcases List.mem_append.mp hi with hi | hi
      · exact hapart.after i hi
      · exact (huses' i hi).imp (fun hi => Nat.lt_of_lt_of_le (hheld i hi) hge) fun ⟨h, _⟩ =>
          Nat.le_trans hle' h

end Wasm
end SignalGraph
