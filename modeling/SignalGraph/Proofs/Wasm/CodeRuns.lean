import Mathlib.Data.List.Forall2
import SignalGraph.Wasm.Machine

/-!
# Runs of code

How the stack and the machine change when code runs to its end, one instruction at a time and in a
row.
-/

namespace SignalGraph
namespace Wasm
namespace Machine

variable {τ : Type} {call : Nat → List Lane → Exec τ (List Lane)} {a b : List Instr}
  {s s' u : List Lane} {t t' t'' : Machine τ}

/-- Code runs to its end: from one stack and machine to others. -/
def Runs (call : Nat → List Lane → Exec τ (List Lane)) (code : List Instr) (s : List Lane)
    (t : Machine τ) (s' : List Lane) (t' : Machine τ) : Prop :=
  instrs call code s t = .ok (.next s') t'

theorem bind_of_ok {α β : Type} {x : Exec τ α} {f : α → Exec τ β} {v : α} (h : x t = .ok v t') :
    (x >>= f) t = f v t' := by
  show EStateM.bind x f t = _
  rw [EStateM.bind, h]

/-- What comes after code, if control goes on. -/
def proceed (rest : List Lane → Exec τ Outcome) : Outcome → Exec τ Outcome
  | .next s => rest s
  | .jump label => return .jump label

section

variable (run : Nat → List Lane → Exec τ (List Lane))

theorem instrs_cons (i : Instr) (rest : List Instr) (s : List Lane) :
    instrs run (i :: rest) s = instr run i s >>= proceed (instrs run rest) := by
  refine congrArg (instr run i s >>= ·) (funext fun outcome => ?_)
  cases outcome <;> rfl

theorem instrs_append_bind (a b : List Instr) (s : List Lane) :
    instrs run (a ++ b) s = instrs run a s >>= proceed (instrs run b) := by
  induction a generalizing s with
  | nil => rfl
  | cons i rest ih =>
    rw [List.cons_append, instrs_cons run i (rest ++ b), instrs_cons run i rest, bind_assoc]
    refine congrArg (instr run i s >>= ·) (funext fun outcome => ?_)
    cases outcome with
    | next s => exact ih s
    | jump label => rfl

theorem instrs_one (i : Instr) (s : List Lane) : instrs run [i] s = instr run i s := by
  have hproceed : proceed (instrs run []) = (pure : Outcome → Exec τ Outcome) := by
    funext outcome
    cases outcome <;> rfl
  rw [instrs_cons, hproceed, bind_pure]

end

theorem instrs_next {i : Instr} (h : instr call i s t = .ok (.next s') t') :
    instrs call (i :: a) s t = instrs call a s' t' := by
  rw [instrs_cons]
  exact bind_of_ok h

theorem instrs_jump {i : Instr} {label : Nat} (h : instr call i s t = .ok (.jump label) t') :
    instrs call (i :: a) s t = .ok (.jump label) t' := by
  rw [instrs_cons]
  exact bind_of_ok h

theorem runs_nil : Runs call [] s t s t := rfl

theorem runs_one {i : Instr} (h : instr call i s t = .ok (.next s') t') :
    Runs call [i] s t s' t' :=
  instrs_next h

theorem instrs_append (h : Runs call a s t s' t') :
    instrs call (a ++ b) s t = instrs call b s' t' := by
  rw [instrs_append_bind]
  exact bind_of_ok h

theorem runs_append (ha : Runs call a s t s' t') (hb : Runs call b s' t' u t'') :
    Runs call (a ++ b) s t u t'' := by
  rw [Runs, instrs_append ha]
  exact hb

theorem runs_cons {i : Instr} (hi : Runs call [i] s t s' t') (hb : Runs call b s' t' u t'') :
    Runs call (i :: b) s t u t'' :=
  runs_append hi hb

theorem runs_const (lane : Lane) : Runs call [.const lane] s t (lane :: s) t := rfl

theorem runs_consts : ∀ {lanes s : List Lane},
    Runs call (lanes.map .const) s t (lanes.reverse ++ s) t
  | [], _ => runs_nil
  | lane :: rest, s => by
    rw [List.reverse_cons, List.append_assoc]
    exact runs_cons (runs_const lane) runs_consts

theorem runs_localGet {i : Nat} {lane : Lane} (h : t.locals[i]? = some lane) :
    Runs call [.localGet i] s t (lane :: s) t :=
  runs_one (bind_of_ok (x := orStuck t.locals[i]?) (by rw [h]; rfl))

theorem runs_globalGet {i : Nat} {lane : Lane} (h : t.globals[i]? = some lane) :
    Runs call [.globalGet i] s t (lane :: s) t :=
  runs_one (bind_of_ok (x := orStuck t.globals[i]?) (by rw [h]; rfl))

theorem runs_localSet (i : Nat) (lane : Lane) :
    Runs call [.localSet i] (lane :: s) t s { t with locals := t.locals.setIfInBounds i lane } :=
  rfl

theorem runs_globalSet (i : Nat) (lane : Lane) :
    Runs call [.globalSet i] (lane :: s) t s
      { t with globals := t.globals.setIfInBounds i lane } := rfl

theorem runs_call {f : Nat} (h : call f s t = .ok s' t') : Runs call [.call f] s t s' t' :=
  runs_one (bind_of_ok h)

theorem runs_numeric {op : Numeric} (h : op.apply s = some s') : Runs call [.numeric op] s t s' t :=
  runs_one (bind_of_ok (x := orStuck (op.apply s)) (by rw [h]; rfl))

/-- What a body leaves lies on top of what was there before it. -/
theorem body_of_runs (h : Runs call a [] t u t') :
    (instrs call a [] >>= fun outcome => pure (leave s outcome) : Exec τ Outcome) t =
      .ok (.next (u ++ s)) t' :=
  bind_of_ok h

theorem instr_when {c : Int32} :
    instr call (.when a) (.i32 c :: s) t =
      (if c != 0 then (instrs call a [] >>= fun outcome => pure (leave s outcome) : Exec τ Outcome)
        else pure (.next s)) t := rfl

theorem runs_when {c : Int32} (hc : c ≠ 0) (h : Runs call a [] t [] t') :
    Runs call [.when a] (.i32 c :: s) t s t' := by
  refine runs_one ?_
  rw [instr_when, if_pos (bne_iff_ne.mpr hc)]
  exact body_of_runs h

theorem runs_when_zero : Runs call [.when a] (.i32 0 :: s) t s t := rfl

theorem instr_ifElse {r : Option LaneType} {c : Int32} :
    instr call (.ifElse r a b) (.i32 c :: s) t =
      (if c != 0 then (instrs call a [] >>= fun outcome => pure (leave s outcome) : Exec τ Outcome)
        else (instrs call b [] >>= fun outcome => pure (leave s outcome) : Exec τ Outcome)) t := rfl

theorem runs_onTrue {r : Option LaneType} {c : Int32} (hc : c ≠ 0) (h : Runs call a [] t u t') :
    Runs call [.ifElse r a b] (.i32 c :: s) t (u ++ s) t' := by
  refine runs_one ?_
  rw [instr_ifElse, if_pos (bne_iff_ne.mpr hc)]
  exact body_of_runs h

theorem runs_onFalse {r : Option LaneType} (h : Runs call b [] t u t') :
    Runs call [.ifElse r a b] (.i32 0 :: s) t (u ++ s) t' := by
  refine runs_one ?_
  rw [instr_ifElse, if_neg (by decide)]
  exact body_of_runs h

/-- Code that may be skipped is code with an alternative that does nothing. -/
theorem instr_when_eq : instr call (.when a) s = instr call (.ifElse none a []) s := by
  rcases s with _ | ⟨_ | _, s⟩ <;> rfl

/-! ## Loops -/

/-- A loop's body that jumps past the loop ends it. -/
theorem iterate_exit {body : Exec τ Outcome} {bound label : Nat}
    (h : body t = .ok (.jump (label + 1)) t') :
    iterate body (bound + 1) t = .ok (.jump label) t' :=
  bind_of_ok h

/-- A loop's body that jumps to the loop starts it again. -/
theorem iterate_again {body : Exec τ Outcome} {bound : Nat} (h : body t = .ok (.jump 0) t') :
    iterate body (bound + 1) t = iterate body bound t' :=
  bind_of_ok h

/-- A block around a loop that jumps to its end. -/
theorem runs_block_loop (h : iterate (instrs call a []) loopBound t = .ok (.jump 0) t') :
    Runs call [.block [.loop a]] s t s t' := by
  have hloop : instr call (.loop a) [] t = .ok (.jump 0) t' := bind_of_ok h
  exact runs_one (bind_of_ok (instrs_jump hloop))

theorem instrs_br (label : Nat) : instrs call (.br label :: b) s t = .ok (.jump label) t :=
  instrs_jump rfl

theorem instrs_brIf {c : Int32} (label : Nat) (hc : c ≠ 0) :
    instrs call (.brIf label :: b) (.i32 c :: s) t = .ok (.jump label) t := by
  refine instrs_jump ?_
  show (pure (if c != 0 then Outcome.jump label else .next s) : Exec τ Outcome) t = _
  rw [if_pos (bne_iff_ne.mpr hc)]
  rfl

theorem runs_brIf_zero (label : Nat) : Runs call [.brIf label] (.i32 0 :: s) t s t := rfl

def putAll (lanes : Array Lane) : List Nat → List Lane → Array Lane
  | i :: is, lane :: rest => (putAll lanes is rest).setIfInBounds i lane
  | _, _ => lanes

variable {is : List Nat} {lanes : List Lane}

theorem size_putAll {array : Array Lane} : (putAll array is lanes).size = array.size := by
  induction is generalizing lanes with
  | nil => rfl
  | cons i is ih =>
    cases lanes with
    | nil => rfl
    | cons lane rest => rw [putAll, Array.size_setIfInBounds, ih]

theorem putAll_of_not_mem {array : Array Lane} {j : Nat} (h : j ∉ is) :
    (putAll array is lanes)[j]? = array[j]? := by
  induction is generalizing lanes with
  | nil => rfl
  | cons i is ih =>
    cases lanes with
    | nil => rfl
    | cons lane rest =>
      rw [List.mem_cons, not_or] at h
      rw [putAll, Array.getElem?_setIfInBounds_ne (Ne.symm h.1)]
      exact ih h.2

abbrev Holds (array : Array Lane) (is : List Nat) (lanes : List Lane) : Prop :=
  List.Forall₂ (fun i lane => array[i]? = some lane) is lanes

theorem holds_congr {array array' : Array Lane} (h : Holds array is lanes)
    (hsame : ∀ i ∈ is, array'[i]? = array[i]?) : Holds array' is lanes := by
  induction h with
  | nil => exact .nil
  | @cons i lane is lanes hi _ ih =>
    refine .cons ?_ (ih fun j hj => hsame j (List.mem_cons_of_mem i hj))
    rw [hsame i List.mem_cons_self]
    exact hi

theorem holds_set {array : Array Lane} (h : Holds array is lanes) {i : Nat} (hi : i ∉ is)
    (lane : Lane) : Holds (array.setIfInBounds i lane) is lanes := by
  refine holds_congr h fun j hj => Array.getElem?_setIfInBounds_ne ?_
  rintro rfl
  exact hi hj

theorem holds_putAll {array : Array Lane} (hlen : is.length = lanes.length) (hnodup : is.Nodup)
    (hbound : ∀ i ∈ is, i < array.size) : Holds (putAll array is lanes) is lanes := by
  induction is generalizing lanes with
  | nil =>
    cases lanes with
    | nil => exact .nil
    | cons lane rest => exact nomatch hlen
  | cons i is ih =>
    cases lanes with
    | nil => exact nomatch hlen
    | cons lane rest =>
      obtain ⟨hnot, hnodup⟩ := List.nodup_cons.mp hnodup
      have hlt : i < (putAll array is rest).size := by
        rw [size_putAll]
        exact hbound i List.mem_cons_self
      have hrest := ih (Nat.succ.inj hlen) hnodup fun j hj => hbound j (List.mem_cons_of_mem i hj)
      exact .cons (Array.getElem?_setIfInBounds_self_of_lt hlt) (holds_set hrest hnot lane)

/-- Lanes go from the stack into an array one after the other. -/
theorem runs_sets {set : Nat → Instr} (put : Array Lane → Machine τ) {array : Array Lane}
    (hset : ∀ i lane s array,
      Runs call [set i] (lane :: s) (put array) s (put (array.setIfInBounds i lane)))
    (h : is.length = lanes.length) :
    Runs call (is.reverse.map set) (lanes.reverse ++ s) (put array) s
      (put (putAll array is lanes)) := by
  induction is generalizing lanes s with
  | nil =>
    cases lanes with
    | nil => exact runs_nil
    | cons lane rest => exact nomatch h
  | cons i is ih =>
    cases lanes with
    | nil => exact nomatch h
    | cons lane rest =>
      rw [List.reverse_cons, List.map_append, List.reverse_cons, List.append_assoc]
      exact runs_append (ih (Nat.succ.inj h)) (hset i lane _ _)

theorem runs_localSets (h : is.length = lanes.length) :
    Runs call (is.reverse.map .localSet) (lanes.reverse ++ s) t s
      { t with locals := putAll t.locals is lanes } :=
  runs_sets (fun locals => { t with locals }) (fun i lane _ _ => runs_localSet i lane) h

theorem runs_globalSets (h : is.length = lanes.length) :
    Runs call (is.reverse.map .globalSet) (lanes.reverse ++ s) t s
      { t with globals := putAll t.globals is lanes } :=
  runs_sets (fun globals => { t with globals }) (fun i lane _ _ => runs_globalSet i lane) h

/-- Lanes of an array are put on the stack one after the other. -/
theorem runs_gets {get : Nat → Instr} {array : Array Lane}
    (hget : ∀ {i lane s}, array[i]? = some lane → Runs call [get i] s t (lane :: s) t)
    (h : Holds array is lanes) : Runs call (is.map get) s t (lanes.reverse ++ s) t := by
  induction h generalizing s with
  | nil => exact runs_nil
  | cons hi _ ih =>
    rw [List.reverse_cons, List.append_assoc]
    exact runs_cons (hget hi) ih

theorem runs_localGets (h : Holds t.locals is lanes) :
    Runs call (is.map .localGet) s t (lanes.reverse ++ s) t :=
  runs_gets runs_localGet h

theorem runs_globalGets (h : Holds t.globals is lanes) :
    Runs call (is.map .globalGet) s t (lanes.reverse ++ s) t :=
  runs_gets runs_globalGet h

/-- A body on locals of its own, which are gone afterwards. -/
theorem callBody_apply (body : Exec τ Outcome) (locals : Array Lane) (t : Machine τ) :
    callBody body locals t = match body { t with locals } with
      | .ok (.next outs) t' => .ok outs { t' with locals := t.locals }
      | .ok (.jump _) t' => .error .stuck { t' with locals := t.locals }
      | .error trap t' => .error trap t' := by
  show EStateM.bind body _ { t with locals } = _
  unfold EStateM.bind
  cases body { t with locals } with
  | ok outcome t' => cases outcome <;> rfl
  | error trap t' => rfl

/-- What a call of a function does, given what the calls within it do. -/
def enter (m : Module) (host : Host τ) (call : Nat → List Lane → Exec τ (List Lane)) (f : Nat)
    (stack : List Lane) : Exec τ (List Lane) :=
  match m.imports[f]? with
  | some i => do
    let (lanes, below) ← arguments i.type.params.length stack
    return (← callHost host f lanes).reverse ++ below
  | none => do
    let function ← orStuck m.functions[f - m.imports.size]?
    let (lanes, below) ← arguments function.type.params.length stack
    let locals := (lanes ++ function.locals.map LaneType.zero).toArray
    return (← callBody (instrs call function.body []) locals) ++ below

end Machine
end Wasm
end SignalGraph
