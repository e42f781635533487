import SignalGraph.Proofs.Wasm.CodeRuns
import SignalGraph.Proofs.Wasm.StackTypes

/-!
# Runs of well-typed code

Well-typed code is never stuck, and it leaves lanes of the types that it says.
-/

namespace SignalGraph
namespace Wasm

/-! ## Closed stack types -/

namespace StackType

variable {t : LaneType} {ts us : List LaneType} {s : StackType}

theorem pushAll_eq (ts : List LaneType) (s : StackType) :
    s.pushAll ts = ⟨ts.reverse ++ s.lanes, s.isOpen⟩ := by
  induction ts generalizing s with
  | nil => rfl
  | cons t rest ih =>
    rw [show s.pushAll (t :: rest) = (s.push t).pushAll rest from rfl, ih, List.reverse_cons,
      List.append_assoc]
    rfl

theorem pop_closed (h : (⟨us, false⟩ : StackType).pop t = some s) :
    ∃ rest, us = t :: rest ∧ s = ⟨rest, false⟩ := by
  cases us with
  | nil => cases h
  | cons u rest =>
    unfold pop at h
    dsimp only at h
    split at h
    · next heq =>
      cases h
      exact ⟨rest, congrArg (· :: rest) heq.symm, rfl⟩
    · cases h

theorem popAll_closed (h : (⟨us, false⟩ : StackType).popAll ts = some s) :
    ∃ rest, us = ts.reverse ++ rest ∧ s = ⟨rest, false⟩ := by
  induction ts generalizing us s with
  | nil =>
    cases h
    exact ⟨us, rfl, rfl⟩
  | cons t ts ih =>
    obtain ⟨s', hs', hpop⟩ := Option.bind_eq_some_iff.mp
      (h : (⟨us, false⟩ : StackType).popAll ts >>= pop t = some s)
    obtain ⟨_, rfl, rfl⟩ := ih hs'
    obtain ⟨rest, rfl, rfl⟩ := pop_closed hpop
    refine ⟨rest, ?_, rfl⟩
    rw [List.reverse_cons, List.append_assoc]
    rfl

theorem isExactly_closed (hclosed : s.isOpen = false) (h : s.isExactly ts = true) :
    s.lanes = ts.reverse := by
  obtain ⟨us, isOpen⟩ := s
  cases hclosed
  unfold isExactly at h
  cases hpop : (⟨us, false⟩ : StackType).popAll ts with
  | none =>
    rw [hpop] at h
    cases h
  | some s' =>
    rw [hpop] at h
    obtain ⟨rest, rfl, rfl⟩ := popAll_closed hpop
    have hrest : rest = [] := List.isEmpty_iff.mp h
    rw [hrest, List.append_nil]

end StackType

namespace Typing

open StackType

variable {c : TypingContext} {labels : List (Option LaneType)} {us : List LaneType}
  {s st : StackType} {body : List Instr}

theorem leaves_some {results : List LaneType} {o : Option StackType}
    (h : leaves results o = true) : ∃ s, o = some s ∧ s.isExactly results = true := by
  cases o with
  | none => cases h
  | some s => exact ⟨s, rfl, h⟩

theorem instr_call_eq_some {f : Nat} (h : instr c labels ⟨us, false⟩ (.call f) = some st) :
    ∃ type rest, c.functions f = some type ∧ us = type.params.reverse ++ rest ∧
      st = ⟨type.results.reverse ++ rest, false⟩ := by
  rw [instr_call] at h
  obtain ⟨type, htype, h⟩ := Option.bind_eq_some_iff.mp h
  obtain ⟨st', hpop, h⟩ := Option.bind_eq_some_iff.mp h
  cases h
  obtain ⟨rest, rfl, rfl⟩ := popAll_closed hpop
  exact ⟨type, rest, htype, rfl, pushAll_eq _ _⟩

theorem instr_numeric_eq_some {op : Numeric}
    (h : instr c labels ⟨us, false⟩ (.numeric op) = some st) :
    ∃ rest, us = op.type.1.reverse ++ rest ∧ st = ⟨op.type.2 :: rest, false⟩ := by
  rw [instr_numeric] at h
  obtain ⟨st', hpop, h⟩ := Option.bind_eq_some_iff.mp h
  cases h
  obtain ⟨rest, rfl, rfl⟩ := popAll_closed hpop
  exact ⟨rest, rfl, rfl⟩

theorem instr_when_eq_some (h : instr c labels s (.when body) = some st) :
    s.pop .i32 = some st ∧
      ∃ st', instrs c (none :: labels) ⟨[], false⟩ body = some st' ∧ st'.isExactly [] = true := by
  rw [instr_when] at h
  obtain ⟨st', hpop, h⟩ := Option.bind_eq_some_iff.mp h
  obtain ⟨hleaves, ⟨⟩⟩ := Option.ite_none_right_eq_some.mp h
  exact ⟨hpop, leaves_some hleaves⟩

theorem instr_ifElse_eq_some {result : Option LaneType} {a b : List Instr}
    (h : instr c labels s (.ifElse result a b) = some st) :
    ∃ st', s.pop .i32 = some st' ∧ st = st'.pushAll result.toList ∧ ∀ code ∈ [a, b], ∃ st₁,
      instrs c (result :: labels) ⟨[], false⟩ code = some st₁ ∧
        st₁.isExactly result.toList = true := by
  rw [instr_ifElse] at h
  obtain ⟨st', hpop, h⟩ := Option.bind_eq_some_iff.mp h
  obtain ⟨hleaves, ⟨⟩⟩ := Option.ite_none_right_eq_some.mp h
  obtain ⟨ha, hb⟩ := Bool.and_eq_true_iff.mp hleaves
  refine ⟨st', hpop, rfl, fun code hcode => ?_⟩
  obtain rfl | rfl := List.mem_pair.mp hcode
  · exact leaves_some ha
  · exact leaves_some hb

theorem instr_block_eq_some (h : instr c labels s (.block body) = some st) :
    s = st ∧
      ∃ st', instrs c (none :: labels) ⟨[], false⟩ body = some st' ∧ st'.isExactly [] = true := by
  rw [instr_block] at h
  obtain ⟨hleaves, ⟨⟩⟩ := Option.ite_none_right_eq_some.mp h
  exact ⟨rfl, leaves_some hleaves⟩

theorem instr_loop_eq_some (h : instr c labels s (.loop body) = some st) :
    s = st ∧
      ∃ st', instrs c (none :: labels) ⟨[], false⟩ body = some st' ∧ st'.isExactly [] = true := by
  rw [instr_loop] at h
  obtain ⟨hleaves, ⟨⟩⟩ := Option.ite_none_right_eq_some.mp h
  exact ⟨rfl, leaves_some hleaves⟩

theorem instr_br_eq_some {label : Nat} (h : instr c labels s (.br label) = some st) :
    labels[label]? = some none :=
  (Option.ite_none_right_eq_some.mp
    (h : (if labels[label]? = some none then some { lanes := [], isOpen := true } else none) =
      some st)).1

theorem instr_brIf_eq_some {label : Nat} (h : instr c labels s (.brIf label) = some st) :
    labels[label]? = some none ∧ s.pop .i32 = some st := by
  rw [instr_brIf] at h
  exact Option.ite_none_right_eq_some.mp h

end Typing

namespace Machine

variable {τ α β : Type} {c : TypingContext} {labels : List (Option LaneType)}

structure Typed (c : TypingContext) (t : Machine τ) : Prop where
  globals : ∀ i : Nat, (t.globals[i]?).map Lane.type = c.globals[i]?
  locals : ∀ i : Nat, (t.locals[i]?).map Lane.type = c.locals[i]?

/-- A run that is never stuck, and what it returns. -/
def Safe (c : TypingContext) (run : Exec τ α) (Q : α → Prop) : Prop :=
  ∀ t, Typed c t → match run t with
    | .ok a t' => Q a ∧ Typed c t'
    | .error trap _ => trap = .exhausted

variable {x : Exec τ α} {P Q : α → Prop}

theorem safe_pure {a : α} (h : Q a) : Safe c (pure a : Exec τ α) Q := fun _ ht => ⟨h, ht⟩

theorem safe_bind {f : α → Exec τ β} {R : β → Prop} (hx : Safe c x P)
    (hf : ∀ a, P a → Safe c (f a) R) : Safe c (x >>= f) R := by
  intro t ht
  have h := hx t ht
  show match EStateM.bind x f t with
    | .ok b t' => R b ∧ Typed c t'
    | .error trap _ => trap = .exhausted
  unfold EStateM.bind
  cases hrun : x t with
  | ok a t' =>
    rw [hrun] at h
    exact hf a h.1 t' h.2
  | error trap t' =>
    rw [hrun] at h
    exact h

theorem safe_get {f : Machine τ → Exec τ α} (h : ∀ t, Typed c t → Safe c (f t) Q) :
    Safe c (get >>= f) Q :=
  fun t ht => h t ht t ht

theorem safe_orStuck {a : α} {o : Option α} (ho : o = some a) (h : Q a) :
    Safe c (orStuck o : Exec τ α) Q := by
  subst ho
  exact safe_pure h

theorem type_setIfInBounds {lanes : Array Lane} {types : List LaneType}
    (h : ∀ i : Nat, (lanes[i]?).map Lane.type = types[i]?) {i : Nat} {lane : Lane}
    (hlane : types[i]? = some lane.type) :
    ∀ j : Nat, ((lanes.setIfInBounds i lane)[j]?).map Lane.type = types[j]? := by
  intro j
  by_cases hij : i = j
  · subst hij
    have hlt : i < lanes.size := by
      refine Nat.lt_of_not_le fun hge => ?_
      have hi := h i
      rw [Array.getElem?_eq_none hge, hlane] at hi
      cases hi
    rw [Array.getElem?_setIfInBounds_self_of_lt hlt]
    exact hlane.symm
  · rw [Array.getElem?_setIfInBounds_ne hij]
    exact h j

theorem safe_setLocal {i : Nat} {lane : Lane} (h : c.locals[i]? = some lane.type) :
    Safe (τ := τ) c (setLocal i lane) fun _ => True :=
  fun _ ht => ⟨trivial, ht.globals, type_setIfInBounds ht.locals h⟩

theorem safe_setGlobal {i : Nat} {lane : Lane} (h : c.globals[i]? = some lane.type) :
    Safe (τ := τ) c (setGlobal i lane) fun _ => True :=
  fun _ ht => ⟨trivial, type_setIfInBounds ht.globals h, ht.locals⟩

theorem eq_i32 {lane : Lane} (h : lane.type = .i32) : ∃ n, lane = .i32 n := by
  cases lane with
  | i32 n => exact ⟨n, rfl⟩
  | f32 x => cases h

theorem eq_f32 {lane : Lane} (h : lane.type = .f32) : ∃ x, lane = .f32 x := by
  cases lane with
  | i32 n => cases h
  | f32 x => exact ⟨x, rfl⟩

theorem apply_typed (op : Numeric) {s : List Lane} {rest : List LaneType}
    (h : s.map Lane.type = op.type.1.reverse ++ rest) :
    ∃ s', op.apply s = some s' ∧ s'.map Lane.type = op.type.2 :: rest := by
  cases op with
  | i32Eqz | f32ConvertI32U =>
    obtain ⟨a, s, rfl, ha, rfl⟩ := List.map_eq_cons_iff.mp h
    obtain ⟨n, rfl⟩ := eq_i32 ha
    exact ⟨_, rfl, rfl⟩
  | f32Abs | f32Neg | f32Ceil | f32Floor | f32Nearest | i32TruncSatF32S =>
    obtain ⟨a, s, rfl, ha, rfl⟩ := List.map_eq_cons_iff.mp h
    obtain ⟨x, rfl⟩ := eq_f32 ha
    exact ⟨_, rfl, rfl⟩
  | i32Eq | i32Ne | i32GeU | i32Add =>
    obtain ⟨b, s, rfl, hb, h⟩ := List.map_eq_cons_iff.mp h
    obtain ⟨a, s, rfl, ha, rfl⟩ := List.map_eq_cons_iff.mp h
    obtain ⟨n, rfl⟩ := eq_i32 hb
    obtain ⟨m, rfl⟩ := eq_i32 ha
    exact ⟨_, rfl, rfl⟩
  | f32Lt | f32Gt | f32Add | f32Sub | f32Mul | f32Div =>
    obtain ⟨b, s, rfl, hb, h⟩ := List.map_eq_cons_iff.mp h
    obtain ⟨a, s, rfl, ha, rfl⟩ := List.map_eq_cons_iff.mp h
    obtain ⟨x, rfl⟩ := eq_f32 hb
    obtain ⟨y, rfl⟩ := eq_f32 ha
    exact ⟨_, rfl, rfl⟩

/-! ## Code -/

def Ends (labels : List (Option LaneType)) (s : StackType) : Outcome → Prop
  | .next stack => stack.map Lane.type = s.lanes ∧ s.isOpen = false
  | .jump label => labels[label]? = some none

theorem ends_leave {result : Option LaneType} {s : StackType} {stack : List Lane}
    (hleaves : s.isExactly result.toList = true) {outcome : Outcome}
    (h : Ends (result :: labels) s outcome) :
    Ends labels (StackType.pushAll result.toList ⟨stack.map Lane.type, false⟩)
      (leave stack outcome) := by
  rw [StackType.pushAll_eq]
  cases outcome with
  | next top =>
    obtain ⟨htop, hclosed⟩ := h
    refine ⟨?_, rfl⟩
    rw [List.map_append, htop, StackType.isExactly_closed hclosed hleaves]
  | jump label =>
    cases label with
    | succ label => exact h
    | zero =>
      cases result with
      | none => exact ⟨rfl, rfl⟩
      | some t => cases h

theorem safe_iterate {body : Exec τ Outcome} {s : StackType}
    (hbody : Safe c body (Ends (none :: labels) s)) (hleaves : s.isExactly [] = true) :
    ∀ bound, Safe c (iterate body bound) (Ends labels ⟨[], false⟩)
  | 0 => fun _ _ => rfl
  | bound + 1 => by
    refine safe_bind hbody fun outcome h => ?_
    cases outcome with
    | next stack =>
      obtain ⟨hstack, hclosed⟩ := h
      refine safe_pure ⟨?_, rfl⟩
      rw [hstack, StackType.isExactly_closed hclosed hleaves]
      rfl
    | jump label =>
      cases label with
      | zero => exact safe_iterate hbody hleaves bound
      | succ label => exact safe_pure h

def SafeCalls (c : TypingContext) (call : Nat → List Lane → Exec τ (List Lane)) : Prop :=
  ∀ f type, c.functions f = some type → ∀ s rest,
    s.map Lane.type = type.params.reverse ++ rest →
    Safe c (call f s) fun s' => s'.map Lane.type = type.results.reverse ++ rest

variable {call : Nat → List Lane → Exec τ (List Lane)}

theorem safe_next {s : List Lane} {st : StackType} (h : s.map Lane.type = st.lanes)
    (hclosed : st.isOpen = false) : Safe (τ := τ) c (pure (.next s)) (Ends labels st) :=
  safe_pure ⟨h, hclosed⟩

/-- A body that runs on a stack of its own. -/
theorem safe_body {result : Option LaneType} {body : Exec τ Outcome} {st : StackType}
    (hbody : Safe c body (Ends (result :: labels) st)) (hleaves : st.isExactly result.toList = true)
    (s : List Lane) :
    Safe c (do return leave s (← body))
      (Ends labels (StackType.pushAll result.toList ⟨s.map Lane.type, false⟩)) :=
  safe_bind hbody fun _ h => safe_pure (ends_leave hleaves h)

/-- Where the condition of an instruction is on the stack. -/
theorem pop_i32 {s : List Lane} {st : StackType}
    (h : (⟨s.map Lane.type, false⟩ : StackType).pop .i32 = some st) :
    ∃ n rest, s = .i32 n :: rest ∧ st = ⟨rest.map Lane.type, false⟩ := by
  obtain ⟨types, hs, rfl⟩ := StackType.pop_closed h
  obtain ⟨lane, rest, rfl, hlane, rfl⟩ := List.map_eq_cons_iff.mp hs
  obtain ⟨n, rfl⟩ := eq_i32 hlane
  exact ⟨n, rest, rfl, rfl⟩

mutual

theorem safe_instr (hcall : SafeCalls c call) : ∀ {labels : List (Option LaneType)} {i : Instr}
    {s : List Lane} {st : StackType},
    Typing.instr c labels ⟨s.map Lane.type, false⟩ i = some st →
    Safe c (instr call i s) (Ends labels st)
  | _, .const lane, s, st, h => by
    cases h
    exact safe_next rfl rfl
  | _, .localGet i, s, st, h => by
    obtain ⟨t, ht, rfl⟩ := Option.map_eq_some_iff.mp h
    refine safe_get fun m hm => ?_
    have hlocal := hm.locals i
    rw [ht] at hlocal
    obtain ⟨lane, hlane, rfl⟩ := Option.map_eq_some_iff.mp hlocal
    exact safe_bind (safe_orStuck hlane (Q := (· = lane)) rfl) fun _ h => h ▸ safe_next rfl rfl
  | _, .globalGet i, s, st, h => by
    obtain ⟨t, ht, rfl⟩ := Option.map_eq_some_iff.mp h
    refine safe_get fun m hm => ?_
    have hglobal := hm.globals i
    rw [ht] at hglobal
    obtain ⟨lane, hlane, rfl⟩ := Option.map_eq_some_iff.mp hglobal
    exact safe_bind (safe_orStuck hlane (Q := (· = lane)) rfl) fun _ h => h ▸ safe_next rfl rfl
  | _, .localSet i, s, st, h => by
    obtain ⟨t, ht, hpop⟩ := Option.bind_eq_some_iff.mp h
    obtain ⟨types, hs, rfl⟩ := StackType.pop_closed hpop
    obtain ⟨lane, rest, rfl, rfl, rfl⟩ := List.map_eq_cons_iff.mp hs
    exact safe_bind (safe_setLocal ht) fun _ _ => safe_next rfl rfl
  | _, .globalSet i, s, st, h => by
    obtain ⟨t, ht, hpop⟩ := Option.bind_eq_some_iff.mp h
    obtain ⟨types, hs, rfl⟩ := StackType.pop_closed hpop
    obtain ⟨lane, rest, rfl, rfl, rfl⟩ := List.map_eq_cons_iff.mp hs
    exact safe_bind (safe_setGlobal ht) fun _ _ => safe_next rfl rfl
  | _, .call f, s, st, h => by
    obtain ⟨type, rest, htype, hs, rfl⟩ := Typing.instr_call_eq_some h
    exact safe_bind (hcall f type htype s rest hs) fun s' hs' => safe_next hs' rfl
  | _, .numeric op, s, st, h => by
    obtain ⟨rest, hs, rfl⟩ := Typing.instr_numeric_eq_some h
    obtain ⟨s', happly, hs'⟩ := apply_typed op hs
    exact safe_bind (safe_orStuck happly (Q := (· = s')) rfl) fun _ h => h ▸ safe_next hs' rfl
  | labels, .when body, s, st, h => by
    obtain ⟨hpop, st', hbody, hexactly⟩ := Typing.instr_when_eq_some h
    obtain ⟨n, rest, rfl, rfl⟩ := pop_i32 hpop
    show Safe c (if n != 0 then _ else _) _
    split
    · exact safe_body (safe_instrs hcall (s := []) hbody) hexactly rest
    · exact safe_next rfl rfl
  | labels, .ifElse result a b, s, st, h => by
    obtain ⟨st', hpop, rfl, hbodies⟩ := Typing.instr_ifElse_eq_some h
    obtain ⟨n, rest, rfl, rfl⟩ := pop_i32 hpop
    obtain ⟨sta, ha, hexactly⟩ := hbodies a (List.mem_pair.mpr (.inl rfl))
    obtain ⟨stb, hb, hexactly'⟩ := hbodies b (List.mem_pair.mpr (.inr rfl))
    show Safe c (if n != 0 then _ else _) _
    split
    · exact safe_body (safe_instrs hcall (s := []) ha) hexactly rest
    · exact safe_body (safe_instrs hcall (s := []) hb) hexactly' rest
  | labels, .block body, s, st, h => by
    obtain ⟨rfl, st', hbody, hexactly⟩ := Typing.instr_block_eq_some h
    exact safe_body (safe_instrs hcall (s := []) hbody) hexactly s
  | labels, .loop body, s, st, h => by
    obtain ⟨rfl, st', hbody, hexactly⟩ := Typing.instr_loop_eq_some h
    refine safe_bind (safe_iterate (safe_instrs hcall (s := []) hbody) hexactly loopBound)
      fun outcome houtcome => ?_
    cases outcome with
    | next stack =>
      refine safe_next ?_ rfl
      rw [List.map_append, houtcome.1]
      rfl
    | jump label => exact safe_pure houtcome
  | labels, .br label, s, st, h => safe_pure (Typing.instr_br_eq_some h)
  | labels, .brIf label, s, st, h => by
    obtain ⟨hlabel, hpop⟩ := Typing.instr_brIf_eq_some h
    obtain ⟨n, rest, rfl, rfl⟩ := pop_i32 hpop
    show Safe c (pure (if n != 0 then _ else _)) _
    split
    · exact safe_pure hlabel
    · exact safe_next rfl rfl

theorem safe_instrs (hcall : SafeCalls c call) : ∀ {labels : List (Option LaneType)}
    {code : List Instr} {s : List Lane} {st : StackType},
    Typing.instrs c labels ⟨s.map Lane.type, false⟩ code = some st →
    Safe c (instrs call code s) (Ends labels st)
  | _, [], s, st, h => by
    cases h
    exact safe_next rfl rfl
  | labels, i :: rest, s, st, h => by
    rw [Typing.instrs_cons] at h
    obtain ⟨st₁, hi, hrest⟩ := Option.bind_eq_some_iff.mp h
    refine safe_bind (safe_instr hcall hi) fun outcome houtcome => ?_
    cases outcome with
    | next s₁ =>
      obtain ⟨hs₁, hclosed⟩ := houtcome
      obtain ⟨lanes, isOpen⟩ := st₁
      cases hclosed
      cases hs₁
      exact safe_instrs hcall hrest
    | jump label => exact safe_pure houtcome

end

theorem safe_arguments {params rest : List LaneType} {s : List Lane}
    (h : s.map Lane.type = params.reverse ++ rest) :
    Safe (τ := τ) c (arguments params.length s) fun r =>
      r.1.map Lane.type = params ∧ r.2.map Lane.type = rest := by
  have hlen : params.length ≤ s.length := by
    have hlength := congrArg List.length h
    rw [List.length_map, List.length_append, List.length_reverse] at hlength
    omega
  unfold arguments
  rw [if_neg (Nat.not_lt_of_le hlen)]
  refine safe_pure ⟨?_, ?_⟩
  · rw [List.map_reverse, List.map_take, h, ← List.length_reverse, List.take_left,
      List.reverse_reverse]
  · rw [List.map_drop, h, ← List.length_reverse, List.drop_left]

def SafeHost (m : Module) (host : Host τ) : Prop :=
  ∀ (f : Nat) (i : ImportedFunction), m.imports[f]? = some i → ∀ lanes state,
    lanes.map Lane.type = i.type.params → (host f lanes state).1.map Lane.type = i.type.results

theorem safe_callHost {host : Host τ} {f : Nat} {lanes : List Lane} {results : List LaneType}
    (h : ∀ state, (host f lanes state).1.map Lane.type = results) :
    Safe c (callHost host f lanes) fun outs => outs.map Lane.type = results :=
  fun t ht => ⟨h t.host, ht.globals, ht.locals⟩

def bodyContext (m : Module) (f : Function) : TypingContext :=
  { locals := f.type.params ++ f.locals, globals := m.globals.map Lane.type
    functions := m.functionType? }

variable {m : Module} {fn : Function}

/-- A well-typed body has locals of its own and leaves its results. -/
theorem safe_callBody {lanes : List Lane} (hglobals : c.globals = m.globals.map Lane.type)
    (hvalid : Typing.function m fn = true) (hcall : SafeCalls (bodyContext m fn) call)
    (hlanes : lanes.map Lane.type = fn.type.params) :
    Safe c (callBody (instrs call fn.body []) (lanes ++ fn.locals.map LaneType.zero).toArray)
      fun outs => outs.map Lane.type = fn.type.results.reverse := by
  obtain ⟨st, hst, hexactly⟩ := Typing.leaves_some hvalid
  have hbody := safe_instrs (c := bodyContext m fn) (s := []) hcall hst
  intro t ht
  have hlocals : Typed (bodyContext m fn)
      { t with locals := (lanes ++ fn.locals.map LaneType.zero).toArray } := by
    refine ⟨fun i => (ht.globals i).trans (congrArg (·[i]?) hglobals), fun i => ?_⟩
    have hzero : Lane.type ∘ LaneType.zero = fun t => t := funext zero_type
    rw [List.getElem?_toArray, ← List.getElem?_map, List.map_append, List.map_map, hlanes, hzero,
      List.map_id']
    rfl
  have hrun := hbody _ hlocals
  rw [callBody_apply]
  cases hresult : instrs call fn.body []
      { t with locals := (lanes ++ fn.locals.map LaneType.zero).toArray } with
  | error trap t' =>
    rw [hresult] at hrun
    exact hrun
  | ok outcome t' =>
    rw [hresult] at hrun
    obtain ⟨hends, ht'⟩ := hrun
    cases outcome with
    | jump label => cases hends
    | next outs =>
      obtain ⟨houts, hclosed⟩ := hends
      refine ⟨houts.trans (StackType.isExactly_closed hclosed hexactly), fun i => ?_, ht.locals⟩
      exact (ht'.globals i).trans (congrArg (·[i]?) hglobals.symm)

theorem safe_enter {host : Host τ} (hvalid : m.isValid = true) (hhost : SafeHost m host)
    (hcall : ∀ c : TypingContext, c.globals = m.globals.map Lane.type →
      c.functions = m.functionType? → SafeCalls c call)
    (hglobals : c.globals = m.globals.map Lane.type) (hfunctions : c.functions = m.functionType?) :
    SafeCalls c (enter m host call) := by
  intro f type htype s rest hs
  rw [hfunctions] at htype
  unfold Module.functionType? at htype
  unfold enter
  cases himport : m.imports[f]? with
  | some i =>
    rw [himport] at htype
    cases htype
    refine safe_bind (safe_arguments hs) fun r hr => ?_
    refine safe_bind (safe_callHost fun state => hhost f i himport r.1 state hr.1)
      fun outs houts => ?_
    refine safe_pure ?_
    rw [List.map_append, List.map_reverse, houts, hr.2]
  | none =>
    rw [himport] at htype
    obtain ⟨fn, hfn, rfl⟩ := Option.map_eq_some_iff.mp htype
    have hfunction : Typing.function m fn = true :=
      Array.all_eq_true_iff_forall_mem.mp hvalid fn (Array.mem_of_getElem? hfn)
    refine safe_bind (safe_orStuck hfn (Q := (· = fn)) rfl) fun fn' hfn' => ?_
    subst hfn'
    refine safe_bind (safe_arguments hs) fun r hr => ?_
    refine safe_bind (safe_callBody hglobals hfunction (hcall _ rfl rfl) hr.1) fun outs houts => ?_
    refine safe_pure ?_
    rw [List.map_append, houts, hr.2]

/-- A valid module is never stuck. -/
theorem safe_invoke {host : Host τ} (hvalid : m.isValid = true) (hhost : SafeHost m host) :
    ∀ (depth : Nat) (c : TypingContext), c.globals = m.globals.map Lane.type →
      c.functions = m.functionType? → SafeCalls c (invoke m host depth)
  | 0, _, _, _ => fun _ _ _ _ _ _ _ _ => rfl
  | depth + 1, _, hglobals, hfunctions =>
    safe_enter hvalid hhost (safe_invoke hvalid hhost depth) hglobals hfunctions

end Machine
end Wasm
end SignalGraph
