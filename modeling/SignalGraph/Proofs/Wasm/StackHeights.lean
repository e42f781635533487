import SignalGraph.Proofs.Wasm.WellTypedRuns

/-!
# Stack heights

Whatever the machine holds, well-typed code that comes to its end has left as many lanes as its type
says, and what lies below them stays there.
-/

namespace SignalGraph
namespace Wasm
namespace Machine

variable {τ α β : Type} {c : TypingContext} {labels : List (Option LaneType)}
  {call : Nat → List Lane → Exec τ (List Lane)}

def Returns (run : Exec τ α) (Q : α → Prop) : Prop := ∀ t a t', run t = .ok a t' → Q a

variable {x : Exec τ α} {P Q : α → Prop}

theorem returns_pure {a : α} (h : Q a) : Returns (pure a : Exec τ α) Q := fun _ _ _ heq => by
  cases heq
  exact h

theorem returns_throw {trap : Trap} : Returns (throw trap : Exec τ α) Q := fun _ _ _ heq => by
  cases heq

theorem returns_bind {f : α → Exec τ β} {R : β → Prop} (hx : Returns x P)
    (hf : ∀ a, P a → Returns (f a) R) : Returns (x >>= f) R := by
  intro t b t' heq
  replace heq : EStateM.bind x f t = .ok b t' := heq
  unfold EStateM.bind at heq
  cases hrun : x t with
  | ok a t₁ =>
    rw [hrun] at heq
    exact hf a (hx t a t₁ hrun) t₁ b t' heq
  | error trap t₁ =>
    rw [hrun] at heq
    cases heq

theorem returns_any : Returns x fun _ => True := fun _ _ _ _ => trivial

theorem returns_get {f : Machine τ → Exec τ α} (h : ∀ t, Returns (f t) Q) : Returns (get >>= f) Q :=
  fun t a t' heq => h t t a t' heq

theorem returns_orStuck {o : Option α} (h : ∀ a, o = some a → Q a) :
    Returns (orStuck o : Exec τ α) Q := by
  cases o with
  | none => exact returns_throw
  | some a => exact returns_pure (h a rfl)

/-! ## Stacks -/

def Piled (below : List Lane) (height : Nat) (s : List Lane) : Prop :=
  ∃ top, s = top ++ below ∧ top.length = height

variable {below s : List Lane} {height more : Nat}

theorem piled_nil (s : List Lane) : Piled s 0 s := ⟨[], rfl, rfl⟩

theorem Piled.cons (h : Piled below height s) (lane : Lane) :
    Piled below (height + 1) (lane :: s) := by
  obtain ⟨top, rfl, rfl⟩ := h
  exact ⟨lane :: top, rfl, rfl⟩

theorem Piled.pop (h : Piled below (height + 1) s) :
    ∃ lane rest, s = lane :: rest ∧ Piled below height rest := by
  obtain ⟨top, rfl, hlen⟩ := h
  cases top with
  | nil => cases hlen
  | cons lane top => exact ⟨lane, top ++ below, rfl, top, rfl, Nat.succ.inj hlen⟩

theorem Piled.append {mid : List Lane} (h : Piled mid more s) (hmid : Piled below height mid) :
    Piled below (more + height) s := by
  obtain ⟨top, rfl, rfl⟩ := h
  obtain ⟨top', rfl, rfl⟩ := hmid
  exact ⟨top ++ top', (List.append_assoc _ _ _).symm, List.length_append⟩

theorem Piled.split (h : Piled below (more + height) s) :
    ∃ mid, Piled mid more s ∧ Piled below height mid := by
  obtain ⟨top, rfl, hlen⟩ := h
  have htake : (top.take more).length = more := by
    rw [List.length_take]
    omega
  have hdrop : (top.drop more).length = height := by
    rw [List.length_drop]
    omega
  refine ⟨top.drop more ++ below, ⟨top.take more, ?_, htake⟩, top.drop more, rfl, hdrop⟩
  rw [← List.append_assoc, List.take_append_drop]

/-- The lanes that a function takes begin with the one that lies right below the others. -/
theorem Piled.lanes {lane : Lane} (h : Piled (lane :: below) height s) {lanes rest : List Lane}
    (heq : s = lanes.reverse ++ rest) (hlen : lanes.length = height + 1) :
    ∃ more, lanes = lane :: more ∧ more.length = height := by
  obtain ⟨top, rfl, rfl⟩ := h
  have htop : (top ++ [lane]).length = lanes.reverse.length := by
    rw [List.length_append, List.length_reverse, hlen]
    rfl
  rw [← List.singleton_append, ← List.append_assoc] at heq
  have hlanes := List.reverse_eq_iff.mp (List.append_inj heq htop).1.symm
  rw [List.reverse_append] at hlanes
  exact ⟨top.reverse, hlanes, List.length_reverse⟩

/-- An instruction that only computes takes its operands and leaves one lane. -/
theorem piled_apply {op : Numeric} {s' : List Lane} (h : op.apply s = some s') :
    ∃ lane rest, s' = lane :: rest ∧ Piled rest op.type.1.length s := by
  cases op with
  | i32Eqz | f32ConvertI32U =>
    rcases s with _ | ⟨_ | _, rest⟩ <;> cases h
    exact ⟨_, rest, rfl, [_], rfl, rfl⟩
  | f32Abs | f32Neg | f32Ceil | f32Floor | f32Nearest | i32TruncSatF32S =>
    rcases s with _ | ⟨_ | _, rest⟩ <;> cases h
    exact ⟨_, rest, rfl, [_], rfl, rfl⟩
  | i32Eq | i32Ne | i32GeU | i32Add =>
    rcases s with _ | ⟨_ | _, _ | ⟨_ | _, rest⟩⟩ <;> cases h
    exact ⟨_, rest, rfl, [_, _], rfl, rfl⟩
  | f32Lt | f32Gt | f32Add | f32Sub | f32Mul | f32Div =>
    rcases s with _ | ⟨_ | _, _ | ⟨_ | _, rest⟩⟩ <;> cases h
    exact ⟨_, rest, rfl, [_, _], rfl, rfl⟩

theorem returns_apply {op : Numeric} (hs : Piled below (op.type.1.length + height) s) :
    Returns (τ := τ) (orStuck (op.apply s)) (Piled below (height + 1)) := by
  refine returns_orStuck fun s' happly => ?_
  obtain ⟨lane, rest, rfl, top, rfl, htop⟩ := piled_apply happly
  obtain ⟨mid, ⟨top', heq, htop'⟩, hmid⟩ := hs.split
  obtain ⟨-, rfl⟩ := List.append_inj heq (htop.trans htop'.symm)
  exact hmid.cons lane

def Rises (labels : List (Option LaneType)) (below : List Lane) (st : StackType) : Outcome → Prop
  | .next s => Piled below st.lanes.length s ∧ st.isOpen = false
  | .jump label => labels[label]? = some none

/-- Functions take and leave as many lanes as their types say. -/
def Heights (functions : Nat → Option FunctionType)
    (call : Nat → List Lane → Exec τ (List Lane)) : Prop :=
  ∀ f type, functions f = some type → ∀ below s, Piled below type.params.length s →
    Returns (call f s) (Piled below type.results.length)

theorem rises_leave {result : Option LaneType} {st : StackType} {lanes : List LaneType}
    (hleaves : st.isExactly result.toList = true) {outcome : Outcome}
    (h : Rises (result :: labels) [] st outcome) (hs : Piled below lanes.length s) :
    Rises labels below (StackType.pushAll result.toList ⟨lanes, false⟩) (leave s outcome) := by
  rw [StackType.pushAll_eq]
  cases outcome with
  | next stack =>
    obtain ⟨⟨top, rfl, hlen⟩, hclosed⟩ := h
    rw [StackType.isExactly_closed hclosed hleaves] at hlen
    rw [List.append_nil]
    have hpiled := Piled.append ⟨top, rfl, hlen⟩ hs
    rw [← List.length_append] at hpiled
    exact ⟨hpiled, rfl⟩
  | jump label =>
    cases label with
    | succ label => exact h
    | zero =>
      cases result with
      | none => exact ⟨hs, rfl⟩
      | some t => cases h

theorem rises_body {result : Option LaneType} {body : Exec τ Outcome} {st : StackType}
    {lanes : List LaneType} (hbody : Returns body (Rises (result :: labels) [] st))
    (hleaves : st.isExactly result.toList = true) (hs : Piled below lanes.length s) :
    Returns (do return leave s (← body))
      (Rises labels below (StackType.pushAll result.toList ⟨lanes, false⟩)) :=
  returns_bind hbody fun _ h => returns_pure (rises_leave hleaves h hs)

theorem rises_iterate {body : Exec τ Outcome} {st : StackType}
    (hbody : Returns body (Rises (none :: labels) [] st)) (hleaves : st.isExactly [] = true) :
    ∀ bound, Returns (iterate body bound) (Rises labels [] ⟨[], false⟩)
  | 0 => returns_throw
  | bound + 1 => by
    refine returns_bind hbody fun outcome h => ?_
    cases outcome with
    | next stack =>
      obtain ⟨hstack, hclosed⟩ := h
      rw [StackType.isExactly_closed hclosed hleaves] at hstack
      exact returns_pure ⟨hstack, rfl⟩
    | jump label =>
      cases label with
      | zero => exact rises_iterate hbody hleaves bound
      | succ label => exact returns_pure h

theorem pop_piled {t : LaneType} {lanes : List LaneType} {st : StackType}
    (h : (⟨lanes, false⟩ : StackType).pop t = some st) (hs : Piled below lanes.length s) :
    ∃ lane rest types, s = lane :: rest ∧ Piled below types.length rest ∧ st = ⟨types, false⟩ := by
  obtain ⟨types, rfl, rfl⟩ := StackType.pop_closed h
  obtain ⟨lane, rest, rfl, hrest⟩ := hs.pop
  exact ⟨lane, rest, types, rfl, hrest, rfl⟩

theorem rises_next {st : StackType} (hs : Piled below st.lanes.length s)
    (hclosed : st.isOpen = false) :
    Returns (τ := τ) (pure (.next s)) (Rises labels below st) :=
  returns_pure ⟨hs, hclosed⟩

mutual

theorem rises_instr (hcall : Heights c.functions call) : ∀ {labels : List (Option LaneType)}
    {i : Instr} {lanes : List LaneType} {st : StackType} {below s : List Lane},
    Typing.instr c labels ⟨lanes, false⟩ i = some st → Piled below lanes.length s →
    Returns (instr call i s) (Rises labels below st)
  | _, .const lane, lanes, st, below, s, h, hs => by
    cases h
    exact rises_next (hs.cons lane) rfl
  | _, .localGet i, lanes, st, below, s, h, hs => by
    obtain ⟨t, -, rfl⟩ := Option.map_eq_some_iff.mp h
    exact returns_get fun _ => returns_bind returns_any fun lane _ => rises_next (hs.cons lane) rfl
  | _, .globalGet i, lanes, st, below, s, h, hs => by
    obtain ⟨t, -, rfl⟩ := Option.map_eq_some_iff.mp h
    exact returns_get fun _ => returns_bind returns_any fun lane _ => rises_next (hs.cons lane) rfl
  | _, .localSet i, lanes, st, below, s, h, hs => by
    obtain ⟨t, -, hpop⟩ := Option.bind_eq_some_iff.mp h
    obtain ⟨lane, rest, types, rfl, hrest, rfl⟩ := pop_piled hpop hs
    exact returns_bind returns_any fun _ _ => rises_next hrest rfl
  | _, .globalSet i, lanes, st, below, s, h, hs => by
    obtain ⟨t, -, hpop⟩ := Option.bind_eq_some_iff.mp h
    obtain ⟨lane, rest, types, rfl, hrest, rfl⟩ := pop_piled hpop hs
    exact returns_bind returns_any fun _ _ => rises_next hrest rfl
  | _, .call f, lanes, st, below, s, h, hs => by
    obtain ⟨type, types, htype, rfl, rfl⟩ := Typing.instr_call_eq_some h
    rw [List.length_append, List.length_reverse] at hs
    obtain ⟨mid, htop, hmid⟩ := hs.split
    refine returns_bind (hcall f type htype mid s htop) fun s' hs' => ?_
    have hpiled := hs'.append hmid
    rw [← List.length_reverse, ← List.length_append] at hpiled
    exact rises_next hpiled rfl
  | _, .numeric op, lanes, st, below, s, h, hs => by
    obtain ⟨types, rfl, rfl⟩ := Typing.instr_numeric_eq_some h
    rw [List.length_append, List.length_reverse] at hs
    exact returns_bind (returns_apply hs) fun s' hs' => rises_next hs' rfl
  | labels, .when body, lanes, st, below, s, h, hs => by
    obtain ⟨hpop, st', hbody, hexactly⟩ := Typing.instr_when_eq_some h
    obtain ⟨lane, rest, types, rfl, hrest, rfl⟩ := pop_piled hpop hs
    cases lane with
    | f32 x => exact returns_throw
    | i32 n =>
      show Returns (if n != 0 then _ else _) _
      split
      · exact rises_body (rises_instrs hcall hbody (piled_nil [])) hexactly hrest
      · exact rises_next hrest rfl
  | labels, .ifElse result a b, lanes, st, below, s, h, hs => by
    obtain ⟨st', hpop, rfl, hbodies⟩ := Typing.instr_ifElse_eq_some h
    obtain ⟨lane, rest, types, rfl, hrest, rfl⟩ := pop_piled hpop hs
    obtain ⟨sta, ha, hexactly⟩ := hbodies a (List.mem_pair.mpr (.inl rfl))
    obtain ⟨stb, hb, hexactly'⟩ := hbodies b (List.mem_pair.mpr (.inr rfl))
    cases lane with
    | f32 x => exact returns_throw
    | i32 n =>
      show Returns (if n != 0 then _ else _) _
      split
      · exact rises_body (rises_instrs hcall ha (piled_nil [])) hexactly hrest
      · exact rises_body (rises_instrs hcall hb (piled_nil [])) hexactly' hrest
  | labels, .block body, lanes, st, below, s, h, hs => by
    obtain ⟨rfl, st', hbody, hexactly⟩ := Typing.instr_block_eq_some h
    exact rises_body (rises_instrs hcall hbody (piled_nil [])) hexactly hs
  | labels, .loop body, lanes, st, below, s, h, hs => by
    obtain ⟨rfl, st', hbody, hexactly⟩ := Typing.instr_loop_eq_some h
    have hloop := rises_iterate (rises_instrs hcall hbody (piled_nil [])) hexactly loopBound
    refine returns_bind hloop fun outcome houtcome => ?_
    cases outcome with
    | next stack =>
      obtain ⟨⟨top, rfl, hlen⟩, -⟩ := houtcome
      rw [List.length_eq_zero_iff.mp hlen]
      exact rises_next hs rfl
    | jump label => exact returns_pure houtcome
  | labels, .br label, lanes, st, below, s, h, hs => returns_pure (Typing.instr_br_eq_some h)
  | labels, .brIf label, lanes, st, below, s, h, hs => by
    obtain ⟨hlabel, hpop⟩ := Typing.instr_brIf_eq_some h
    obtain ⟨lane, rest, types, rfl, hrest, rfl⟩ := pop_piled hpop hs
    cases lane with
    | f32 x => exact returns_throw
    | i32 n =>
      show Returns (pure (if n != 0 then _ else _)) _
      split
      · exact returns_pure hlabel
      · exact rises_next hrest rfl

theorem rises_instrs (hcall : Heights c.functions call) : ∀ {labels : List (Option LaneType)}
    {code : List Instr} {lanes : List LaneType} {st : StackType} {below s : List Lane},
    Typing.instrs c labels ⟨lanes, false⟩ code = some st → Piled below lanes.length s →
    Returns (instrs call code s) (Rises labels below st)
  | _, [], lanes, st, below, s, h, hs => by
    cases h
    exact rises_next hs rfl
  | labels, i :: rest, lanes, st, below, s, h, hs => by
    rw [Typing.instrs_cons] at h
    obtain ⟨st₁, hi, hrest⟩ := Option.bind_eq_some_iff.mp h
    refine returns_bind (rises_instr hcall hi hs) fun outcome houtcome => ?_
    cases outcome with
    | next s₁ =>
      obtain ⟨hs₁, hclosed⟩ := houtcome
      obtain ⟨types, isOpen⟩ := st₁
      cases hclosed
      exact rises_instrs hcall hrest hs₁
    | jump label => exact returns_pure houtcome

end

/-- Code that takes nothing piles its lanes on whatever is there. -/
theorem piled_of_types {code : List Instr} {outs : List LaneType}
    (hcall : Heights c.functions call) (h : Typing.Types c labels code [] outs) {t t' : Machine τ}
    {s s' : List Lane} (hrun : instrs call code s t = .ok (.next s') t') :
    Piled s outs.length s' := by
  have hst : Typing.instrs c labels ⟨[], false⟩ code = _ := h { lanes := [] }
  rw [StackType.pushAll_eq] at hst
  have hrises := (rises_instrs hcall hst (piled_nil s) t _ t' hrun).1
  rwa [List.append_nil, List.length_reverse] at hrises

/-- Code that leaves so many lanes on whatever is there. -/
def Piles (call : Nat → List Lane → Exec τ (List Lane)) (code : List Instr) (height : Nat) : Prop :=
  ∀ s, Returns (instrs call code s) fun outcome => ∀ s', outcome = .next s' → Piled s height s'

section

variable {a b : List Instr} {height more : Nat}

theorem piles_of_types {outs : List LaneType} (hcall : Heights c.functions call)
    (h : Typing.Types c labels a [] outs) : Piles call a outs.length := by
  rintro s t _ t' hrun s' rfl
  exact piled_of_types hcall h hrun

theorem piles_nil : Piles call [] 0 := fun s =>
  returns_pure fun s' heq => by
    cases heq
    exact piled_nil s

theorem returns_append {Q : Outcome → Prop} {s : List Lane} (ha : Piles call a height)
    (hb : ∀ s', Piled s height s' → Returns (instrs call b s') Q)
    (hjump : ∀ label, Q (.jump label)) :
    Returns (instrs call (a ++ b) s) Q := by
  rw [instrs_append_bind]
  refine returns_bind (ha s) fun outcome h => ?_
  cases outcome with
  | next s' => exact hb s' (h s' rfl)
  | jump label => exact returns_pure (hjump label)

theorem piles_append (ha : Piles call a height) (hb : Piles call b more) :
    Piles call (a ++ b) (more + height) := by
  refine fun s => returns_append ha (fun s₁ hs₁ t outcome t' hrun s' heq => ?_)
    fun _ _ heq => by cases heq
  exact (hb s₁ t outcome t' hrun s' heq).append hs₁

theorem piles_const (lane : Lane) : Piles call [.const lane] 1 := fun s =>
  returns_pure fun s' heq => by
    cases heq
    exact (piled_nil s).cons lane

theorem piles_localGet (i : Nat) : Piles call [.localGet i] 1 := by
  intro s
  rw [instrs_one]
  refine returns_get fun _ => returns_bind returns_any fun lane _ => returns_pure fun s' heq => ?_
  cases heq
  exact (piled_nil s).cons lane

theorem piles_localGets : ∀ is : List Nat, Piles call (is.map .localGet) is.length
  | [] => piles_nil
  | i :: is => piles_append (piles_localGet i) (piles_localGets is)

theorem piles_call {f : Nat} (ha : Piles call a height)
    (hcall : ∀ below s, Piled below height s → Returns (call f s) (Piled below more)) :
    Piles call (a ++ [.call f]) more := by
  refine fun s => returns_append ha (fun s₁ hs₁ => ?_) fun _ _ heq => by cases heq
  rw [instrs_one]
  refine returns_bind (hcall s s₁ hs₁) fun s₂ hs₂ => returns_pure fun s' heq => ?_
  cases heq
  exact hs₂

end

variable {m : Module}

def HostHeights (m : Module) (host : Host τ) : Prop :=
  ∀ (f : Nat) (i : ImportedFunction), m.imports[f]? = some i → ∀ lanes state,
    lanes.length = i.type.params.length → (host f lanes state).1.length = i.type.results.length

theorem returns_arguments {count : Nat} (hs : Piled below count s) :
    Returns (τ := τ) (arguments count s) fun r => r.1.length = count ∧ r.2 = below := by
  obtain ⟨top, rfl, rfl⟩ := hs
  unfold arguments
  split
  · exact returns_throw
  · refine returns_pure ⟨?_, List.drop_left⟩
    rw [List.take_left, List.length_reverse]

theorem returns_callBody {body : Exec τ Outcome} {Q : List Lane → Prop}
    (h : Returns body fun outcome => ∀ outs, outcome = .next outs → Q outs) (locals : Array Lane) :
    Returns (callBody body locals) Q := by
  refine returns_get fun _ => returns_bind returns_any fun _ _ =>
    returns_bind h fun outcome ho => ?_
  refine returns_bind returns_any fun _ _ => ?_
  cases outcome with
  | next outs => exact returns_pure (ho outs rfl)
  | jump label => exact returns_throw

theorem heights_enter {host : Host τ} (hvalid : m.isValid = true) (hhost : HostHeights m host)
    (hcall : Heights m.functionType? call) : Heights m.functionType? (enter m host call) := by
  intro f type htype below s hs
  unfold Module.functionType? at htype
  unfold enter
  cases himport : m.imports[f]? with
  | some i =>
    rw [himport] at htype
    cases htype
    refine returns_bind (returns_arguments hs) fun r hr => ?_
    have hresults : Returns (callHost host f r.1) fun outs => outs.length = i.type.results.length :=
      fun t outs t' heq => by
        cases heq
        exact hhost f i himport r.1 t.host hr.1
    refine returns_bind hresults fun outs houts => returns_pure ?_
    rw [hr.2]
    exact ⟨outs.reverse, rfl, List.length_reverse.trans houts⟩
  | none =>
    rw [himport] at htype
    obtain ⟨fn, hfn, rfl⟩ := Option.map_eq_some_iff.mp htype
    obtain ⟨st, hst, hexactly⟩ :=
      Typing.leaves_some (Array.all_eq_true_iff_forall_mem.mp hvalid fn (Array.mem_of_getElem? hfn))
    have hbody : Returns (instrs call fn.body []) fun outcome => ∀ outs, outcome = .next outs →
        outs.length = fn.type.results.length := by
      rintro t outcome t' hrun outs rfl
      obtain ⟨⟨top, rfl, hlen⟩, hclosed⟩ :=
        rises_instrs (c := bodyContext m fn) hcall hst (piled_nil []) t _ t' hrun
      rw [StackType.isExactly_closed hclosed hexactly, List.length_reverse] at hlen
      rwa [List.append_nil]
    refine returns_bind (P := (· = fn)) (returns_orStuck fun fn' hfn' => ?_) fun fn' hfn' => ?_
    · rw [hfn] at hfn'
      exact (Option.some.inj hfn').symm
    subst hfn'
    refine returns_bind (returns_arguments hs) fun r hr => ?_
    refine returns_bind (returns_callBody hbody _) fun outs houts => returns_pure ?_
    rw [hr.2]
    exact ⟨outs, rfl, houts⟩

/-- By induction on the depth. -/
theorem heights_invoke {host : Host τ} (hvalid : m.isValid = true) (hhost : HostHeights m host) :
    ∀ depth, Heights m.functionType? (invoke m host depth)
  | 0 => fun _ _ _ _ _ _ => returns_throw
  | depth + 1 => heights_enter hvalid hhost (heights_invoke hvalid hhost depth)

end Machine
end Wasm
end SignalGraph
