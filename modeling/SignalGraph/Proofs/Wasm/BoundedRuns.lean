import SignalGraph.Proofs.Wasm.CodeRuns
import SignalGraph.Proofs.Wasm.Confinement

/-!
# Bounded runs

Code whose loops count never takes too long, because each round brings the counter closer to the
count.
-/

namespace SignalGraph
namespace Wasm
namespace Machine

variable {τ α β : Type} {call : Nat → List Lane → Exec τ (List Lane)} {labels lo : Nat}

def KeepsLocals (call : Nat → List Lane → Exec τ (List Lane)) : Prop :=
  ∀ f s t outs t', call f s t = .ok outs t' → t'.locals = t.locals

/-- A run that leaves the locals below `lo` alone and branches to none but `labels` bodies. -/
def Spares (lo labels : Nat) (run : Exec τ Outcome) : Prop :=
  ∀ t outcome t', run t = .ok outcome t' →
    (∀ i < lo, t'.locals[i]? = t.locals[i]?) ∧ ∀ label, outcome = .jump label → label < labels

theorem bind_ok {x : Exec τ α} {f : α → Exec τ β} {t t' : Machine τ} {b : β}
    (h : (x >>= f) t = .ok b t') : ∃ a t₁, x t = .ok a t₁ ∧ f a t₁ = .ok b t' := by
  replace h : EStateM.bind x f t = .ok b t' := h
  unfold EStateM.bind at h
  cases hx : x t with
  | ok a t₁ =>
    rw [hx] at h
    exact ⟨a, t₁, rfl, h⟩
  | error trap t₁ =>
    rw [hx] at h
    cases h

theorem spares_bind {x : Exec τ Outcome} {labels' : Nat} {f : Outcome → Exec τ Outcome}
    (hx : Spares lo labels x)
    (hf : ∀ outcome, (∀ label, outcome = .jump label → label < labels) →
      Spares lo labels' (f outcome)) : Spares lo labels' (x >>= f) := by
  intro t outcome t' h
  obtain ⟨first, t₁, hfirst, hrest⟩ := bind_ok h
  obtain ⟨hlocals, hjump⟩ := hx t first t₁ hfirst
  obtain ⟨hlocals', hjump'⟩ := hf first hjump t₁ outcome t' hrest
  exact ⟨fun i hi => (hlocals' i hi).trans (hlocals i hi), hjump'⟩

theorem spares_pure {outcome : Outcome} (h : ∀ label, outcome = .jump label → label < labels) :
    Spares (τ := τ) lo labels (pure outcome) := by
  intro t outcome' t' heq
  cases heq
  exact ⟨fun _ _ => rfl, h⟩

theorem spares_next (s : List Lane) : Spares (τ := τ) lo labels (pure (.next s)) :=
  spares_pure fun _ heq => by cases heq

theorem spares_throw {trap : Trap} : Spares (τ := τ) lo labels (throw trap) := by
  intro t outcome t' heq
  cases heq

theorem spares_after {x : Exec τ α} {f : α → Exec τ Outcome}
    (hx : ∀ t a t', x t = .ok a t' → t'.locals = t.locals) (hf : ∀ a, Spares lo labels (f a)) :
    Spares lo labels (x >>= f) := by
  intro t outcome t' h
  obtain ⟨a, t₁, ha, hrest⟩ := bind_ok h
  have hspares := hf a t₁ outcome t' hrest
  rw [hx t a t₁ ha] at hspares
  exact hspares

theorem orStuck_keeps (o : Option α) (t : Machine τ) (a : α) (t' : Machine τ)
    (h : orStuck o t = .ok a t') : t'.locals = t.locals := by
  cases o with
  | none => cases h
  | some a =>
    cases h
    rfl

theorem spares_leave {outcome : Outcome} (s : List Lane)
    (h : ∀ label, outcome = .jump label → label < labels + 1) :
    Spares (τ := τ) lo labels (pure (leave s outcome)) := by
  refine spares_pure fun label heq => ?_
  rcases outcome with stack | _ | label'
  · cases heq
  · cases heq
  · cases heq
    exact Nat.lt_of_succ_lt_succ (h _ rfl)

theorem spares_iterate {body : Exec τ Outcome} (h : Spares lo (labels + 1) body) :
    ∀ bound, Spares lo labels (iterate body bound)
  | 0 => spares_throw
  | bound + 1 => by
    refine spares_bind h fun outcome hjump => ?_
    rcases outcome with stack | _ | label
    · exact spares_next stack
    · exact spares_iterate h bound
    · refine spares_pure fun label' heq => ?_
      cases heq
      exact Nat.lt_of_succ_lt_succ (hjump _ rfl)

mutual

theorem spares_instr (hcall : KeepsLocals call) : ∀ {labels : Nat} {i : Instr},
    i.Confined (sparing lo) labels → ∀ s, Spares lo labels (instr call i s)
  | _, .const lane, _, s => spares_next _
  | _, .localGet i, _, s => spares_after (fun t a t' h => by cases h; rfl) fun t =>
    spares_after (orStuck_keeps _) fun _ => spares_next _
  | _, .globalGet i, _, s => spares_after (fun t a t' h => by cases h; rfl) fun t =>
    spares_after (orStuck_keeps _) fun _ => spares_next _
  | _, .localSet i, _, [] => spares_throw
  | _, .localSet i, hlo, lane :: s => by
    intro t outcome t' heq
    cases heq
    refine ⟨fun j hj => Array.getElem?_setIfInBounds_ne ?_, fun _ heq => by cases heq⟩
    rintro rfl
    exact Nat.not_le_of_lt hj hlo
  | _, .globalSet i, _, [] => spares_throw
  | _, .globalSet i, _, lane :: s => by
    intro t outcome t' heq
    cases heq
    exact ⟨fun _ _ => rfl, fun _ heq => by cases heq⟩
  | _, .call f, _, s => spares_after (hcall f s) fun _ => spares_next _
  | _, .numeric op, _, s => spares_after (orStuck_keeps _) fun _ => spares_next _
  | _, .when body, hbody, s => by
    rcases s with _ | ⟨n | x, s⟩
    · exact spares_throw
    · show Spares _ _ (if n != 0 then _ else _)
      split
      · exact spares_bind (spares_instrs hcall hbody []) fun _ => spares_leave s
      · exact spares_next s
    · exact spares_throw
  | _, .ifElse r a b, hbody, s => by
    rcases s with _ | ⟨n | x, s⟩
    · exact spares_throw
    · show Spares _ _ (if n != 0 then _ else _)
      split
      · exact spares_bind (spares_instrs hcall hbody.1 []) fun _ => spares_leave s
      · exact spares_bind (spares_instrs hcall hbody.2 []) fun _ => spares_leave s
    · exact spares_throw
  | _, .block body, hbody, s => spares_bind (spares_instrs hcall hbody []) fun _ => spares_leave s
  | _, .loop body, hbody, s => by
    refine spares_bind (spares_iterate (spares_instrs hcall hbody.2 []) loopBound)
      fun outcome hjump => ?_
    cases outcome with
    | next stack => exact spares_next _
    | jump label => exact spares_pure hjump
  | _, .br label, hlt, s => spares_pure fun _ heq => by cases heq; exact hlt
  | _, .brIf label, hlt, s => by
    rcases s with _ | ⟨n | x, s⟩
    · exact spares_throw
    · show Spares _ _ (pure (if n != 0 then _ else _))
      split
      · exact spares_pure fun _ heq => by cases heq; exact hlt
      · exact spares_next s
    · exact spares_throw

theorem spares_instrs (hcall : KeepsLocals call) : ∀ {labels : Nat} {code : List Instr},
    confined (sparing lo) labels code → ∀ s, Spares lo labels (instrs call code s)
  | _, [], _, s => spares_next s
  | _, i :: rest, h, s => by
    refine spares_bind (spares_instr hcall h.1 s) fun outcome hjump => ?_
    cases outcome with
    | next s => exact spares_instrs hcall h.2 s
    | jump label => exact spares_pure hjump

end

/-! ## Rounds -/

/-- How far a local is from another one that it counts up to. -/
def remaining (k count : Nat) (t : Machine τ) : Nat :=
  match t.locals[k]?, t.locals[count]? with
  | some (.i32 a), some (.i32 b) => b.toUInt32.toNat - a.toUInt32.toNat
  | _, _ => 0

theorem remaining_lt (k count : Nat) (t : Machine τ) : remaining k count t < loopBound := by
  unfold remaining
  split
  · next a b _ _ =>
    have hlt := b.toUInt32.toNat_lt
    unfold loopBound
    omega
  · exact Nat.succ_pos _

theorem localGet_ok {i : Nat} {rest : List Instr} {s : List Lane} {t t' : Machine τ}
    {outcome : Outcome} (h : instrs call (.localGet i :: rest) s t = .ok outcome t') :
    ∃ lane, t.locals[i]? = some lane ∧ instrs call rest (lane :: s) t = .ok outcome t' := by
  rw [instrs_cons] at h
  obtain ⟨first, t₁, hfirst, hrest⟩ := bind_ok h
  obtain ⟨m, t₂, hget, hpush⟩ := bind_ok
    (hfirst : (get >>= fun m => orStuck m.locals[i]? >>= fun lane => push lane s) t = _)
  cases hget
  cases hlane : t.locals[i]? with
  | none =>
    rw [hlane] at hpush
    cases hpush
  | some lane =>
    rw [hlane] at hpush
    cases hpush
    exact ⟨lane, rfl, hrest⟩

theorem numeric_ok {op : Numeric} {rest : List Instr} {s : List Lane} {t t' : Machine τ}
    {outcome : Outcome} (h : instrs call (.numeric op :: rest) s t = .ok outcome t') :
    ∃ s', op.apply s = some s' ∧ instrs call rest s' t = .ok outcome t' := by
  rw [instrs_cons] at h
  obtain ⟨first, t₁, hfirst, hrest⟩ := bind_ok h
  replace hfirst : (orStuck (op.apply s) >>= fun s => pure (.next s)) t = .ok first t₁ := hfirst
  cases happly : op.apply s with
  | none =>
    rw [happly] at hfirst
    cases hfirst
  | some s' =>
    rw [happly] at hfirst
    cases hfirst
    exact ⟨s', rfl, hrest⟩

/-- A loop's test leaves the loop or goes on below the count. -/
theorem test_ok {k count : Nat} {t t' : Machine τ} {outcome : Outcome}
    (h : instrs call [.localGet k, .localGet count, .numeric .i32GeU, .brIf 1] [] t =
      .ok outcome t') :
    outcome = .jump 1 ∨ ∃ a b, outcome = .next [] ∧ t' = t ∧ t.locals[k]? = some (.i32 a) ∧
      t.locals[count]? = some (.i32 b) ∧ a.toUInt32.toNat < b.toUInt32.toNat := by
  obtain ⟨first, hk, h⟩ := localGet_ok h
  obtain ⟨second, hcount, h⟩ := localGet_ok h
  obtain ⟨s', happly, h⟩ := numeric_ok h
  cases second with
  | f32 y => cases happly
  | i32 b =>
    cases first with
    | f32 x => cases happly
    | i32 a =>
      cases happly
      by_cases hpast : b.toUInt32 ≤ a.toUInt32
      · rw [ofBool, decide_eq_true hpast] at h
        cases h
        exact .inl rfl
      · rw [ofBool, decide_eq_false hpast] at h
        cases h
        exact .inr ⟨a, b, rfl, rfl, hk, hcount, Nat.lt_of_not_le hpast⟩

theorem again_jump {k : Nat} {s : List Lane} {t t' : Machine τ}
    (h : instrs call [.localGet k, .const (.i32 1), .numeric .i32Add, .localSet k, .br 0] s t =
      .ok (.jump 0) t') {a : Int32} (hk : t.locals[k]? = some (.i32 a)) :
    t'.locals = t.locals.setIfInBounds k (.i32 (a + 1)) := by
  obtain ⟨lane, hlane, h⟩ := localGet_ok h
  rw [hk] at hlane
  cases hlane
  cases h
  rfl

theorem remaining_again (hcall : KeepsLocals call) {k count : Nat} {between : List Instr}
    (hcount : count < k) (hbetween : confined (sparing (k + 1)) 0 between) {t t' : Machine τ}
    (h : instrs call ([.localGet k, .localGet count, .numeric .i32GeU, .brIf 1] ++ between ++
      [.localGet k, .const (.i32 1), .numeric .i32Add, .localSet k, .br 0])
        [] t = .ok (.jump 0) t') :
    remaining k count t' < remaining k count t := by
  rw [List.append_assoc, instrs_append_bind] at h
  obtain ⟨first, t₁, htest, hrest⟩ := bind_ok h
  rcases test_ok htest with rfl | ⟨a, b, rfl, rfl, hk, hb, hlt⟩
  · cases hrest
  change instrs call (between ++ _) [] t₁ = _ at hrest
  rw [instrs_append_bind] at hrest
  obtain ⟨second, t₂, hrun, hagain⟩ := bind_ok hrest
  obtain ⟨hspared, hjump⟩ := spares_instrs hcall hbetween [] t₁ second t₂ hrun
  rcases second with s | label
  swap
  · exact absurd (hjump label rfl) (Nat.not_lt_zero label)
  have hk' := (hspared k (Nat.lt_succ_self k)).trans hk
  have hb' := (hspared count (Nat.lt_succ_of_lt hcount)).trans hb
  have hlocals := again_jump hagain hk'
  have hin := (Array.getElem?_eq_some_iff.mp hk').1
  have hnext : t'.locals[k]? = some (.i32 (a + 1)) := by
    rw [hlocals, Array.getElem?_setIfInBounds_self_of_lt hin]
  have hsame : t'.locals[count]? = some (.i32 b) := by
    rw [hlocals, Array.getElem?_setIfInBounds_ne (Nat.ne_of_gt hcount), hb']
  have hbound := b.toUInt32.toNat_lt
  have hsucc : (a + 1).toUInt32.toNat = a.toUInt32.toNat + 1 := by
    rw [Int32.toUInt32_add, UInt32.toNat_add]
    show (a.toUInt32.toNat + 1) % 2 ^ 32 = _
    exact Nat.mod_eq_of_lt (by omega)
  unfold remaining
  rw [hnext, hsame, hk, hb]
  dsimp only
  rw [hsucc]
  omega

/-! ## Time -/

/-- A run that never takes too long. -/
def Lasts (run : Exec τ α) : Prop := ∀ t t', run t ≠ .error .exhausted t'

theorem lasts_pure {a : α} : Lasts (pure a : Exec τ α) := fun _ _ heq => by cases heq

theorem lasts_stuck : Lasts (throw .stuck : Exec τ α) := fun _ _ heq => by cases heq

theorem lasts_bind {x : Exec τ α} {f : α → Exec τ β} (hx : Lasts x) (hf : ∀ a, Lasts (f a)) :
    Lasts (x >>= f) := by
  intro t t' h
  replace h : EStateM.bind x f t = .error .exhausted t' := h
  unfold EStateM.bind at h
  cases hrun : x t with
  | ok a t₁ =>
    rw [hrun] at h
    exact hf a t₁ t' h
  | error trap t₁ =>
    rw [hrun] at h
    cases h
    exact hx t _ hrun

theorem lasts_get {f : Machine τ → Exec τ α} (hf : ∀ t, Lasts (f t)) : Lasts (get >>= f) :=
  lasts_bind (fun _ _ heq => by cases heq) hf

theorem lasts_orStuck (o : Option α) : Lasts (orStuck o : Exec τ α) := by
  cases o with
  | none => exact lasts_stuck
  | some a => exact lasts_pure

/-- A loop lasts if something gets smaller whenever it starts again. -/
theorem lasts_iterate {body : Exec τ Outcome} (measure : Machine τ → Nat) (hbody : Lasts body)
    (hagain : ∀ t t', body t = .ok (.jump 0) t' → measure t' < measure t) :
    ∀ bound t t', measure t < bound → iterate body bound t ≠ .error .exhausted t'
  | bound + 1, t, t', hlt, h => by
    replace h : EStateM.bind body _ t = .error .exhausted t' := h
    unfold EStateM.bind at h
    cases hrun : body t with
    | error trap t₁ =>
      rw [hrun] at h
      cases h
      exact hbody t _ hrun
    | ok outcome t₁ =>
      rw [hrun] at h
      rcases outcome with stack | _ | label
      · cases h
      · have hless := hagain t t₁ hrun
        exact lasts_iterate measure hbody hagain bound t₁ t' (by omega) h
      · cases h

variable {c : Limits}

mutual

theorem lasts_instr (hloops : ∀ body, c.loops body → Counts body) (hkeeps : KeepsLocals call)
    (hcall : ∀ f, c.calls f → ∀ s, Lasts (call f s)) : ∀ {labels : Nat} {i : Instr},
    i.Confined c labels → ∀ s, Lasts (instr call i s)
  | _, .const lane, _, s => lasts_pure
  | _, .localGet i, _, s => lasts_get fun _ => lasts_bind (lasts_orStuck _) fun _ => lasts_pure
  | _, .globalGet i, _, s => lasts_get fun _ => lasts_bind (lasts_orStuck _) fun _ => lasts_pure
  | _, .localSet i, _, [] => lasts_stuck
  | _, .localSet i, _, lane :: s => fun _ _ heq => by cases heq
  | _, .globalSet i, _, [] => lasts_stuck
  | _, .globalSet i, _, lane :: s => fun _ _ heq => by cases heq
  | _, .call f, hf, s => lasts_bind (hcall f hf s) fun _ => lasts_pure
  | _, .numeric op, _, s => lasts_bind (lasts_orStuck _) fun _ => lasts_pure
  | _, .when body, hbody, s => by
    have hlasts := lasts_instrs hloops hkeeps hcall hbody []
    rcases s with _ | ⟨n | x, s⟩
    · exact lasts_stuck
    · show Lasts (if n != 0 then _ else _)
      split
      · exact lasts_bind hlasts fun _ => lasts_pure
      · exact lasts_pure
    · exact lasts_stuck
  | _, .ifElse r a b, hbody, s => by
    have htrue := lasts_instrs hloops hkeeps hcall hbody.1 []
    have hfalse := lasts_instrs hloops hkeeps hcall hbody.2 []
    rcases s with _ | ⟨n | x, s⟩
    · exact lasts_stuck
    · show Lasts (if n != 0 then _ else _)
      split
      · exact lasts_bind htrue fun _ => lasts_pure
      · exact lasts_bind hfalse fun _ => lasts_pure
    · exact lasts_stuck
  | _, .block body, hbody, s =>
    lasts_bind (lasts_instrs hloops hkeeps hcall hbody []) fun _ => lasts_pure
  | _, .loop body, hbody, s => by
    obtain ⟨k, count, between, hcount, hbetween, heq⟩ := hloops body hbody.1
    have hlasts := lasts_instrs hloops hkeeps hcall hbody.2 []
    have hiterate : Lasts (iterate (instrs call body []) loopBound) := fun t t' =>
      lasts_iterate (remaining k count) hlasts (fun t t' hrun => by
        rw [heq] at hrun
        exact remaining_again hkeeps hcount hbetween hrun) loopBound t t' (remaining_lt k count t)
    refine lasts_bind hiterate fun outcome => ?_
    cases outcome <;> exact lasts_pure
  | _, .br label, _, s => lasts_pure
  | _, .brIf label, _, s => by
    rcases s with _ | ⟨n | x, s⟩
    · exact lasts_stuck
    · exact lasts_pure
    · exact lasts_stuck

theorem lasts_instrs (hloops : ∀ body, c.loops body → Counts body) (hkeeps : KeepsLocals call)
    (hcall : ∀ f, c.calls f → ∀ s, Lasts (call f s)) : ∀ {labels : Nat} {code : List Instr},
    confined c labels code → ∀ s, Lasts (instrs call code s)
  | _, [], _, s => lasts_pure
  | _, i :: rest, h, s => by
    refine lasts_bind (lasts_instr hloops hkeeps hcall h.1 s) fun outcome => ?_
    cases outcome with
    | next s => exact lasts_instrs hloops hkeeps hcall h.2 s
    | jump label => exact lasts_pure

end

theorem arguments_keeps {count : Nat} {s : List Lane} {t t' : Machine τ} {r : List Lane × List Lane}
    (h : arguments count s t = .ok r t') : t'.locals = t.locals := by
  unfold arguments at h
  split at h
  · cases h
  · cases h
    rfl

theorem enter_keeps (m : Module) (host : Host τ) : KeepsLocals (enter m host call) := by
  intro f s t outs t' h
  unfold enter at h
  cases himport : m.imports[f]? with
  | some i =>
    rw [himport] at h
    obtain ⟨r, t₁, harguments, h⟩ := bind_ok h
    cases h
    exact (arguments_keeps harguments : t₁.locals = t.locals)
  | none =>
    rw [himport] at h
    obtain ⟨fn, t₁, hfn, h⟩ := bind_ok h
    obtain ⟨r, t₂, harguments, h⟩ := bind_ok h
    obtain ⟨outs', t₃, hbody, h⟩ := bind_ok h
    cases h
    rw [callBody_apply] at hbody
    split at hbody
    · cases hbody
      exact (arguments_keeps harguments).trans (orStuck_keeps _ t fn t₁ hfn)
    · cases hbody
    · cases hbody

theorem lasts_arguments (count : Nat) (s : List Lane) :
    Lasts (arguments count s : Exec τ (List Lane × List Lane)) := by
  unfold arguments
  split
  · exact lasts_stuck
  · exact lasts_pure

theorem lasts_import (m : Module) (host : Host τ) {f : Nat} {i : ImportedFunction}
    (himport : m.imports[f]? = some i) (s : List Lane) : Lasts (enter m host call f s) := by
  unfold enter
  rw [himport]
  refine lasts_bind (lasts_arguments _ s) fun r => ?_
  exact lasts_bind (fun _ _ heq => by cases heq) fun _ => lasts_pure

/-- A call lasts if the body of the function does. -/
theorem lasts_enter {m : Module} {host : Host τ} {f : Nat} {fn : Function}
    (himport : m.imports[f]? = none) (hfn : m.functions[f - m.imports.size]? = some fn)
    (hbody : Lasts (instrs call fn.body [])) (s : List Lane) : Lasts (enter m host call f s) := by
  unfold enter
  rw [himport, hfn]
  rw [show (orStuck (some fn) : Exec τ Function) = pure fn from rfl, pure_bind]
  refine lasts_bind (lasts_arguments _ s) fun r => lasts_bind (fun t t' h => ?_) fun _ => lasts_pure
  rw [callBody_apply] at h
  split at h
  · cases h
  · cases h
  · next hrun =>
    cases h
    exact hbody _ _ hrun

theorem invoke_keeps (m : Module) (host : Host τ) : ∀ depth, KeepsLocals (invoke m host depth)
  | 0 => fun _ _ _ _ _ h => by cases h
  | depth + 1 => enter_keeps m host

end Machine
end Wasm
end SignalGraph
