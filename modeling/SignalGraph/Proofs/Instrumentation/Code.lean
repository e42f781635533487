import SignalGraph.Proofs.Instrumentation.Mirrors
import SignalGraph.Proofs.Wasm.CodeRuns
import SignalGraph.Proofs.Wasm.Confinement

/-!
# Mirrored code

Confined code does the same with something extra next to the engine's state as without, if the
functions do that it calls.
-/

namespace SignalGraph

open Wasm Machine

variable {σ L α : Type}

def Wasm.Machine.beside (t : Machine (World σ)) (l : L) : Machine (World (σ × L)) :=
  ⟨t.host.joined l, t.globals, t.locals⟩

/-- A run of code with something extra that does what the other run does. -/
abbrev Escorts (I : Machine (World σ) → L → Prop) (J : α → Machine (World σ) → L → Prop)
    (run' : Exec (World (σ × L)) α) (run : Exec (World σ) α) : Prop :=
  Mirrors Machine.beside I J (fun _ _ => True) run' run

/-- What is kept does not concern the locals. -/
def IgnoresLocals (I : Machine (World σ) → L → Prop) : Prop :=
  ∀ t locals l, I t l → I { t with locals } l

/-- Functions and globals that code may call and set, whatever it is limited to. -/
structure Escorted (c : Limits) (I : Machine (World σ) → L → Prop)
    (call' : Nat → List Lane → Exec (World (σ × L)) (List Lane))
    (call : Nat → List Lane → Exec (World σ) (List Lane)) : Prop where
  calls : ∀ f, c.calls f → ∀ s, Escorts I (fun _ => I) (call' f s) (call f s)
  globals : ∀ i, c.globals i → ∀ lane t l, I t l →
    I { t with globals := t.globals.setIfInBounds i lane } l
  locals : IgnoresLocals I

def Remains {S : Type} (I : S → L → Prop) (labels : Nat) (outcome : Outcome) (s : S)
    (l : L) : Prop :=
  I s l ∧ ∀ label, outcome = .jump label → label < labels

section

variable {S : Type} {I : S → L → Prop} {labels : Nat} {t : S} {l : L}

theorem remains_next {s : List Lane} (h : I t l) : Remains I labels (.next s) t l :=
  ⟨h, fun _ heq => by cases heq⟩

theorem remains_jump {label : Nat} (h : I t l) (hlt : label < labels) :
    Remains I labels (.jump label) t l :=
  ⟨h, fun _ heq => by cases heq; exact hlt⟩

theorem remains_leave {s : List Lane} {outcome : Outcome} (h : Remains I (labels + 1) outcome t l) :
    Remains I labels (leave s outcome) t l := by
  cases outcome with
  | next stack => exact remains_next h.1
  | jump label =>
    cases label with
    | zero => exact remains_next h.1
    | succ label => exact remains_jump h.1 (Nat.lt_of_succ_lt_succ (h.2 _ rfl))

end

variable {c : Limits} {I : Machine (World σ) → L → Prop} {labels : Nat}
  {call' : Nat → List Lane → Exec (World (σ × L)) (List Lane)}
  {call : Nat → List Lane → Exec (World σ) (List Lane)}

theorem escorts_next (s : List Lane) :
    Escorts I (Remains I labels) (pure (.next s) : Exec (World (σ × L)) Outcome) (pure (.next s)) :=
  mirrors_pure fun _ _ h => remains_next h

theorem escorts_orStuck (a : Option α) :
    Escorts I (fun _ => I) (orStuck a : Exec (World (σ × L)) α) (orStuck a) := by
  cases a with
  | none => exact mirrors_throw fun _ _ _ => trivial
  | some a => exact mirrors_done

theorem escorts_body {body' : Exec (World (σ × L)) Outcome} {body : Exec (World σ) Outcome}
    (h : Escorts I (Remains I (labels + 1)) body' body) (s : List Lane) :
    Escorts I (Remains I labels) (do return leave s (← body')) (do return leave s (← body)) :=
  mirrors_bind h fun _ => mirrors_pure fun _ _ h => remains_leave h

theorem escorts_iterate {body' : Exec (World (σ × L)) Outcome} {body : Exec (World σ) Outcome}
    (h : Escorts I (Remains I (labels + 1)) body' body) :
    ∀ bound, Escorts I (Remains I labels) (iterate body' bound) (iterate body bound)
  | 0 => mirrors_throw fun _ _ _ => trivial
  | bound + 1 => by
    refine mirrors_bind h fun outcome => ?_
    cases outcome with
    | next stack => exact mirrors_pure fun _ _ h => remains_next h.1
    | jump label =>
      cases label with
      | zero => exact mirrors_weaken (fun _ _ h => h.1) (escorts_iterate h bound)
      | succ label =>
        exact mirrors_pure fun _ _ h => remains_jump h.1 (Nat.lt_of_succ_lt_succ (h.2 _ rfl))

section

variable {a' a b' b : List Instr}

theorem escorts_ifElse (r : Option LaneType)
    (ha : Escorts I (Remains I (labels + 1)) (instrs call' a' []) (instrs call a []))
    (hb : Escorts I (Remains I (labels + 1)) (instrs call' b' []) (instrs call b []))
    (s : List Lane) :
    Escorts I (Remains I labels) (instr call' (.ifElse r a' b') s)
      (instr call (.ifElse r a b) s) := by
  cases s with
  | nil => exact mirrors_throw fun _ _ _ => trivial
  | cons lane s =>
    cases lane with
    | f32 x => exact mirrors_throw fun _ _ _ => trivial
    | i32 n =>
      show Escorts I _ (if n != 0 then _ else _) (if n != 0 then _ else _)
      split
      · exact escorts_body ha s
      · exact escorts_body hb s

theorem escorts_when
    (h : Escorts I (Remains I (labels + 1)) (instrs call' b' []) (instrs call b []))
    (s : List Lane) :
    Escorts I (Remains I labels) (instr call' (.when b') s) (instr call (.when b) s) := by
  rw [instr_when_eq, instr_when_eq]
  exact escorts_ifElse none h (escorts_next []) s

theorem escorts_loop
    (h : Escorts I (Remains I (labels + 1)) (instrs call' b' []) (instrs call b []))
    (s : List Lane) :
    Escorts I (Remains I labels) (instr call' (.loop b') s) (instr call (.loop b) s) := by
  refine mirrors_bind (escorts_iterate h loopBound) fun outcome => ?_
  cases outcome with
  | next stack => exact mirrors_pure fun _ _ h => remains_next h.1
  | jump label => exact mirrors_pure fun _ _ h => h

theorem escorts_proceed {J : Outcome → Machine (World σ) → L → Prop}
    {I' : Machine (World σ) → L → Prop}
    {x' : Exec (World (σ × L)) Outcome} {x : Exec (World σ) Outcome}
    {rest' : List Lane → Exec (World (σ × L)) Outcome} {rest : List Lane → Exec (World σ) Outcome}
    (hx : Escorts I (Remains I' 0) x' x) (hrest : ∀ s, Escorts I' J (rest' s) (rest s)) :
    Escorts I J (x' >>= proceed rest') (x >>= proceed rest) := by
  refine mirrors_bind hx fun outcome => ?_
  cases outcome with
  | next s => exact mirrors_weaken (fun _ _ h => h.1) (hrest s)
  | jump label => exact fun _ _ h => absurd (h.2 label rfl) (Nat.not_lt_zero _)

end

mutual

theorem escorts_instr (hc : Escorted c I call' call) : ∀ {labels : Nat} {i : Instr},
    i.Confined c labels → ∀ s, Escorts I (Remains I labels) (instr call' i s) (instr call i s)
  | _, .const lane, _, s => escorts_next _
  | _, .localGet i, _, s =>
    mirrors_get fun _ _ => mirrors_bind (escorts_orStuck _) fun _ => escorts_next _
  | _, .globalGet i, _, s =>
    mirrors_get fun _ _ => mirrors_bind (escorts_orStuck _) fun _ => escorts_next _
  | _, .localSet i, _, [] => mirrors_throw fun _ _ _ => trivial
  | _, .localSet i, _, lane :: s => fun t l h => ⟨l, rfl, remains_next (hc.locals t _ l h)⟩
  | _, .globalSet i, _, [] => mirrors_throw fun _ _ _ => trivial
  | _, .globalSet i, hi, lane :: s => fun t l h =>
    ⟨l, rfl, remains_next (hc.globals i hi lane _ _ h)⟩
  | _, .call f, hf, s => mirrors_bind (hc.calls f hf s) fun _ => escorts_next _
  | _, .numeric op, _, s => mirrors_bind (escorts_orStuck _) fun _ => escorts_next _
  | _, .when body, hbody, s => escorts_when (escorts_instrs hc hbody []) s
  | _, .ifElse r a b, hbody, s =>
    escorts_ifElse r (escorts_instrs hc hbody.1 []) (escorts_instrs hc hbody.2 []) s
  | _, .block body, hbody, s => escorts_body (escorts_instrs hc hbody []) s
  | _, .loop body, hbody, s => escorts_loop (escorts_instrs hc hbody.2 []) s
  | _, .br label, hlt, s => mirrors_pure fun _ _ h => remains_jump h hlt
  | _, .brIf label, hlt, s => by
    cases s with
    | nil => exact mirrors_throw fun _ _ _ => trivial
    | cons lane s =>
      cases lane with
      | f32 x => exact mirrors_throw fun _ _ _ => trivial
      | i32 n =>
        show Escorts I _ (pure (if n != 0 then _ else _)) (pure (if n != 0 then _ else _))
        split
        · exact mirrors_pure fun _ _ h => remains_jump h hlt
        · exact escorts_next s

theorem escorts_instrs (hc : Escorted c I call' call) : ∀ {labels : Nat} {code : List Instr},
    confined c labels code →
      ∀ s, Escorts I (Remains I labels) (instrs call' code s) (instrs call code s)
  | _, [], _, s => escorts_next s
  | _, i :: rest, h, s => by
    refine mirrors_bind (escorts_instr hc h.1 s) fun outcome => ?_
    cases outcome with
    | next s => exact mirrors_weaken (fun _ _ h => h.1) (escorts_instrs hc h.2 s)
    | jump label => exact mirrors_pure fun _ _ h => h

end

section

variable {J : Outcome → Machine (World σ) → L → Prop} {m' m : Wasm.Module}
  {host' : Wasm.Host (World (σ × L))} {host : Wasm.Host (World σ)}

theorem escorts_arguments (count : Nat) (s : List Lane) :
    Escorts I (fun _ => I) (arguments count s : Exec (World (σ × L)) (List Lane × List Lane))
      (arguments count s) := by
  unfold arguments
  split
  · exact mirrors_throw fun _ _ _ => trivial
  · exact mirrors_done

theorem escorts_callBody (hI : IgnoresLocals I) (hJ : ∀ outcome, IgnoresLocals (J outcome))
    {body' : Exec (World (σ × L)) Outcome} {body : Exec (World σ) Outcome} (locals : Array Lane)
    (h : Escorts (fun t l => I t l ∧ t.locals = locals) J body' body) :
    Escorts I (fun outs => J (.next outs)) (callBody body' locals) (callBody body locals) := by
  refine mirrors_get fun saved _ => mirrors_bind (J := fun _ t l => I t l ∧ t.locals = locals)
    (fun t l h => ⟨l, rfl, hI t locals l h, rfl⟩) fun _ => mirrors_bind h fun outcome => ?_
  refine mirrors_bind (J := fun _ => J outcome)
    (fun t l h => ⟨l, rfl, hJ outcome t saved.locals l h⟩) fun _ => ?_
  cases outcome with
  | next outs => exact mirrors_pure fun _ _ h => h
  | jump label => exact mirrors_throw fun _ _ _ => trivial

/-- The arguments are the lanes on top, the last one uppermost. -/
theorem arguments_spec {τ : Type} {count : Nat} {s : List Lane} {t t' : Machine τ}
    {r : List Lane × List Lane} (h : arguments count s t = .ok r t') :
    s = r.1.reverse ++ r.2 ∧ r.1.length = count := by
  unfold arguments at h
  split at h
  · cases h
  · next hle =>
    cases h
    refine ⟨?_, ?_⟩
    · rw [List.reverse_reverse, List.take_append_drop]
    · rw [List.length_reverse, List.length_take]
      omega

/-- Two functions of one number whose bodies do the same with the arguments. -/
theorem escorts_enter (himports : m'.imports = m.imports) {i : Nat} {fn' fn : Function}
    (hfn' : m'.functions[i]? = some fn') (hfn : m.functions[i]? = some fn)
    (htype : fn'.type = fn.type) (hlocals : fn'.locals = fn.locals) (hI : IgnoresLocals I)
    (hJ : ∀ outcome, IgnoresLocals (J outcome)) (s : List Lane)
    (hbody : ∀ lanes below, s = lanes.reverse ++ below → lanes.length = fn.type.params.length →
      Escorts (fun t l => I t l ∧ t.locals = (lanes ++ fn.locals.map LaneType.zero).toArray) J
        (instrs call' fn'.body []) (instrs call fn.body [])) :
    Escorts I (fun out t l => ∃ lanes outs below : List Lane, s = lanes.reverse ++ below ∧
        lanes.length = fn.type.params.length ∧ out = outs ++ below ∧ J (.next outs) t l)
      (enter m' host' call' (m.imports.size + i) s) (enter m host call (m.imports.size + i) s) := by
  have hfound : ∀ {τ : Type} (fn : Function), (orStuck (some fn) : Exec τ Function) = pure fn :=
    fun _ => rfl
  have hpast : m.imports[m.imports.size + i]? = none :=
    Array.getElem?_eq_none (Nat.le_add_right _ _)
  unfold enter
  rw [himports, hpast]
  dsimp only
  rw [Nat.add_sub_cancel_left, hfn', hfn, hfound, hfound, pure_bind, pure_bind, htype, hlocals]
  refine mirrors_bind (mirrors_and (escorts_arguments _ s) fun t r t' heq => arguments_spec heq)
    fun r => ?_
  intro t l ⟨ht, hs, hlen⟩
  exact mirrors_bind (escorts_callBody hI hJ _ (hbody r.1 r.2 hs hlen)) (fun outs =>
    mirrors_pure fun _ _ h => ⟨r.1, outs, r.2, hs, hlen, rfl, h⟩) t l ht

/-- An imported function does the same with something extra, which it may add to. -/
theorem escorts_host (himports : m'.imports = m.imports) {f : Nat} {i : ImportedFunction}
    (hi : m.imports[f]? = some i) (s : List Lane) {K : List Lane → Machine (World σ) → L → Prop}
    (hrun : ∀ lanes below, s = lanes.reverse ++ below → lanes.length = i.type.params.length →
      ∀ t l, I t l → ∃ l', host' f lanes (t.host.joined l) =
        ((host f lanes t.host).1, (host f lanes t.host).2.joined l') ∧
        K ((host f lanes t.host).1.reverse ++ below)
          { t with host := (host f lanes t.host).2 } l') :
    Escorts I K (enter m' host' call' f s) (enter m host call f s) := by
  unfold enter
  rw [himports, hi]
  refine mirrors_bind (mirrors_and (escorts_arguments i.type.params.length s)
    fun t r t' heq => arguments_spec heq) fun r => ?_
  refine mirrors_bind (J := fun outs => K (outs.reverse ++ r.2)) (fun t l ⟨h, hs, hlen⟩ => ?_)
    fun _ => mirrors_pure fun _ _ h => h
  obtain ⟨l', heq, hK⟩ := hrun r.1 r.2 hs hlen t l h
  refine ⟨l', ?_, hK⟩
  show (let (results, state) := host' f r.1 (t.host.joined l)
    EStateM.Result.ok results (⟨state, t.globals, t.locals⟩ : Machine (World (σ × L)))) = _
  rw [heq]
  rfl

/-- An imported function does not see what is extra. -/
theorem escorts_import (himports : m'.imports = m.imports) {f : Nat} {i : ImportedFunction}
    (hi : m.imports[f]? = some i) (s : List Lane)
    (hbeside : ∀ lanes, World.Beside (host' f lanes) (host f lanes))
    (hkeeps : ∀ lanes below, s = lanes.reverse ++ below → lanes.length = i.type.params.length →
      ∀ t l, I t l → I { t with host := (host f lanes t.host).2 } l) :
    Escorts I (fun _ => I) (enter m' host' call' f s) (enter m host call f s) :=
  escorts_host himports hi s fun lanes below hs hlen t l h =>
    ⟨l, hbeside lanes t.host l, hkeeps lanes below hs hlen t l h⟩

end

end SignalGraph
