import SignalGraph.Proofs.Instrumentation.Fences.Code

/-!
# Interference

The locals of a construct are its own.  Code inside a fence leaves all others alone when it runs, so
lanes that were put into locals come back in the order they were on the stack, whatever ran in
between.

Main statement: in all functions of a compiled module, locals do not interfere.
-/

namespace SignalGraph
namespace Wasm

namespace Machine

variable {τ α β : Type} {call : Nat → List Lane → Exec τ (List Lane)} {j : Nat}

/-- A run that leaves a local as it was, if it comes to an end. -/
def Passes (j : Nat) (run : Exec τ α) : Prop :=
  ∀ t a t', run t = .ok a t' → t'.locals[j]? = t.locals[j]?

theorem passes_pure {a : α} : Passes j (pure a : Exec τ α) := by
  intro t a' t' heq
  cases heq
  rfl

theorem passes_throw {trap : Trap} : Passes j (throw trap : Exec τ α) := by
  intro t a t' heq
  cases heq

theorem passes_bind {x : Exec τ α} {f : α → Exec τ β} (hx : Passes j x) (hf : ∀ a, Passes j (f a)) :
    Passes j (x >>= f) := by
  intro t b t' h
  obtain ⟨a, t₁, hfirst, hrest⟩ := bind_ok h
  exact (hf a t₁ b t' hrest).trans (hx t a t₁ hfirst)

theorem passes_orStuck (o : Option α) : Passes j (orStuck o : Exec τ α) :=
  fun t a t' h => congrArg (·[j]?) (orStuck_keeps o t a t' h)

theorem passes_get {f : Machine τ → Exec τ α} (hf : ∀ t, Passes j (f t)) : Passes j (get >>= f) :=
  passes_bind (fun t a t' heq => by cases heq; rfl) hf

theorem passes_iterate {body : Exec τ Outcome} (h : Passes j body) :
    ∀ bound, Passes j (iterate body bound)
  | 0 => passes_throw
  | bound + 1 => by
    refine passes_bind h fun outcome => ?_
    rcases outcome with stack | _ | label
    · exact passes_pure
    · exact passes_iterate h bound
    · exact passes_pure

theorem passes_one {i : Instr} {s : List Lane} (h : Passes j (instr call i s)) :
    Passes j (instrs call [i] s) := by
  rw [instrs_one]
  exact h

theorem passes_ifElse (r : Option LaneType) {a b : List Instr}
    (ha : ∀ s, Passes j (instrs call a s))
    (hb : ∀ s, Passes j (instrs call b s)) (s : List Lane) :
    Passes j (instrs call [.ifElse r a b] s) := by
  rw [instrs_one]
  rcases s with _ | ⟨n | x, s⟩
  · exact passes_throw
  · show Passes j (if n != 0 then _ else _)
    split
    · exact passes_bind (ha []) fun _ => passes_pure
    · exact passes_bind (hb []) fun _ => passes_pure
  · exact passes_throw

theorem passes_when {body : List Instr} (h : ∀ s, Passes j (instrs call body s)) (s : List Lane) :
    Passes j (instrs call [.when body] s) := by
  rw [instrs_one]
  rcases s with _ | ⟨n | x, s⟩
  · exact passes_throw
  · show Passes j (if n != 0 then _ else _)
    split
    · exact passes_bind (h []) fun _ => passes_pure
    · exact passes_pure
  · exact passes_throw

mutual

theorem passes_flatInstr (hcall : KeepsLocals call) : ∀ {i : Instr}, j ∉ localsInInstr i →
    ∀ s, Passes j (instrs call (flatInstr i) s)
  | .const _, _, s => by
    exact passes_one passes_pure
  | .localGet _, _, s => by
    exact passes_one (passes_get fun _ => passes_bind (passes_orStuck _) fun _ => passes_pure)
  | .globalGet _, _, s => by
    exact passes_one (passes_get fun _ => passes_bind (passes_orStuck _) fun _ => passes_pure)
  | .localSet i, h, s => by
    refine passes_one ?_
    rcases s with _ | ⟨lane, s⟩
    · exact passes_throw
    · intro t a t' heq
      cases heq
      refine Array.getElem?_setIfInBounds_ne ?_
      rintro rfl
      exact h (List.mem_singleton_self i)
  | .globalSet _, _, s => by
    refine passes_one ?_
    rcases s with _ | ⟨lane, s⟩
    · exact passes_throw
    · intro t a t' heq
      cases heq
      rfl
  | .call f, _, s => by
    refine passes_one ?_
    exact passes_bind (fun t a t' h => congrArg (·[j]?) (hcall f s t a t' h)) fun _ => passes_pure
  | .numeric op, _, s => by
    refine passes_one ?_
    exact passes_bind (passes_orStuck _) fun _ => passes_pure
  | .when body, h, s => passes_when (passes_flat hcall h) s
  | .ifElse none a b, h, s =>
    passes_ifElse none (passes_flat hcall fun hj => h (List.mem_append_left _ hj))
      (passes_flat hcall fun hj => h (List.mem_append_right _ hj)) s
  | .ifElse (some .i32) a b, h, s =>
    passes_ifElse _ (passes_flat hcall fun hj => h (List.mem_append_left _ hj))
      (passes_flat hcall fun hj => h (List.mem_append_right _ hj)) s
  | .ifElse (some .f32) _ code, h, s =>
    (passes_flat hcall h s : Passes j (instrs call (flat code) s))
  | .block body, h, s => by
    refine passes_one ?_
    exact passes_bind (passes_flat hcall h []) fun _ => passes_pure
  | .loop body, h, s => by
    refine passes_one ?_
    refine passes_bind (passes_iterate (passes_flat hcall h []) loopBound) fun outcome => ?_
    cases outcome <;> exact passes_pure
  | .br _, _, s => by
    exact passes_one passes_pure
  | .brIf _, _, s => by
    refine passes_one ?_
    rcases s with _ | ⟨n | x, s⟩
    · exact passes_throw
    · exact passes_pure
    · exact passes_throw

/-- Code leaves the locals alone that it does not use. -/
theorem passes_flat (hcall : KeepsLocals call) : ∀ {code : List Instr}, j ∉ localsIn code →
    ∀ s, Passes j (instrs call (flat code) s)
  | [], _, s => passes_pure
  | i :: rest, h, s => by
    rw [flat, instrs_append_bind]
    refine passes_bind (passes_flatInstr hcall (fun hj => h (List.mem_append_left _ hj)) s)
      fun outcome => ?_
    cases outcome with
    | next s => exact passes_flat hcall (fun hj => h (List.mem_append_right _ hj)) s
    | jump label => exact passes_pure

end

variable {next : Nat} {types : List LaneType} {lanes below : List Lane} {t : Machine τ}

def putFrom (next : Nat) (lanes : List Lane) (t : Machine τ) : Machine τ :=
  { t with locals := putAll t.locals (List.range' next lanes.length) lanes }

theorem runs_putFrom :
    Runs call ((List.range' next lanes.length).reverse.map .localSet) (lanes.reverse ++ below) t
    below (putFrom next lanes t) := runs_localSets List.length_range'

theorem holds_putFrom (h : next + lanes.length ≤ t.locals.size) :
    Holds (putFrom next lanes t).locals (List.range' next lanes.length) lanes := by
  refine holds_putAll List.length_range' List.nodup_range' fun i hi => ?_
  exact Nat.lt_of_lt_of_le (List.mem_range'_1.mp hi).2 h

/-- The locals around those that lanes are put into stay. -/
theorem putFrom_outside (h : j < next ∨ next + lanes.length ≤ j) :
    (putFrom next lanes t).locals[j]? = t.locals[j]? := by
  refine putAll_of_not_mem fun hj => ?_
  have := List.mem_range'_1.mp hj
  omega

end Machine

/-! ## Fences in a row -/

mutual

def fencesInstr : Instr → List (Nat × Nat)
  | .when body => fences body
  | .ifElse none a b => fences a ++ fences b
  | .ifElse (some .i32) a b => fences a ++ fences b
  | .ifElse (some .f32) numbers code => bounds numbers :: fences code
  | .block body => fences body
  | .loop body => fences body
  | _ => []

/-- The numbers of all fences in code, the outer ones first. -/
def fences : List Instr → List (Nat × Nat)
  | [] => []
  | i :: rest => fencesInstr i ++ fences rest

end

def Fenced (code : List Instr) (first last : Nat) : Prop :=
  ∃ before inner after, Encloses code before first last inner after

variable {code part : List Instr} {first last : Nat}

/-- What is fenced within a part of code is fenced within the code. -/
theorem Fenced.around (h : Fenced part first last) (a b : List Access)
    (heq : outline code = a ++ outline part ++ b) :
    Fenced code first last := by
  obtain ⟨before, inner, after, h⟩ := h
  cases h with
  | @here _ _ _ _ x y hpart =>
    have hcode : outline code = (a ++ x) ++ .region first last inner :: (y ++ b) := by
      rw [heq, hpart]
      simp only [List.append_assoc, List.cons_append]
    exact ⟨_, _, _, .here hcode⟩
  | @within _ middle _ _ _ first' last' _ _ x y hpart hmiddle =>
    have hcode : outline code = (a ++ x) ++ .region first' last' middle :: (y ++ b) := by
      rw [heq, hpart]
      simp only [List.append_assoc, List.cons_append]
    exact ⟨_, _, _, .within hcode hmiddle⟩

theorem Fenced.inside {numbers : List Instr} (h : Fenced part first last) :
    Fenced [.ifElse (some .f32) numbers part] first last := by
  obtain ⟨before, inner, after, h⟩ := h
  exact ⟨_, _, _, .within (a := []) (b := []) rfl h⟩

mutual

theorem fenced_of_mem_instr : ∀ {i : Instr}, (first, last) ∈ fencesInstr i → Fenced [i] first last
  | .when _, h | .block _, h | .loop _, h => (fenced_of_mem h).around [] [] rfl
  | .ifElse none a b, h | .ifElse (some .i32) a b, h => by
    rcases List.mem_append.mp h with h | h
    · exact (fenced_of_mem h).around [] (outline b) (List.append_nil _)
    · exact (fenced_of_mem h).around (outline a) [] rfl
  | .ifElse (some .f32) numbers code, h => by
    rcases List.mem_cons.mp h with h | h
    · refine ⟨[], code, [], .here (a := []) (b := []) ?_⟩
      obtain ⟨rfl, rfl⟩ := Prod.mk.inj h
      rfl
    · exact (fenced_of_mem h).inside

theorem fenced_of_mem : ∀ {code : List Instr}, (first, last) ∈ fences code → Fenced code first last
  | i :: rest, h => by
    rcases List.mem_append.mp h with h | h
    · refine (fenced_of_mem_instr h).around [] (outline rest) ?_
      show outlineInstr i ++ outline rest = (outlineInstr i ++ []) ++ outline rest
      rw [List.append_nil]
    · exact (fenced_of_mem h).around (outlineInstr i) [] (List.append_nil _).symm

end

end Wasm

namespace Compiler

open Wasm Machine

variable {p : Program} {m : Wasm.Module}

/-! ## Locals of lanes -/

/-- Lanes go into the next locals, and reading these gives them back in order. -/
def Restores (types : List LaneType) (l : Locals) : Prop :=
  let own := List.range' l.count types.length
  let last := l.count + types.length
  spill types l = .ok ((own, own.reverse.map .localSet), { l with types := l.types ++ types }) ∧
  ∀ {τ : Type} (call : Nat → List Lane → Exec τ (List Lane)) (lanes below : List Lane)
    (t : Machine τ),
    lanes.length = types.length → last ≤ t.locals.size → ∃ t' : Machine τ,
      Runs call (own.reverse.map .localSet) (lanes.reverse ++ below) t below t' ∧
      t'.host = t.host ∧ t'.globals = t.globals ∧
      (∀ j, j < l.count ∨ last ≤ j → t'.locals[j]? = t.locals[j]?) ∧
      ∀ (u : Machine τ) (below' : List Lane), (∀ j ∈ own, u.locals[j]? = t'.locals[j]?) →
        Runs call (getLocals own) below' u (lanes.reverse ++ below') u

/-- The top lanes go, and those of a range among them come back. -/
def KeepsRange (types : List LaneType) (start count : Nat) (l : Locals) : Prop :=
  ∃ code, keep types start count l = .ok (code, { l with types := l.types ++ types }) ∧
  ∀ {τ : Type} (call : Nat → List Lane → Exec τ (List Lane)) (lanes below : List Lane)
    (t : Machine τ),
    lanes.length = types.length → l.count + types.length ≤ t.locals.size → ∃ t' : Machine τ,
      Runs call code (lanes.reverse ++ below) t
        (((lanes.drop start).take count).reverse ++ below) t' ∧
      t'.host = t.host ∧ t'.globals = t.globals ∧
      ∀ j, j < l.count ∨ l.count + types.length ≤ j → t'.locals[j]? = t.locals[j]?

theorem restores (types : List LaneType) (l : Locals) : Restores types l := by
  refine ⟨spill_eq_ok types l, fun call lanes below t hlen hsize => ?_⟩
  rw [← hlen] at hsize ⊢
  refine ⟨putFrom l.count lanes t, runs_putFrom, rfl, rfl, fun j => putFrom_outside,
    fun u below' hsame => ?_⟩
  exact runs_localGets (holds_congr (holds_putFrom hsize) hsame)

theorem keepsRange (types : List LaneType) (start count : Nat) (l : Locals) :
    KeepsRange types start count l := by
  let own := List.range' l.count types.length
  refine ⟨own.reverse.map .localSet ++ getLocals ((own.drop start).take count), ?_,
    fun call lanes below t hlen hsize => ?_⟩
  · show (spill types l >>=
      fun r => .ok (r.1.2 ++ getLocals ((r.1.1.drop start).take count), r.2)) = _
    rw [spill_eq_ok]
    rfl
  · dsimp only [own]
    rw [← hlen] at hsize ⊢
    refine ⟨putFrom l.count lanes t, runs_append runs_putFrom (runs_localGets ?_), rfl, rfl,
      fun j => putFrom_outside⟩
    exact List.forall₂_take count (List.forall₂_drop start (holds_putFrom hsize))

theorem fenced_recode {i : Nat} {f : Function} (hf : m.functions.toList[i]? = some f)
    {type : FunctionType} {emit' emit : Emit Code} (hcode : function type emit = .ok f)
    (hfenced : fencing.code (target p) i = some emit') {held : List Nat}
    (h : Parallels { params := f.type.params.length } emit' emit fun l a' a =>
      Fencing [] ⟨{ params := f.type.params.length }, held, false⟩ a' a ⟨l, held, false⟩) :
    ∃ body, (fencedFunctions (target p) m)[i]? = some { f with body } ∧
      Piece ⟨f.type.params.length, held⟩ body f.body
        ⟨f.type.params.length + f.locals.length, held⟩ := by
  obtain ⟨body, l, heq, hlocals, hparams, hpiece⟩ := Instrumentation.recode_eq hcode hfenced h
  refine ⟨body, ?_, ?_⟩
  · rw [fencedFunctions, Instrumentation.getElem?_functions hf, heq]
  · have hcount : l.count = f.type.params.length + f.locals.length := by
      rw [hlocals]
      exact congrArg (· + l.types.length) hparams
    exact hcount ▸ hpiece

/-- Every function is the one with fences without them, and its code takes all its locals in
order. -/
theorem fenced_function (hm : Compiled p m) {i : Nat} {f : Function}
    (hf : m.functions.toList[i]? = some f) :
    ∃ body, (fencedFunctions (target p) m)[i]? = some { f with body } ∧
      Piece ⟨f.type.params.length, List.range f.type.params.length⟩ body f.body
        ⟨f.type.params.length + f.locals.length, List.range f.type.params.length⟩ := by
  have hsealed : ∀ {type : FunctionType} {emit' emit : Emit Code}, function type emit = .ok f →
      fencing.code (target p) i = some emit' → (∀ l, Parallels l emit' emit (Walled l)) → ∃ body,
        (fencedFunctions (target p) m)[i]? = some { f with body } ∧
        Piece ⟨f.type.params.length, List.range f.type.params.length⟩ body f.body
          ⟨f.type.params.length + f.locals.length, List.range f.type.params.length⟩ := by
    intro type emit' emit hcode hfenced hwalled
    exact fenced_recode hf hcode hfenced ((hwalled _).mono fun _ _ _ h => h _)
  rcases hm.functions.numbered hf with
    ⟨rfl, hframe⟩ | ⟨rfl, hlate⟩ | ⟨k, point, rfl, hk, hcode⟩ | ⟨j, id, rfl, hj, hcode⟩
  · exact hsealed hframe rfl parallels_fencedFrame
  · have hgiven : List.range f.type.params.length = [0] := by
      obtain ⟨_, -, htype, -⟩ := function_eq_ok.mp hlate
      rw [htype]
      rfl
    rw [hgiven]
    exact fenced_recode hf hlate rfl (parallels_fencedLate _)
  · exact hsealed hcode (Instrumentation.code_memo hk) (parallels_fencedMemo k point)
  · exact hsealed hcode (Instrumentation.code_outlined hj)
      (carries_fencing.parallels_own fun _ _ _ _ => trivial)

theorem flat_fencedFunctions (hm : Compiled p m) :
    (fencedFunctions (target p) m).map (fun f => { f with body := flat f.body }) =
      m.functions.toList := by
  refine Instrumentation.map_functions fun hf => ?_
  obtain ⟨body, hbody, hpiece⟩ := fenced_function hm hf
  rw [← fencedFunctions, hbody, Option.map_some, hpiece.flat]

/-- The parameters of a function are given, and it takes its locals after them. -/
theorem scoped_fencedFunctions (hm : Compiled p m) {f : Function}
    (hf : f ∈ fencedFunctions (target p) m) :
    Scoped ⟨f.type.params.length, List.range f.type.params.length⟩ (outline f.body)
      ⟨f.type.params.length + f.locals.length, List.range f.type.params.length⟩ := by
  obtain ⟨i, hi⟩ := List.getElem?_of_mem hf
  have hlt : i < m.functions.toList.length := by
    have hlen : (fencedFunctions (target p) m).length = m.functions.toList.length :=
      Instrumentation.length_functions
    exact hlen ▸ (List.getElem?_eq_some_iff.mp hi).1
  obtain ⟨body, hbody, hpiece⟩ := fenced_function hm (List.getElem?_eq_getElem hlt)
  obtain rfl := Option.some.inj (hbody.symm.trans hi)
  exact hpiece.parts

theorem sound_params (params : Nat) : Stand.Sound ⟨params, List.range params⟩ :=
  fun _ hi => List.mem_range.mp hi

/-- The locals of all functions of a module do not interfere.  Fences stand around the code of every
output that is read, of every statement, and of every chain: an operand, a branch, or the body of a
loop. -/
structure LocalsApart (x : Target) (m : Wasm.Module) : Prop where
  flat : (fencedFunctions x m).map (fun f => { f with body := flat f.body }) = m.functions.toList
  /-- The locals after the parameters are taken in the order of the code, each by a single spill. -/
  ordered : ∀ f ∈ fencedFunctions x m,
    Scoped ⟨f.type.params.length, List.range f.type.params.length⟩ (outline f.body)
    ⟨f.type.params.length + f.locals.length, List.range f.type.params.length⟩
  /-- Nothing is read before it is set, and nothing is set that was used before, but a counter that
  goes up. -/
  fresh : ∀ f ∈ fencedFunctions x m, Fresh (List.range f.type.params.length) (outline f.body)
  within : ∀ f ∈ fencedFunctions x m, ∀ i ∈ localsIn f.body,
    i < f.type.params.length + f.locals.length
  /-- What is inside a fence has locals that nothing around it uses. -/
  apart : ∀ f ∈ fencedFunctions x m, ∀ {before first last inner after},
    Encloses f.body before first last inner after →
    f.type.params.length ≤ first ∧ last ≤ f.type.params.length + f.locals.length ∧
      Apart before first last inner after
  /-- When it runs, all others stay as they are. -/
  spared : ∀ f ∈ fencedFunctions x m, ∀ {before first last inner after},
    Encloses f.body before first last inner after →
    ∀ {τ : Type} (host : Host τ) depth s t outcome t',
      instrs (invoke m host depth) (Wasm.flat inner) s t = .ok outcome t' →
      ∀ j, j < first ∨ last ≤ j → t'.locals[j]? = t.locals[j]?

/-- Generated locals never interfere. -/
theorem locals_apart (h : compile p = .ok m) : LocalsApart (target p) m ∧
    (∀ types l, Restores types l) ∧ ∀ types start count l, KeepsRange types start count l := by
  have hm := compiled_of_ok h
  refine ⟨⟨flat_fencedFunctions hm, fun f hf => scoped_fencedFunctions hm hf, fun f hf => ?_,
    fun f hf i hi => ?_, fun f hf => ?_, fun f hf => ?_⟩, restores, keepsRange⟩
  · exact fresh_of_scoped (scoped_fencedFunctions hm hf) (sound_params _)
  · rw [localsIn_eq] at hi
    have hadvances := advances_of_scoped (scoped_fencedFunctions hm hf) (sound_params _)
    rcases hadvances.uses i hi with hi | ⟨-, hi⟩
    · exact Nat.lt_of_lt_of_le (List.mem_range.mp hi) hadvances.next
    · exact hi
  · intro before first last inner after hencloses
    exact apart_of_encloses hencloses (scoped_fencedFunctions hm hf) (sound_params _)
  · intro before first last inner after hencloses τ host depth s t outcome t' hrun j hj
    obtain ⟨-, -, hapart⟩ :=
      apart_of_encloses hencloses (scoped_fencedFunctions hm hf) (sound_params _)
    refine passes_flat (invoke_keeps m host depth) (fun hmem => ?_) s t outcome t' hrun
    have := hapart.own j hmem
    omega

/-- A loop whose body is a loop, with a sensor in its body. -/
def looping : Document where
  main := {
    id := 0
    nodes := [{ pos := ⟨0, 0, 0⟩, kind := 560 }, { pos := ⟨4, 0, 4⟩, kind := 560 },
      { pos := ⟨8, 0, 8⟩, kind := 248 }, { pos := ⟨12, 0, 12⟩, kind := 252 }]
    connections := [.between ⟨0, 0, 0⟩ ⟨15, 1, 11⟩ ⟨4, 0, 4⟩ ⟨3, 1, 15⟩,
      .between ⟨4, 0, 4⟩ ⟨15, 1, 11⟩ ⟨8, 0, 8⟩ ⟨3, 1, 15⟩,
      .between ⟨8, 0, 8⟩ ⟨15, 1, 11⟩ ⟨12, 0, 12⟩ ⟨3, 1, 15⟩] }

/-- The inner loop has the locals from four on, and the sensor in it those from eight on. -/
theorem locals_apart_looping : ∃ c p m, c.Stocked ∧ Program.analyse c looping = .ok p ∧
    p.nodes.toList.map (·.controls) = [[[1], []], [[2], []], [[3], []], [[]]] ∧ compile p = .ok m ∧
    (∃ f ∈ fencedFunctions (target p) m,
      f.locals = [.f32, .f32, .i32, .i32, .f32, .f32, .i32, .i32, .i32, .f32, .f32, .f32] ∧
      Fenced f.body 0 12 ∧ Fenced f.body 4 12 ∧ Fenced f.body 8 12) ∧
    LocalsApart (target p) m ∧ (∀ types l, Restores types l) ∧
    ∀ types start count l, KeepsRange types start count l := by
  have hsome : (Catalog.stock.bind fun c => Program.analyse c looping).toOption.any (fun p =>
      p.nodes.toList.map (·.controls) = [[[1], []], [[2], []], [[3], []], [[]]] ∧
      (compile p).toOption.any fun m => (fencedFunctions (target p) m).any fun f =>
        f.locals = [.f32, .f32, .i32, .i32, .f32, .f32, .i32, .i32, .i32, .f32, .f32, .f32] ∧
        (0, 12) ∈ fences f.body ∧ (4, 12) ∈ fences f.body ∧ (8, 12) ∈ fences f.body) = true := by
    decide +kernel
  obtain ⟨c, p, -, hc, hp, hshape⟩ := Catalog.exists_stock hsome
  obtain ⟨hcontrols, hcompile⟩ := of_decide_eq_true hshape
  obtain ⟨m, hm, hany⟩ := Outcome.any_toOption.mp hcompile
  obtain ⟨f, hf, hfences⟩ := List.any_eq_true.mp hany
  obtain ⟨hlocals, houter, hinner, hsensor⟩ := of_decide_eq_true hfences
  exact ⟨c, p, m, hc, hp, hcontrols, hm,
    ⟨f, hf, hlocals, fenced_of_mem houter, fenced_of_mem hinner, fenced_of_mem hsensor⟩,
    locals_apart hm⟩

end Compiler
end SignalGraph
