import SignalGraph.Proofs.Emulation.Equivalence
import SignalGraph.Proofs.Instrumentation.Chronicle.Basic
import SignalGraph.Proofs.Instrumentation.Chronicle.Growth
import SignalGraph.Proofs.Instrumentation.Mirrors

/-!
# Tellings

When a run with a chronicle does what a run without it does, and what the chronicle tells of it.
`hold` gives what the program holds in a state, and `B` is kept of the chronicle and the rest of the
state.
-/

namespace SignalGraph

variable {ε S S' α β : Type}

/-- The state and the chronicle after a stretch that began with `h` and `l`. -/
def Since (hold : S → Holdings) (B : S → Chronicle → Prop) (h : Holdings) (l : Chronicle)
    (T : Tale) :
    S → Chronicle → Prop :=
  fun s m => (∃ es, m = l ++ es ∧ T h es (hold s)) ∧ B s m

/-- The run with a chronicle does what the other run does, unless both fail, and its chronicle tells
of it as `T` says. -/
def Tells (join : S → Chronicle → S') (hold : S → Holdings) (B : S → Chronicle → Prop)
    (T : α → Tale)
    (run' : EStateM ε S' α) (run : EStateM ε S α) : Prop :=
  ∀ h l, Mirrors join (Since hold B h l .stay) (fun a => Since hold B h l (T a)) (fun _ _ => True)
    run' run

namespace Tale

def given (T : Tale) (P : Prop) : Tale := fun h es h' => T h es h' ∧ P

end Tale

section

variable {join : S → Chronicle → S'} {hold : S → Holdings} {B : S → Chronicle → Prop}
  {T T' : α → Tale} {U : Tale} {h : Holdings} {l m : Chronicle} {s : S} {x' : EStateM ε S' α}
  {x : EStateM ε S α}

theorem since_stay : Since hold B h l .stay s m ↔ (m = l ∧ hold s = h) ∧ B s m := by
  constructor
  · rintro ⟨⟨_, rfl, rfl, heq⟩, hB⟩
    exact ⟨⟨List.append_nil l, heq⟩, hB⟩
  · rintro ⟨⟨rfl, heq⟩, hB⟩
    exact ⟨⟨[], (List.append_nil _).symm, rfl, heq⟩, hB⟩

theorem since_mono {T T' : Tale} (hT : ∀ h es h', T h es h' → T' h es h')
    (hs : Since hold B h l T s m) : Since hold B h l T' s m := by
  obtain ⟨⟨es, heq, htale⟩, hB⟩ := hs
  exact ⟨⟨es, heq, hT _ _ _ htale⟩, hB⟩

/-- What a run tells comes after what was told before. -/
theorem Tells.after (hx : Tells join hold B T x' x) (U : Tale) (h : Holdings) (l : Chronicle) :
    Mirrors join (Since hold B h l U) (fun a => Since hold B h l (U.next (T a))) (fun _ _ => True)
      x' x := by
  rintro s m ⟨⟨es, rfl, hU⟩, hB⟩
  have hrun : Mirrors join (Since hold B (hold s) (l ++ es) .stay)
      (fun a => Since hold B h l (U.next (T a))) (fun _ _ => True) x' x := by
    refine mirrors_mono (hx (hold s) (l ++ es)) ?_
    rintro a s' m' ⟨⟨es', rfl, hT⟩, hB'⟩
    exact ⟨⟨es ++ es', List.append_assoc l es es', Tale.next_intro hU hT⟩, hB'⟩
  exact hrun s (l ++ es) (since_stay.mpr ⟨⟨rfl, rfl⟩, hB⟩)

theorem Tells.mono (hx : Tells join hold B T x' x) (hT : ∀ a h es h', T a h es h' → T' a h es h') :
    Tells join hold B T' x' x :=
  fun h l => mirrors_mono (hx h l) fun a _ _ => since_mono (hT a)

/-- What comes next may rely on what holds of the result. -/
theorem tells_bind_of {V : α → β → Tale} {W : β → Tale} {Q : α → Prop} {f' : α → EStateM ε S' β}
    {f : α → EStateM ε S β} (hx : Tells join hold B T x' x) (hQ : ∀ a h es h', T a h es h' → Q a)
    (hf : ∀ a, Q a → Tells join hold B (V a) (f' a) (f a))
    (hW : ∀ a b h es h', (T a).next (V a b) h es h' → W b h es h') :
    Tells join hold B W (x' >>= f') (x >>= f) := by
  refine fun h l => mirrors_bind (hx h l) fun a s m hs => ?_
  obtain ⟨es, -, hT⟩ := hs.1
  have hnext := mirrors_mono ((hf a (hQ a _ _ _ hT)).after (T a) h l) fun b _ _ =>
    since_mono (hW a b)
  exact hnext s m hs

theorem tells_bind {V : α → β → Tale} {W : β → Tale} {f' : α → EStateM ε S' β}
    {f : α → EStateM ε S β} (hx : Tells join hold B T x' x)
    (hf : ∀ a, Tells join hold B (V a) (f' a) (f a))
    (hW : ∀ a b h es h', (T a).next (V a b) h es h' → W b h es h') :
    Tells join hold B W (x' >>= f') (x >>= f) :=
  tells_bind_of hx (fun _ _ _ _ _ => trivial) (fun a _ => hf a) hW

theorem tells_pure {a : α} (hT : ∀ h, T a h [] h) :
    Tells join hold B T (pure a : EStateM ε S' α) (pure a) := fun h l =>
  mirrors_pure fun s m hs => by
    obtain ⟨⟨rfl, rfl⟩, hB⟩ := since_stay.mp hs
    exact ⟨⟨[], (List.append_nil _).symm, hT _⟩, hB⟩

theorem tells_throw {fault : ε} :
    Tells join hold B T (throw fault : EStateM ε S' α) (throw fault) :=
  fun _ _ => mirrors_throw fun _ _ _ => trivial

/-- A run that keeps what one stretch after another keeps. -/
theorem Tells.keeps (hx : Tells join hold B T x' x)
    (hU : ∀ a h es h', U.next (T a) h es h' → U h es h')
    (h : Holdings) (l : Chronicle) :
    Mirrors join (Since hold B h l U) (fun _ => Since hold B h l U) (fun _ _ => True) x' x :=
  mirrors_mono (hx.after U h l) fun a _ _ => since_mono (hU a)

theorem tells_of_keeps {U : Tale} (hstay : ∀ h, U h [] h)
    (hx : ∀ h l, Mirrors join (Since hold B h l U) (fun _ => Since hold B h l U)
      (fun _ _ => True) x' x) :
    Tells join hold B (fun _ => U) x' x := fun h l =>
  mirrors_weaken (fun s m hs => by
    obtain ⟨⟨rfl, rfl⟩, hB⟩ := since_stay.mp hs
    exact ⟨⟨[], (List.append_nil _).symm, hstay _⟩, hB⟩) (hx h l)

theorem tells_note {note : EStateM ε S' Unit} {d : Deed}
    (hnote : ∀ s l, note (join s l) = .ok () (join s (l ++ [d])))
    (hB : ∀ s l, B s l → B s (l ++ [d]))
    (hx : Tells join hold B T x' x) (hT : ∀ a h es h', T a h es h' → T' a h (d :: es) h') :
    Tells join hold B T' (do note; x') x := by
  intro h l
  have hnoted : ∀ s m, Since hold B h l .stay s m →
      Since hold B h l (fun h es h' => es = [d] ∧ h' = h) s (m ++ [d]) := by
    intro s m hs
    obtain ⟨⟨rfl, rfl⟩, hBs⟩ := since_stay.mp hs
    exact ⟨⟨[d], rfl, rfl, rfl⟩, hB _ _ hBs⟩
  refine mirrors_note hnote hnoted (mirrors_mono (hx.after _ h l) fun a _ _ => since_mono ?_)
  rintro h es h' ⟨_, _, es', rfl, ⟨rfl, rfl⟩, hes'⟩
  exact hT a _ _ _ hes'

theorem tells_ended {note : EStateM ε S' Unit} {x' : EStateM ε S' Unit} {x : EStateM ε S Unit}
    {d : Deed} {V W : Tale} (hnote : ∀ s l, note (join s l) = .ok () (join s (l ++ [d])))
    (hB : ∀ s l, B s l → B s (l ++ [d])) (hx : Tells join hold B (fun _ => V) x' x)
    (hW : ∀ h es h', V h es h' → W h (es ++ [d]) h') :
    Tells join hold B (fun _ => W) (do x'; note) x := by
  refine fun h l => mirrors_ended hnote (hx h l) ?_
  rintro s _ ⟨⟨es, rfl, hV⟩, hs⟩
  exact ⟨⟨es ++ [d], List.append_assoc _ _ _, hW _ _ _ hV⟩, hB _ _ hs⟩

end

namespace Chronicle

def Inquires (l l' : Chronicle) : Prop := ∃ es, l' = l ++ es ∧ ∀ d ∈ es, d = .asked

theorem growth_inquires : Growth Inquires := by
  refine ⟨fun l => ⟨[], (List.append_nil l).symm, fun _ h => absurd h List.not_mem_nil⟩, ?_⟩
  rintro l _ _ ⟨es, rfl, hes⟩ ⟨es', rfl, hes'⟩
  exact ⟨es ++ es', List.append_assoc l es es',
    fun d hd => (List.mem_append.mp hd).elim (hes d) (hes' d)⟩

theorem quiet_of_asked {es : Chronicle} (h : ∀ d ∈ es, d = .asked) : es.Quiet :=
  fun d hd => h d hd ▸ rfl

end Chronicle

theorem Deed.ofRequest_eq {r : Request α} (h : r.registers = false) : ofRequest r = asked := by
  cases r <;> first | rfl | cases h

theorem grows_recording {σ : Type} (e : Engine σ) {r : Request β} (hr : r.registers = false) :
    Grows Chronicle.Inquires ((e.recording Deed.ofRequest).ask r) (e.ask r) := fun _ l =>
  ⟨l ++ [Deed.ofRequest r], rfl, [Deed.ofRequest r], rfl, fun _ hd =>
    (List.mem_singleton.mp hd).trans (Deed.ofRequest_eq hr)⟩

theorem answering_recording {σ : Type} (e : Engine σ) :
    Answering Chronicle.Inquires (e.recording Deed.ofRequest) e :=
  fun _ hr => grows_recording e hr

def Admits (U : Tale) : Prop := ∀ h es h', U.next .quiet h es h' → U h es h'

theorem admits_quiet : Admits .quiet := fun _ _ _ => Tale.quiet_next

theorem admits_steps {p : Program} {id : NodeId} {n : Node} : Admits (Steps p id n) := by
  rintro h es h' ⟨a, h₁, b, rfl, ha, hb, rfl⟩
  exact .append ha (.quiet hb)

end SignalGraph
