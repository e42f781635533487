import SignalGraph.Proofs.Emulation.Equivalence
import SignalGraph.Proofs.Instrumentation.Chronicle.Freshness
import SignalGraph.Proofs.Instrumentation.Chronicle.Tellings
import SignalGraph.Proofs.Instrumentation.Ledger.Runs

/-!
# Chronicled runs

The interpreter with a chronicle.  It does what the interpreter does, its chronicle is one that
`Ran` admits, and it is fresh.
-/

namespace SignalGraph
namespace Interpreter

open Chronicle

variable {σ α : Type}

def tell (d : Deed) : Run (σ × Chronicle) Unit :=
  inWorld (World.ask fun s => ((), (s.1, s.2 ++ [d])))

/-- Computes the output of a memo point, and writes down what it is. -/
def computing (k : MemoId) (compute : Run (σ × Chronicle) Value) : Run (σ × Chronicle) Value := do
  let v ← compute
  tell (.computed k (.value v))
  return v

def fetchTold (produce : Producer → Run (σ × Chronicle) Value) (w : Wire) :
    Run (σ × Chronicle) Value :=
  match w.memo with
  | some k => memoized k (computing k (produce w.source))
  | none => produce w.source

/-- Answers an input of a numbered node, and writes down what the input receives. -/
def hearing (produce : Producer → Run (σ × Chronicle) Value) (id : NodeId) (n : Node)
    (asked : Producer) : Run (σ × Chronicle) Value := do
  match n.inputs[asked.output]? with
  | some (.wire w) =>
    let v ← fetchTold produce w
    tell (.read id asked.output (.value v))
    return v
  | _ => throw (.breach (.noInput n.kind n.pos asked.output))

/-- Writes down what inputs receive and what is computed for memo points, next to when statements
begin, when one of their branches does, and when they end. -/
def telling (e : Engine σ) : Recorder (σ × Chronicle) where
  engine := e.recording Deed.ofRequest
  asks := hearing
  asking := Node.numbered
  entered id := tell (.entered id)
  branched id := tell (.branched id)
  left id := tell (.left id)

structure Recalls (p : Program) (s : State σ) (l : Chronicle) : Prop where
  size : s.memo.size = p.memoPoints.length
  fresh : l.Fresh p (cells s.memo)

abbrev Tells (p : Program) (T : α → Tale) (run' : Run (σ × Chronicle) α) (run : Run σ α) : Prop :=
  SignalGraph.Tells State.beside (fun s => s.world.holdings) (Recalls p) T run' run

abbrev Since (p : Program) (h : Holdings) (l : Chronicle) (T : Tale) : State σ → Chronicle → Prop :=
  SignalGraph.Since (fun s => s.world.holdings) (Recalls p) h l T

variable {p : Program} {e : Engine σ} {id : NodeId} {n : Node} {T T' : α → Tale}
  {x' : Run (σ × Chronicle) α} {x : Run σ α}

theorem tell_beside (d : Deed) (s : State σ) (l : Chronicle) :
    tell d (s.beside l) = .ok () (s.beside (l ++ [d])) := rfl

theorem Recalls.tell {d : Deed} (hd : d.neutral = true) {s : State σ}
    {l : Chronicle} (h : Recalls p s l) : Recalls p s (l ++ [d]) :=
  ⟨h.size, h.fresh.concat hd⟩

theorem mirrors_tell {I E : State σ → Chronicle → Prop} {J J' : α → State σ → Chronicle → Prop}
    {deed : α → Deed} (hx : Mirrors State.beside I J E x' x)
    (h : ∀ a s l, J a s l → J' a s (l ++ [deed a])) :
    Mirrors State.beside I J' E (do let a ← x'; tell (deed a); return a) x :=
  mirrors_noted (fun a => tell_beside (deed a)) hx h

theorem tells_tell {d : Deed} (hd : d.neutral = true) (hx : Tells p T x' x)
    (hT : ∀ a h es h', T a h es h' → T' a h (d :: es) h') : Tells p T' (do tell d; x') x :=
  tells_note (tell_beside d) (fun _ _ h => h.tell hd) hx hT

theorem tells_check {β : Type} {r : Except Fault β} {f' : β → Run (σ × Chronicle) α}
    {f : β → Run σ α} (h : ∀ b, r = .ok b → Tells p T (f' b) (f b)) :
    Tells p T (check r >>= f') (check r >>= f) :=
  fun h₀ l => echoes_check fun b hb => h b hb h₀ l

variable {U : Tale} {h₀ : Holdings} {l₀ : Chronicle}

theorem bears_since (hU : Admits U) : Bears (σ := σ) Inquires (Since p h₀ l₀ U) := by
  rintro s _ engine _ ⟨es, rfl, hes⟩ ⟨⟨es₀, rfl, hT⟩, hB⟩
  refine ⟨⟨es₀ ++ es, List.append_assoc _ _ _, ?_⟩, hB.size, hB.fresh.ask hes⟩
  exact hU _ _ _ (Tale.next_intro hT ⟨quiet_of_asked hes, rfl⟩)

def Gives (p : Program) (source : Producer) (v : Value) : Tale :=
  Tale.quiet.given (p.Points source (.value v))

def Hearing (p : Program) (id : NodeId) (i : Nat) (w : Wire) (v : Value) : Tale := fun h es h' =>
  Gives p w.source v h es h' ∧ .read id i (.value v) ∈ es

structure Evaluating (p : Program) (id : NodeId) (n : Node) (i : Nat) (v : Value) (h : Holdings)
    (es : Chronicle) (h' : Holdings) : Prop where
  quiet : Tale.quiet h es h'
  heard : ∀ w, n.inputs[i]? = some (.wire w) → ∃ r, .read id i r ∈ es ∧
    (w.deref = false → r = .value v ∧ p.Points w.source r)
  absent : n.inputs[i]? = some .absent → v = .void

def Outputs (p : Program) (compute : Producer → Run (σ × Chronicle) Value)
    (produce : Producer → Run σ Value) (n : Node) : Prop :=
  ∀ w, .wire w ∈ n.inputs → Tells p (Gives p w.source) (compute w.source) (produce w.source)

variable {compute : Producer → Run (σ × Chronicle) Value} {produce : Producer → Run σ Value}

/-- A memo point is computed if it holds nothing, and then it holds what its readers receive. -/
theorem mirrors_computing {k : MemoId} {m : MemoPoint} (hk : p.memoPoints[k]? = some m)
    {compute' : Run (σ × Chronicle) Value} {compute : Run σ Value}
    (hcompute : Tells p (Gives p m.source) compute' compute) :
    Mirrors State.beside (Since p h₀ l₀ .stay)
      (fun v s l => Since p h₀ l₀ (Gives p m.source v) s l ∧ cells s.memo k = some (.value v))
      (fun _ _ => True) (memoized k (computing k compute')) (memoized k compute) := by
  intro s l hs
  have hmemo : (s.beside l).memo = s.memo := rfl
  unfold memoized
  rw [get_bind, get_bind, hmemo]
  obtain ⟨⟨rfl, rfl⟩, hB⟩ := since_stay.mp hs
  cases hheld : (s.memo[k]?).join with
  | some v =>
    have hv : cells s.memo k = some (.value v) := congrArg (Option.map Reading.value) hheld
    exact ⟨l, rfl, ⟨⟨[], (List.append_nil l).symm,
      ⟨quiet_nil, rfl⟩, hB.fresh.points k m _ hk hv⟩, hB⟩,
      hv⟩
  | none =>
    have hcomputed : Mirrors State.beside (Since p s.world.holdings l .stay)
        (fun v s' l' => Since p s.world.holdings l (Gives p m.source v) s' l' ∧
          .computed k (.value v) ∈ l'.current) (fun _ _ => True)
          (computing k compute') compute := by
      refine mirrors_tell (hcompute _ _) ?_
      rintro v s' _ ⟨⟨es, rfl, ⟨hes, heq⟩, hpoints⟩, hB'⟩
      refine ⟨⟨⟨es ++ [.computed k (.value v)], List.append_assoc _ _ _,
        ⟨quiet_append hes (quiet_one rfl), heq⟩, hpoints⟩,
        hB'.tell rfl⟩, ?_⟩
      exact mem_current_one rfl
    refine mirrors_bind hcomputed (fun v => ?_) s l hs
    rintro s' l' ⟨⟨⟨es, heq, hquiet, hpoints⟩, hB'⟩, hin⟩
    have hlt : k < s'.memo.size := by
      rw [hB'.size]
      exact (List.getElem?_eq_some_iff.mp hk).1
    have hfilled : cells (s'.memo.setIfInBounds k (some v)) k = some (.value v) := by
      unfold cells
      rw [Array.getElem?_setIfInBounds_self_of_lt hlt]
      rfl
    have hothers : ∀ j, j ≠ k →
        cells (s'.memo.setIfInBounds k (some v)) j = cells s'.memo j := by
      intro j hj
      unfold cells
      rw [Array.getElem?_setIfInBounds_ne (Ne.symm hj)]
    exact ⟨l', rfl, ⟨⟨es, heq, hquiet, hpoints⟩, Array.size_setIfInBounds.trans hB'.size,
      hB'.fresh.fill hk hin hpoints hfilled hothers⟩, hfilled⟩

/-- A reader receives what the memo point of its wire holds. -/
theorem mirrors_fetchTold (hp : p.WellFormed) {w : Wire} {type : WireType} (hw : w.Fits p type)
    (hcompute : Tells p (Gives p w.source) (compute w.source) (produce w.source)) :
    Mirrors State.beside (Since p h₀ l₀ .stay)
      (fun v s l => Since p h₀ l₀ (Gives p w.source v) s l ∧
        ∀ k, w.memo = some k → cells s.memo k = some (.value v)) (fun _ _ => True)
      (fetchTold compute w) (fetch produce w) := by
  unfold fetchTold fetch
  cases hmemo : w.memo with
  | none => exact mirrors_mono (hcompute h₀ l₀) fun v s l hs => ⟨hs, fun k heq => nomatch heq⟩
  | some k =>
    obtain ⟨m, hk, hsource, -⟩ := hw.memoPoint hp hmemo
    rw [← hsource] at hcompute ⊢
    refine mirrors_mono (mirrors_computing hk hcompute) fun v s l hs => ⟨hs.1, fun k' heq => ?_⟩
    cases heq
    exact hs.2

theorem tells_hearing (hp : p.WellFormed) (hget : p.nodes[id]? = some n)
    (houtputs : Outputs p compute produce n) {i : Nat} {w : Wire} (node : NodeId)
    (hi : n.inputs[i]? = some (.wire w)) :
    Tells p (Hearing p id i w) (hearing compute id n ⟨node, i⟩) (fetch produce w) := by
  have hw : .wire w ∈ n.inputs := List.mem_of_getElem? hi
  obtain ⟨type, hfits⟩ := (hp.nodes id n hget).fits_of_wire hw
  intro h₀ l₀
  unfold hearing
  dsimp only
  rw [hi]
  refine mirrors_tell (mirrors_fetchTold hp hfits (houtputs w hw)) ?_
  rintro v s _ ⟨⟨⟨es, rfl, ⟨hes, rfl⟩, hpoints⟩, hB⟩, hcell⟩
  refine ⟨⟨es ++ [.read id i (.value v)], List.append_assoc _ _ _,
    ⟨⟨quiet_append hes (quiet_one rfl), rfl⟩, hpoints⟩, ?_⟩, hB.size,
    hB.fresh.read hget hi hcell hpoints⟩
  exact List.mem_append_right _ (List.mem_singleton.mpr rfl)

theorem tells_readOperand (hp : p.WellFormed) (hget : p.nodes[id]? = some n)
    (houtputs : Outputs p compute produce n) {i : Nat} {o : Operand} (ho : n.inputs[i]? = some o) :
    Tells p (Evaluating p id n i) (readOperand (hearing compute id n) (o.numbered i))
      (readOperand produce o) := by
  cases o with
  | default v =>
    refine tells_pure fun h => ⟨⟨quiet_nil, rfl⟩, fun w hw => ?_, fun habsent => ?_⟩
    · cases ho.symm.trans hw
    · cases ho.symm.trans habsent
  | absent =>
    refine tells_pure fun h => ⟨⟨quiet_nil, rfl⟩, fun w hw => ?_, fun _ => rfl⟩
    cases ho.symm.trans hw
  | wire w =>
    rw [Operand.numbered, readOperand, readOperand, readWire_eq, readWire_eq]
    have hheard := tells_hearing hp hget houtputs w.source.node ho
    have hload : ∀ v, Tells p (fun u h es h' => Tale.stay h es h' ∧ (w.deref = false → u = v))
        (if w.deref then load w.type v else pure v : Run (σ × Chronicle) Value)
        (if w.deref then load w.type v else pure v) := by
      intro v
      cases hderef : w.deref with
      | false => exact tells_pure fun h => ⟨⟨rfl, rfl⟩, fun _ => rfl⟩
      | true =>
        refine fun h l => mirrors_mono (echoes_load w.type v) fun u s m hs => ?_
        exact since_mono (fun _ _ _ hstay => ⟨hstay, Bool.noConfusion⟩) hs
    refine tells_bind (V := fun v u h es h' => Tale.stay h es h' ∧ (w.deref = false → u = v)) hheard
      hload ?_
    rintro v u h es h' ⟨a, h₁, b, rfl, ⟨⟨⟨ha, rfl⟩, hpoints⟩, hread⟩, ⟨rfl, rfl⟩, hu⟩
    rw [List.append_nil]
    refine ⟨⟨ha, rfl⟩, fun w' hw' => ?_, fun habsent => ?_⟩
    · cases ho.symm.trans hw'
      exact ⟨_, hread, fun hderef => ⟨congrArg Reading.value (hu hderef).symm, hpoints⟩⟩
    · cases ho.symm.trans habsent

theorem tells_input (hp : p.WellFormed) (hget : p.nodes[id]? = some n)
    (houtputs : Outputs p compute produce n) (i : Nat) :
    Tells p (Evaluating p id n i) (input (hearing compute id n) n.numbered i)
      (input produce n i) := by
  unfold input
  rw [input_numbered]
  cases ho : n.inputs[i]? with
  | none =>
    unfold Node.input
    rw [ho]
    exact tells_throw
  | some o =>
    rw [Node.input_eq_ok ho]
    exact tells_readOperand hp hget houtputs ho

/-- Reading inputs keeps whatever goes on when outputs are computed. -/
theorem hears_hearing (hp : p.WellFormed) (hget : p.nodes[id]? = some n)
    (houtputs : Outputs p compute produce n) (hU : Admits U) :
    Hears (Since p h₀ l₀ U) (hearing compute id n) n.numbered produce n := by
  refine hears_numbered fun i w node hi => ?_
  refine (tells_hearing hp hget houtputs node hi).keeps (fun v h es h' hnext => ?_) h₀ l₀
  obtain ⟨a, h₁, b, rfl, hU', ⟨hquiet, -⟩, -⟩ := hnext
  exact hU _ _ _ (Tale.next_intro hU' hquiet)

theorem tells_quietly {source : Producer}
    (hvariable : ∀ type, n.kind ≠ .expression (.getVariable type))
    (hlist : ∀ type, n.kind ≠ .expression (.list type)) (hget : p.nodes[source.node]? = some n)
    {run' : Run (σ × Chronicle) Value} {run : Run σ Value}
    (h : ∀ h₀ l₀, Echoes (Since p h₀ l₀ .quiet) run' run) : Tells p (Gives p source) run' run :=
  (tells_of_keeps (fun _ => ⟨quiet_nil, rfl⟩) h).mono fun _ _ _ _ hquiet =>
    ⟨hquiet, Program.points_of_kind hget hvariable hlist⟩

theorem pointee?_element (base : Value) (offset : Binary32) :
    (Reading.value (element base offset)).pointee? = (Reading.value base).pointee? := by
  cases base <;> rfl

theorem tells_element (hp : p.WellFormed) (hget : p.nodes[id]? = some n)
    (houtputs : Outputs p compute produce n) (base : Value) :
    Tells p (fun v h es h' => Tale.quiet h es h' ∧ ∃ offset, v = element base offset)
      (do return element base (← input (hearing compute id n) n.numbered 1).asFloat)
      (do return element base (← input produce n 1).asFloat) := by
  have hdone : ∀ offset : Value, Tells p
      (fun v h es h' => Tale.stay h es h' ∧ v = element base offset.asFloat)
      (pure (element base offset.asFloat) : Run (σ × Chronicle) Value)
      (pure (element base offset.asFloat)) :=
    fun offset => tells_pure fun _ => And.intro ⟨rfl, rfl⟩ (Eq.refl (element base offset.asFloat))
  refine tells_bind (tells_input hp hget houtputs 1) hdone ?_
  rintro offset v h es h' ⟨a, h₁, b, rfl, ha, ⟨rfl, rfl⟩, rfl⟩
  rw [List.append_nil]
  exact ⟨ha.quiet, _, rfl⟩

theorem tells_list (hp : p.WellFormed) {source : Producer} (hget : p.nodes[source.node]? = some n)
    {type : WireType} (hkind : n.kind = .expression (.list type))
    (houtputs : Outputs p compute produce n) :
    Tells p (Gives p source)
      (evaluate (e.recording Deed.ofRequest)
        (hearing compute source.node n) n.numbered source.output
        (.list type))
      (evaluate e produce n source.output (.list type)) := by
  have hpin : n.kind.shape.inputs[0]? = some { type := type.toPointer, name := "Variable" } := by
    rw [hkind]
    rfl
  have hpointer := WireType.toPointer_ne_value type
  refine tells_bind (tells_input hp hget houtputs 0) (tells_element hp hget houtputs) ?_
  rintro base v h es h' ⟨a, h₁, b, rfl, ha, hb, offset, rfl⟩
  refine ⟨Tale.quiet_next (Tale.next_intro ha.quiet hb), ?_⟩
  refine Program.points_list hget hkind (fun habsent => ?_) fun w hw => ?_
  · rw [pointee?_element, ha.absent habsent]
    rfl
  · obtain ⟨r, -, hr⟩ := ha.heard w hw
    obtain ⟨rfl, hpoints⟩ := hr ((hp.nodes _ n hget).deref_eq_false hpin hpointer hw)
    exact hpoints.congr (pointee?_element base offset)

theorem tells_evaluate (hp : p.WellFormed) {source : Producer}
    (hget : p.nodes[source.node]? = some n)
    {x : Expression} (hkind : n.kind = .expression x) (houtputs : Outputs p compute produce n) :
    Tells p (Gives p source)
      (evaluate (e.recording Deed.ofRequest)
        (hearing compute source.node n) n.numbered source.output x)
      (evaluate e produce n source.output x) := by
  have hplain : (∀ type, x ≠ .getVariable type) →
    (∀ type, x ≠ .list type) → Tells p (Gives p source)
      (evaluate (e.recording Deed.ofRequest)
        (hearing compute source.node n) n.numbered source.output x)
      (evaluate e produce n source.output x) := by
    intro hvariable hlist
    refine tells_quietly (fun type heq => ?_) (fun type heq => ?_) hget fun h₀ l₀ =>
      echoes_expression growth_inquires (answering_recording e) (bears_since admits_quiet)
        (hears_hearing hp hget houtputs admits_quiet) source.output x
    · exact hvariable type (Kind.expression.inj (hkind.symm.trans heq))
    · exact hlist type (Kind.expression.inj (hkind.symm.trans heq))
  cases x with
  | getVariable type =>
    have hconstant : n.numbered.constant = n.constant := rfl
    unfold evaluate
    rw [hconstant]
    cases hvar : n.constant.var? with
    | some var =>
      exact tells_pure fun h => ⟨⟨quiet_nil, rfl⟩, Program.points_variable hget hkind hvar.symm⟩
    | none =>
      exact tells_pure fun h => ⟨⟨quiet_nil, rfl⟩, Program.points_variable hget hkind hvar.symm⟩
  | list type => exact tells_list hp hget hkind houtputs
  | _ => exact hplain (fun _ heq => nomatch heq) fun _ heq => nomatch heq

theorem tells_produce (e : Engine σ) (hp : p.WellFormed) : ∀ {depth : Nat} {source : Producer},
    Tells p (Gives p source) ((telling e).produce p depth source)
      (Interpreter.produce e p depth source)
  | 0, _ => tells_throw
  | depth + 1, source => by
    refine tells_check fun n hnode => ?_
    have hget := Program.getElem?_of_node hnode
    cases hs : n.statement with
    | true =>
      obtain ⟨st, hkind⟩ := (hp.nodes _ n hget).statementKind hs
      refine tells_quietly (fun type heq => ?_) (fun type heq => ?_) hget fun h₀ l₀ =>
        echoes_readSlot n source.output
      · cases hkind.symm.trans heq
      · cases hkind.symm.trans heq
    | false =>
      cases hkind : n.kind with
      | expression x => exact tells_evaluate hp hget hkind fun w _ => tells_produce e hp
      | _ => exact tells_throw

end Interpreter
end SignalGraph
