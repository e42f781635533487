import SignalGraph.Proofs.Instrumentation.Recorders

/-!
# Watched runs

The interpreter with a ledger.  The ledger agrees with the memo points at all times.  While a memo
point is computed it is busy, and only outputs of lower rank are read for it, so that none is busy
twice.
-/

namespace SignalGraph
namespace Interpreter

variable {σ : Type}

def note (event : Event) : Run (σ × Ledger) Unit :=
  inWorld (World.ask fun s => ((), (s.1, event :: s.2)))

/-- Answers an input of a node as `readWire` does, and notes what the reader receives. -/
def receive (produce : Producer → Run (σ × Ledger) Value) (n : Node) (asked : Producer) :
    Run (σ × Ledger) Value := do
  match n.inputs[asked.output]? with
  | some (.wire w) =>
    let v ← fetch produce w
    note (.received w.source (.value v))
    return v
  | _ => throw (.breach (.noInput n.kind n.pos asked.output))

def noting (produce : Producer → Run (σ × Ledger) Value) (source : Producer) :
    Run (σ × Ledger) Value := do
  note (.computed source)
  produce source

/-- Notes which outputs are computed and what their readers receive. -/
def watching (e : Engine σ) : Recorder (σ × Ledger) where
  engine := e.beside Ledger
  asks produce _ n := receive (noting produce) n
  asking := Node.numbered

theorem note_beside (event : Event) (s : State σ) (l : Ledger) :
    note event (s.beside l) = .ok () (s.beside (event :: l)) := rfl

variable {p : Program} {busy : MemoId → Prop} {rank : NodeId → Nat} {n : Node} {id : NodeId}

def cells (memo : Array (Option Value)) (k : MemoId) : Option Reading :=
  ((memo[k]?).join).map .value

structure Kept (p : Program) (busy : MemoId → Prop) (s : State σ) (l : Ledger) : Prop where
  size : s.memo.size = p.memoPoints.length
  agrees : l.Agrees p busy (cells s.memo)

theorem kept_start (p : Program) (w : World σ) :
    Kept p (fun _ => False) ⟨w, Array.replicate p.memoPoints.length none⟩ [] :=
  ⟨Array.size_replicate, Ledger.agrees_nil p _⟩

theorem steady_kept : Steady (σ := σ) (Kept p busy) := fun _ _ _ _ h => ⟨h.size, h.agrees⟩

def Below (p : Program) (rank : NodeId → Nat) (busy : MemoId → Prop) (id : NodeId) : Prop :=
  ∀ (k : MemoId) (m : MemoPoint), busy k → p.memoPoints[k]? = some m → rank id ≤ rank m.source.node

theorem kept_fill {k : MemoId} {m : MemoPoint} {v : Value} {s : State σ} {l : Ledger}
    (h : Kept p (fun j => j = k ∨ busy j) s l) (hk : p.memoPoints[k]? = some m) (hidle : ¬busy k) :
    Kept p busy { s with memo := s.memo.setIfInBounds k (some v) } l ∧
      cells (s.memo.setIfInBounds k (some v)) k = some (.value v) := by
  have hlt : k < s.memo.size := by
    rw [h.size]
    exact (List.getElem?_eq_some_iff.mp hk).1
  have hcell : cells (s.memo.setIfInBounds k (some v)) k = some (.value v) := by
    unfold cells
    rw [Array.getElem?_setIfInBounds_self_of_lt hlt]
    rfl
  refine ⟨⟨Array.size_setIfInBounds.trans h.size, h.agrees.finish hidle hcell fun j hj => ?_⟩,
    hcell⟩
  unfold cells
  rw [Array.getElem?_setIfInBounds_ne (Ne.symm hj)]

/-- A memo point is computed if it holds nothing, and then it holds what its readers receive. -/
theorem mirrors_memoized (hp : p.Shares) {k : MemoId} {m : MemoPoint}
    {compute' : Producer → Run (σ × Ledger) Value} {compute : Run σ Value}
    (hk : p.memoPoints[k]? = some m) (hidle : ¬busy k)
    (hcompute : Echoes (Kept p fun j => j = k ∨ busy j) (compute' m.source) compute) :
    Mirrors State.beside (Kept p busy)
      (fun v s l => Kept p busy s l ∧ cells s.memo k = some (.value v)) (fun _ _ => True)
      (memoized k (noting compute' m.source)) (memoized k compute) := by
  intro s l hs
  have hmemo : (s.beside l).memo = s.memo := rfl
  unfold memoized
  rw [get_bind, get_bind, hmemo]
  cases hcell : (s.memo[k]?).join with
  | some v => exact ⟨l, rfl, hs, congrArg (Option.map Reading.value) hcell⟩
  | none =>
    have hbegin : Mirrors State.beside (fun s l => Kept p busy s l ∧ (s.memo[k]?).join = none)
        (fun _ => Kept p fun j => j = k ∨ busy j) (fun _ _ => True)
          (noting compute' m.source) compute :=
      mirrors_note (note_beside _) (fun s l h => ⟨h.1.size, h.1.agrees.begin hp hk hidle
        (congrArg (Option.map Reading.value) h.2)⟩) hcompute
    have hfill : ∀ v, Mirrors State.beside (Kept p fun j => j = k ∨ busy j)
        (fun v s l => Kept p busy s l ∧ cells s.memo k = some (.value v)) (fun _ _ => True)
        (do modify fun s => { s with memo := s.memo.setIfInBounds k (some v) }; return v :
          Run (σ × Ledger) Value)
        (do modify fun s => { s with memo := s.memo.setIfInBounds k (some v) }; return v) :=
      fun v s l hs => ⟨l, rfl, kept_fill hs hk hidle⟩
    exact mirrors_bind hbegin hfill s l ⟨hs, hcell⟩

/-- The value on a wire is what its memo point holds. -/
theorem mirrors_fetch (hshares : p.Shares) (hget : p.nodes[id]? = some n) {w : Wire}
    (hw : .wire w ∈ n.inputs) {type : WireType} (hfits : w.Fits p type)
    {compute : Producer → Run (σ × Ledger) Value} {produce : Producer → Run σ Value}
    (hlower : ∀ (k : MemoId) (m : MemoPoint), busy k → p.memoPoints[k]? = some m →
      rank w.source.node < rank m.source.node)
    (hcompute : ∀ busy, Below p rank busy w.source.node →
      Echoes (Kept p busy) (compute w.source) (produce w.source)) :
    Mirrors State.beside (Kept p busy) (fun v s l => Kept p busy s l ∧
      ∀ (k : MemoId) (m : MemoPoint), p.memoPoints[k]? = some m → m.source = w.source →
        cells s.memo k = some (.value v)) (fun _ _ => True) (fetch (noting compute) w)
      (fetch produce w) := by
  have hbelow : Below p rank busy w.source.node := fun k m hbusy hk =>
    Nat.le_of_lt (hlower k m hbusy hk)
  have htagged := hshares.tagged id n w hget hw
  unfold fetch
  cases hmemo : w.memo with
  | none =>
    have hplain : ∀ (k : MemoId) (m : MemoPoint), p.memoPoints[k]? = some m →
      m.source ≠ w.source := by
      intro k m hk hsource
      have hnone := htagged k m hk hsource
      rw [hmemo] at hnone
      cases hnone
    refine mirrors_mono (J := fun _ => Kept p busy) ?_ fun v s l h =>
      ⟨h, fun k m hk hsource => absurd hsource (hplain k m hk)⟩
    exact mirrors_note (note_beside _) (fun s l h => ⟨h.size, h.agrees.plain hplain⟩)
      (hcompute busy hbelow)
  | some k =>
    obtain ⟨m, hk, hsource⟩ := hfits.memo k hmemo
    have hidle : ¬busy k := by
      intro hbusy
      have hlt := hlower k m hbusy hk
      rw [hsource] at hlt
      exact Nat.lt_irrefl _ hlt
    have hrun := hcompute (fun j => j = k ∨ busy j) (by
      rintro j m' (rfl | hbusy) hj
      · rw [hk] at hj
        cases hj
        exact Nat.le_of_eq (congrArg rank (congrArg Producer.node hsource.symm))
      · exact hbelow j m' hbusy hj)
    rw [← hsource] at hrun ⊢
    refine mirrors_mono (mirrors_memoized hshares hk hidle hrun) fun v s l h =>
      ⟨h.1, fun j m' hj hsource' => ?_⟩
    rw [hshares.distinct j k m' m hj hk hsource']
    exact h.2

/-- The reader of a wire receives what its memo point holds. -/
theorem answers_receive (hp : p.WellFormed) (hshares : p.Shares) (hget : p.nodes[id]? = some n)
    {compute : Producer → Run (σ × Ledger) Value} {produce : Producer → Run σ Value}
    (hlower : ∀ w, Operand.wire w ∈ n.inputs → ∀ (k : MemoId) (m : MemoPoint), busy k →
      p.memoPoints[k]? = some m → rank w.source.node < rank m.source.node)
    (hcompute : ∀ w, Operand.wire w ∈ n.inputs → ∀ busy, Below p rank busy w.source.node →
      Echoes (Kept p busy) (compute w.source) (produce w.source)) :
    Answers (Kept p busy) (receive (noting compute) n) produce n := by
  intro i w node hi
  have hw : Operand.wire w ∈ n.inputs := List.mem_of_getElem? hi
  obtain ⟨type, hfits⟩ := (hp.nodes id n hget).fits_of_wire hw
  have hfetch := mirrors_fetch hshares hget hw hfits (hlower w hw) (hcompute w hw)
  unfold receive
  dsimp only
  rw [hi]
  exact mirrors_noted (fun _ => note_beside _) hfetch fun v s l h =>
    ⟨h.1.size, h.1.agrees.receive h.2⟩

theorem echoes_produce (e : Engine σ) (hp : p.WellFormed) (hshares : p.Shares)
    (hrank : p.Falls p.Reads rank) : ∀ {depth : Nat} {source : Producer} {busy : MemoId → Prop},
    Below p rank busy source.node →
    Echoes (Kept p busy) ((watching e).produce p depth source) (produce e p depth source)
  | 0, _, _, _ => mirrors_throw fun _ _ _ => trivial
  | depth + 1, source, busy, hbelow => by
    refine echoes_check fun n hnode => ?_
    have hget := Program.getElem?_of_node hnode
    cases hs : n.statement with
    | true => exact echoes_readSlot n source.output
    | false =>
      have hanswers : Answers (Kept p busy)
          (receive (noting ((watching e).produce p depth)) n) (produce e p depth) n := by
        refine answers_receive hp hshares hget (fun w hw k m hbusy hk => ?_)
          fun w hw busy hbelow' =>
          echoes_produce e hp hshares hrank hbelow'
        have hfall := hrank.falls source.node w.source.node ⟨n, w, hget, hs, hw, rfl⟩
        exact Nat.lt_of_lt_of_le hfall (hbelow k m hbusy hk)
      cases hkind : n.kind with
      | expression x =>
        exact echoes_evaluate steady_kept e (hears_numbered hanswers) source.output x
      | _ => exact mirrors_throw fun _ _ _ => trivial

theorem carries_watching (e : Engine σ) (hp : p.WellFormed) (hshares : p.Shares) :
    (watching e).Carries e p (fun _ => Echoes (Kept p fun _ => False))
      fun _ => Echoes (Kept p fun _ => False) where
  nil := mirrors_done
  cons ha hb := mirrors_bind ha fun _ => hb
  throw := mirrors_throw fun _ _ _ => trivial
  statement {id n st chain' chain} hget hkind hchain := by
    obtain ⟨rank, hrank⟩ := hp.reads
    have hanswers : Answers (Kept p fun _ => False)
        (receive (noting ((watching e).produce p (p.nodes.size + 1))) n)
        (produce e p (p.nodes.size + 1)) n :=
      answers_receive hp hshares hget (fun _ _ _ _ h => h.elim) fun w hw busy hbelow =>
        echoes_produce e hp hshares hrank hbelow
    have hminds : Minds (σ := σ) (Kept p fun _ => False) (Kept p fun _ => False) n :=
      ⟨steady_kept, fun _ _ h => h, fun _ _ _ _ _ h => ⟨h.size, h.agrees⟩, fun _ _ _ h => h⟩
    have hexecute := echoes_execute hminds e p.vars (hears_numbered hanswers)
      (fun ids _ => hchain ids) id hkind
    exact mirrors_note (fun _ _ => rfl) (fun _ _ h => h)
      (mirrors_ended (fun _ _ => rfl) hexecute fun _ _ h => h)
  followed _ ha hb := mirrors_bind ha fun _ => hb

end Interpreter
end SignalGraph
