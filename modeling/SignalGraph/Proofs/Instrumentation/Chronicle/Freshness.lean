import SignalGraph.Proofs.Instrumentation.Chronicle.Basic

/-!
# Freshness

By a fresh chronicle, whatever is read from a memo point has been computed since the frame began,
and whatever reaches a pointer input points to the variable at the end of its chain of lists.
-/

namespace SignalGraph

namespace Program

/-- From a pointer output a chain of lists leads to a block that names a variable, or to a list
whose pointer input is not connected. -/
inductive Traces (p : Program) : Producer → Option NodeId → Prop
  | named {source : Producer} {n : Node} {type : WireType} :
    p.nodes[source.node]? = some n → n.kind = .expression (.getVariable type) →
    Traces p source (some source.node)
  | missing {source : Producer} {n : Node} {type : WireType} :
    p.nodes[source.node]? = some n → n.kind = .expression (.list type) →
    n.inputs[0]? = some .absent → Traces p source none
  | element {source : Producer} {n : Node} {type : WireType} {w : Wire} {found : Option NodeId} :
    p.nodes[source.node]? = some n → n.kind = .expression (.list type) →
    n.inputs[0]? = some (.wire w) → Traces p w.source found → Traces p source found

def variableOf (p : Program) (id : NodeId) : Option VarId :=
  p.nodes[id]?.bind fun n => n.constant.var?

/-- What a reader of that output receives points to the variable at the end of its chain, if the
output is a pointer. -/
def Points (p : Program) (source : Producer) (r : Reading) : Prop :=
  ∀ found, p.Traces source found → r.pointee? = found.bind p.variableOf

variable {p : Program} {source : Producer} {found found' : Option NodeId} {n : Node} {r : Reading}

theorem Traces.kind (h : p.Traces source found) (hget : p.nodes[source.node]? = some n) :
    (∃ type, n.kind = .expression (.getVariable type)) ∨
      ∃ type, n.kind = .expression (.list type) := by
  cases h with
  | named hget' hkind | missing hget' hkind | element hget' hkind =>
    cases hget.symm.trans hget'
    simp only [hkind, Kind.expression.injEq, reduceCtorEq, Expression.getVariable.injEq,
      Expression.list.injEq, exists_eq', exists_false, or_false, false_or]

/-- A chain has one end. -/
theorem Traces.unique (h : p.Traces source found) (h' : p.Traces source found') :
    found = found' := by
  induction h with
  | named hget hkind =>
    cases h' with
    | named => rfl
    | missing hget' hkind' | element hget' hkind' =>
      cases hget.symm.trans hget'
      cases hkind.symm.trans hkind'
  | missing hget hkind hinput =>
    cases h' with
    | named hget' hkind' =>
      cases hget.symm.trans hget'
      cases hkind.symm.trans hkind'
    | missing => rfl
    | element hget' _ hinput' =>
      cases hget.symm.trans hget'
      cases hinput.symm.trans hinput'
  | element hget hkind hinput _ ih =>
    cases h' with
    | named hget' hkind' =>
      cases hget.symm.trans hget'
      cases hkind.symm.trans hkind'
    | missing hget' _ hinput' =>
      cases hget.symm.trans hget'
      cases hinput.symm.trans hinput'
    | element hget' _ hinput' htraces' =>
      cases hget.symm.trans hget'
      cases hinput.symm.trans hinput'
      exact ih htraces'

theorem points_of_kind (hget : p.nodes[source.node]? = some n)
    (hvariable : ∀ type, n.kind ≠ .expression (.getVariable type))
    (hlist : ∀ type, n.kind ≠ .expression (.list type)) : p.Points source r := by
  intro found h
  rcases h.kind hget with ⟨type, hkind⟩ | ⟨type, hkind⟩
  · exact absurd hkind (hvariable type)
  · exact absurd hkind (hlist type)

theorem points_variable {type : WireType} (hget : p.nodes[source.node]? = some n)
    (hkind : n.kind = .expression (.getVariable type)) (hr : r.pointee? = n.constant.var?) :
    p.Points source r := by
  intro found h
  rw [← (Traces.named hget hkind).unique h, hr, Option.bind_some, variableOf, hget,
    Option.bind_some]

/-- An element of a list is in the variable of the list. -/
theorem points_list {type : WireType} (hget : p.nodes[source.node]? = some n)
    (hkind : n.kind = .expression (.list type))
    (habsent : n.inputs[0]? = some .absent → r.pointee? = none)
    (hwire : ∀ w, n.inputs[0]? = some (.wire w) → p.Points w.source r) : p.Points source r := by
  intro found h
  cases h with
  | named hget' hkind' =>
    cases hget.symm.trans hget'
    cases hkind.symm.trans hkind'
  | missing hget' _ hinput =>
    cases hget.symm.trans hget'
    exact habsent hinput
  | element hget' _ hinput htraces =>
    cases hget.symm.trans hget'
    exact hwire _ hinput _ htraces

theorem Points.congr {r' : Reading} (h : p.Points source r) (heq : r'.pointee? = r.pointee?) :
    p.Points source r' := fun found htraces => heq.trans (h found htraces)

end Program

/-- No pointer is followed on the way to an input that takes a pointer. -/
theorem Node.Fits.deref_eq_false {p : Program} {id : NodeId} {n : Node} (hn : n.Fits p id) {i : Nat}
    {pin : Pin} (hpin : n.kind.shape.inputs[i]? = some pin) (hpointer : ∀ b, pin.type ≠ .value b)
    {w : Wire} (hw : n.inputs[i]? = some (.wire w)) : w.deref = false := by
  obtain ⟨o, ho, hfits⟩ := hn.inputs i pin hpin
  cases hw.symm.trans ho
  cases hfits with
  | wire hfits =>
    rcases hfits.read with ⟨hderef, -⟩ | ⟨b, -, -, htype⟩
    · exact hderef
    · exact absurd htype (hpointer b)

/-- An input that takes a pointer is connected or left open. -/
theorem Node.Fits.absent_or_wire {p : Program} {id : NodeId} {n : Node} (hn : n.Fits p id) {i : Nat}
    {pin : Pin} (hpin : n.kind.shape.inputs[i]? = some pin) (hpointer : ∀ b, pin.type ≠ .value b) :
    n.inputs[i]? = some .absent ∨ ∃ w, n.inputs[i]? = some (.wire w) ∧ w.deref = false := by
  obtain ⟨o, ho, hfits⟩ := hn.inputs i pin hpin
  cases o with
  | default v =>
    cases hfits with
    | default htype => exact absurd htype (hpointer _)
  | absent => exact .inl ho
  | wire w => exact .inr ⟨w, ho, hn.deref_eq_false hpin hpointer ho⟩

theorem WireType.toPointer_ne_value (t : WireType) (b : Base) : t.toPointer ≠ .value b := by
  cases t <;> exact fun heq => nomatch heq

namespace Chronicle

variable {p : Program} {l before : Chronicle} {d : Deed} {id : NodeId} {i : Nat} {r : Reading}

/-- After `before` an input may receive this: what was computed in this frame, if its wire comes
from a memo point, and a pointer to the right variable, if it is one. -/
structure Backed (p : Program) (before : Chronicle) (w : Wire) (r : Reading) : Prop where
  computed : ∀ k, w.memo = some k → .computed k r ∈ before.current
  points : p.Points w.source r

/-- A chronicle in which whatever was read came to a connected input, which may receive it. -/
def Lawful (p : Program) (l : Chronicle) : Prop :=
  ∀ (before : Chronicle) (id : NodeId) (i : Nat) (r : Reading) (after : Chronicle),
    l = before ++ .read id i r :: after → ∃ n w, p.nodes[id]? = some n ∧
      n.inputs[i]? = some (.wire w) ∧ before.Backed p w r

theorem lawful_nil : Lawful p [] := by
  intro before id i r after heq
  exact absurd heq.symm (List.append_ne_nil_of_right_ne_nil before (List.cons_ne_nil _ _))

theorem Lawful.concat (h : l.Lawful p)
    (hd : ∀ (id : NodeId) (i : Nat) (r : Reading), d = .read id i r → ∃ n w,
      p.nodes[id]? = some n ∧ n.inputs[i]? = some (.wire w) ∧ l.Backed p w r) :
    Lawful p (l ++ [d]) := by
  intro before id i r after heq
  rcases split_append heq with ⟨rest, rfl, -⟩ | ⟨first, rfl, htail⟩
  · exact h before id i r rest rfl
  · cases first with
    | nil =>
      rw [List.append_nil]
      exact hd id i r (List.cons.inj htail).1
    | cons d' first =>
      have hnil := (List.cons.inj htail).2
      exact absurd hnil.symm (List.append_ne_nil_of_right_ne_nil first (List.cons_ne_nil _ _))

theorem Lawful.quiet (h : l.Lawful p)
    (hd : ∀ (id : NodeId) (i : Nat) (r : Reading), d ≠ .read id i r) : Lawful p (l ++ [d]) :=
  h.concat fun id i r heq => absurd heq (hd id i r)

theorem Lawful.of_append {es : Chronicle} (h : Lawful p (l ++ es)) : l.Lawful p := by
  rintro before id i r after rfl
  exact h before id i r (after ++ es) (List.append_assoc _ _ _)

/-- A lawful chronicle that tells of all that the memo points hold. -/
structure Fresh (p : Program) (cell : MemoId → Option Reading) (l : Chronicle) : Prop where
  lawful : l.Lawful p
  computed : ∀ k r, cell k = some r → .computed k r ∈ l.current
  points : ∀ (k : MemoId) (m : MemoPoint) (r : Reading), p.memoPoints[k]? = some m →
    cell k = some r → p.Points m.source r

variable {cell cell' : MemoId → Option Reading} {k : MemoId} {m : MemoPoint}

theorem fresh_nil : Fresh p (fun _ => none) [] :=
  ⟨lawful_nil, (fun _ _ heq => nomatch heq), fun _ _ _ _ heq => nomatch heq⟩

theorem mem_current_concat {d' : Deed} (h : d' ∈ l.current) (hd : d.isFrame = false) :
    d' ∈ current (l ++ [d]) := by
  rw [current_append_one, hd]
  exact List.mem_append_left _ h

theorem Fresh.concat (h : l.Fresh p cell) (hd : d.neutral = true) : Fresh p cell (l ++ [d]) :=
  ⟨h.lawful.quiet (Deed.ne_read_of_neutral hd),
    fun k r hk => mem_current_concat (h.computed k r hk) (Deed.isFrame_of_neutral hd), h.points⟩

/-- A frame begins with empty memo points. -/
theorem Lawful.frame (h : l.Lawful p) : Fresh p (fun _ => none) (l ++ [.frame]) :=
  ⟨h.quiet (fun _ _ _ => Deed.noConfusion), (fun _ _ heq => nomatch heq),
    fun _ _ _ _ heq => nomatch heq⟩

theorem mem_current_one (h : d.isFrame = false) : d ∈ current (l ++ [d]) := by
  rw [current_append_one, h]
  exact List.mem_append_right _ (List.mem_singleton.mpr rfl)

/-- A memo point comes to hold what has been computed for it. -/
theorem Fresh.fill (h : l.Fresh p cell) (hk : p.memoPoints[k]? = some m)
    (hcomputed : .computed k r ∈ l.current) (hr : p.Points m.source r) (hcell : cell' k = some r)
    (hsame : ∀ j, j ≠ k → cell' j = cell j) : Fresh p cell' l := by
  refine ⟨h.lawful, fun j r' hj => ?_, fun j m' r' hm hj => ?_⟩
  · by_cases heq : j = k
    · subst heq
      cases hcell.symm.trans hj
      exact hcomputed
    · exact h.computed j r' (hsame j heq ▸ hj)
  · by_cases heq : j = k
    · subst heq
      cases hcell.symm.trans hj
      cases hk.symm.trans hm
      exact hr
    · exact h.points j m' r' hm (hsame j heq ▸ hj)

theorem Fresh.append : ∀ {l es : Chronicle}, l.Fresh p cell → (∀ d ∈ es, d.neutral = true) →
    Fresh p cell (l ++ es)
  | l, [], h, _ => by
    rw [List.append_nil]
    exact h
  | l, d :: es, h, hes => by
    have hone : Fresh p cell (l ++ [d]) := h.concat (hes d List.mem_cons_self)
    rw [List.append_cons]
    exact hone.append fun d hd => hes d (List.mem_cons_of_mem _ hd)

theorem Fresh.ask {es : Chronicle} (h : l.Fresh p cell) (hes : ∀ d ∈ es, d = .asked) :
    Fresh p cell (l ++ es) := h.append fun d hd => hes d hd ▸ rfl

/-- An input receives what the memo point of its wire holds. -/
theorem Fresh.read {n : Node} {w : Wire} (h : l.Fresh p cell) (hget : p.nodes[id]? = some n)
    (hinput : n.inputs[i]? = some (.wire w)) (hmemo : ∀ k, w.memo = some k → cell k = some r)
    (hr : p.Points w.source r) : Fresh p cell (l ++ [.read id i r]) := by
  have hlawful : Lawful p (l ++ [.read id i r]) := by
    refine h.lawful.concat fun id' i' r' heq => ?_
    cases heq
    exact ⟨n, w, hget, hinput, fun k hk => h.computed k r (hmemo k hk), hr⟩
  exact ⟨hlawful, fun k r' hk => mem_current_concat (h.computed k r' hk) rfl, h.points⟩

end Chronicle
end SignalGraph
