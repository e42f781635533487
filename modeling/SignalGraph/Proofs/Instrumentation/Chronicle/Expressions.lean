import SignalGraph.Proofs.Instrumentation.Chronicle.Outputs

/-!
# Chronicled expressions

The code of an output tells what computing it does, and the function of a memo point leaves what has
been computed for it in the frame.
-/

namespace SignalGraph
namespace Compiler

open Wasm Machine Chronicle

variable {σ : Type} {e : Engine σ} {p : Program} {c : Wasm.Module} {frames : Nat} {n : Node}
  {source : Producer} {k : MemoId} {m : MemoPoint}
  {call' : Nat → List Lane → Exec (World (σ × Chronicle)) (List Lane)}
  {call : Nat → List Lane → Exec (World σ) (List Lane)} {code' code : Code}
  {told produce : Producer → Emit Code}

theorem pairs_quietly (hc : Compiled p c) (h : Tends e p c frames call' call) {type : WireType}
    (hget : p.nodes[source.node]? = some n) (hvariable : ∀ t, n.kind ≠ .expression (.getVariable t))
    (hlist : ∀ t, n.kind ≠ .expression (.list t)) {emit' emit : Emit Code}
    (hpairs : ∀ h₀ l₀, Pairs emit' emit (Tracks call' call 0 (Since p frames h₀ l₀ .quiet)
      (Since p frames h₀ l₀ .quiet)))
    (hemits : Emits (target p) emit [] type.lanes) :
    Pairs emit' emit (Renders p frames call' call type.lanes.length
      fun lanes => Delivers p frames source (.lanes lanes)) := by
  have : Nonempty (Holdings × Chronicle) := ⟨World.start p (), []⟩
  have hall := pairs_forall fun s : Holdings × Chronicle => hpairs s.1 s.2
  intro l code l' heq
  obtain ⟨code', heq', hcode⟩ := hall l code l' heq
  refine ⟨code', heq',
    Renders.mono (renders_of_tracks (piles_of_emits hc h.heights hemits l code l' heq)
    fun h₀ l₀ => hcode (h₀, l₀)) fun lanes h es h' hquiet => ⟨hquiet, fun _ => ?_⟩⟩
  exact Program.points_of_kind hget hvariable hlist

theorem renders_variablePointer (hp : p.WellFormed) (hvars : p.vars.length ≤ 2147483648)
    (hget : p.nodes[source.node]? = some n) {t : WireType}
    (hkind : n.kind = .expression (.getVariable t)) :
    Renders p frames call' call 2 (fun lanes => Delivers p frames source (.lanes lanes))
      (variablePointer n.constant) (variablePointer n.constant) := by
  obtain ⟨var, v, hconstant, hvar, -⟩ := (hp.nodes _ n hget).named t.toValue (by rw [hkind]; rfl)
  have hlt : var < 2147483648 :=
    Nat.lt_of_lt_of_le (List.getElem?_eq_some_iff.mp hvar).1 hvars
  have hcode : variablePointer n.constant =
      ([.i32 (Int32.ofNat var), .i32 0] : List Lane).map .const := by
    rw [hconstant]
    rfl
  have hlen : 2 = ([.i32 (Int32.ofNat var), .i32 0] : List Lane).length := rfl
  rw [hcode, hlen]
  refine renders_consts fun h => ⟨⟨quiet_nil, rfl⟩, fun _ => Program.points_variable hget hkind ?_⟩
  rw [hconstant]
  show Option.map _ (Lanes.toPointer (Int32.ofNat var) 0) = _
  rw [Lanes.toPointer_ofNat hlt]
  rfl

theorem operands_two (produce : Producer → Emit Code) (n : Node) :
    operands produce n 2 = do
      let first ← operand produce n 0
      let second ← operand produce n 1
      return first ++ second := by
  unfold operands
  rw [show List.range 2 = [0, 1] from rfl]
  simp only [List.mapM_cons, List.mapM_nil, bind_assoc, pure_bind, List.flatten_cons,
    List.flatten_nil,
    List.append_nil]

/-- An element of a list is in the variable of the list. -/
theorem pointee?_lanes (var index index' : Lane) :
    (Reading.lanes [var, index]).pointee? = (Reading.lanes [var, index']).pointee? := by
  show Option.map _ (Lanes.toPointer _ _) = Option.map _ (Lanes.toPointer _ _)
  unfold Lanes.toPointer
  split <;> rfl

/-- The index of an element is added to that of the list. -/
theorem returns_element (var index offset : Lane) (s : List Lane) :
    Returns (instrs call [.numeric .f32Floor, .numeric .i32TruncSatF32S, .numeric .i32Add]
      (offset :: index :: var :: s)) fun outcome =>
        ∃ index', outcome = .next (index' :: var :: s) := by
  intro t outcome t' hrun
  cases offset with
  | i32 i => cases hrun
  | f32 x =>
    cases index with
    | f32 y => cases hrun
    | i32 i =>
      cases hrun
      exact ⟨_, rfl⟩

theorem tells_element (h : Tends e p c frames call' call) (var index offset : Lane)
    (s : List Lane) :
    Tells p frames (Leaving s 2 fun lanes h es h' => Tale.quiet h es h' ∧
        ∃ index', lanes = [var, index'])
      (instrs call' [.numeric .f32Floor, .numeric .i32TruncSatF32S, .numeric .i32Add]
        (offset :: index :: var :: s))
      (instrs call [.numeric .f32Floor, .numeric .i32TruncSatF32S, .numeric .i32Add]
        (offset :: index :: var :: s)) := by
  have hcalls : Calls Plain 0 [.numeric .f32Floor, .numeric .i32TruncSatF32S, .numeric .i32Add] :=
    calls_cons (fun _ => trivial)
      (calls_cons (fun _ => trivial) (calls_cons (fun _ => trivial) calls_nil))
  refine (tells_returns h hcalls (returns_element var index offset s)).mono ?_
  rintro outcome h es h' ⟨⟨index', rfl⟩, hquiet⟩
  exact ⟨[var, index'], rfl, rfl, hquiet, index', rfl⟩

theorem pairs_list (hp : p.WellFormed) (hc : Compiled p c) (h : Tends e p c frames call' call)
    (hget : p.nodes[source.node]? = some n) {t : WireType} (hkind : n.kind = .expression (.list t))
    (houtputs : Outputs p frames call' call told produce n) :
    Pairs
      (evaluate (heardCode (target p) told source.node n) n.numbered source.output (.list t))
      (evaluate produce n source.output (.list t))
      (Renders p frames call' call 2 fun lanes => Delivers p frames source (.lanes lanes)) := by
  have hfirst : n.kind.shape.inputs[0]? = some { type := t.toPointer, name := "Variable" } := by
    rw [hkind]
    rfl
  have hsecond : n.kind.shape.inputs[1]? = some { type := .value .float, name := "Index" } := by
    rw [hkind]
    rfl
  have hpointer := WireType.toPointer_ne_value t
  have hn := hp.nodes _ n hget
  obtain ⟨b, rfl⟩ : ∃ b, t = .value b := by
    have hplain := hn.plain
    rw [hkind] at hplain
    exact WireType.isValue_iff.mp hplain
  unfold evaluate
  dsimp only
  rw [operands_two, operands_two, bind_assoc, bind_assoc]
  refine pairs_bind (pairs_operand hp hc h hget houtputs hfirst) fun base' base hbase => ?_
  rw [bind_assoc, bind_assoc]
  refine pairs_bind (pairs_operand hp hc h hget houtputs hsecond) fun index' index hindex => ?_
  refine pairs_pure fun s => ?_
  rw [List.append_assoc, List.append_assoc]
  have hrest : ∀ lanes : List Lane, lanes.length = 2 →
      Tells p frames (Leaving s 2 fun outs h es h' => Tale.quiet h es h' ∧
          (Reading.lanes outs).pointee? = (Reading.lanes lanes).pointee?)
        (instrs call' (index' ++ [.numeric .f32Floor, .numeric .i32TruncSatF32S, .numeric .i32Add])
          (lanes.reverse ++ s))
        (instrs call (index ++ [.numeric .f32Floor, .numeric .i32TruncSatF32S, .numeric .i32Add])
          (lanes.reverse ++ s)) := by
    intro lanes hlen
    obtain ⟨var, i, rfl⟩ := List.length_eq_two.mp hlen
    refine renders_bind (V := fun _ => Leaving s 2 fun lanes h es h' => Tale.quiet h es h' ∧
      ∃ index', lanes = [var, index']) hindex (fun offset hlen' => ?_) ?_
    · obtain ⟨x, rfl⟩ := List.length_eq_one_iff.mp hlen'
      exact tells_element h var i x s
    · rintro offset outcome h es h' - ⟨x, h₁, y, rfl, hT, outs, rfl, hlen', hquiet, i', rfl⟩
      exact ⟨[var, i'], rfl, hlen', Tale.quiet_next (Tale.next_intro hT.quiet hquiet),
        pointee?_lanes var i' i⟩
  refine renders_bind hbase hrest ?_
  rintro lanes outcome h es h' hlen ⟨x, h₁, y, rfl, hT, outs, rfl, hlen', hquiet, hvariable⟩
  refine ⟨outs, rfl, hlen', Tale.quiet_next (Tale.next_intro hT.quiet hquiet), fun hlt => ?_⟩
  refine Program.points_list hget hkind (fun habsent => ?_) fun w hw => ?_
  · rw [hvariable, hT.absent _ hfirst rfl habsent]
    rfl
  · obtain ⟨r, -, hr⟩ := hT.heard w hw
    obtain ⟨rfl, hpoints⟩ := hr (hn.deref_eq_false hfirst hpointer hw)
    exact (hpoints hlt).congr hvariable

theorem pairs_told (hp : p.WellFormed) (hvars : p.vars.length ≤ 2147483648) (hc : Compiled p c)
    (h : Tends e p c frames call' call) (hget : p.nodes[source.node]? = some n) {x : Expression}
    (hkind : n.kind = .expression x) {pin : Pin}
    (hpin : x.shape.dataOutputs[source.output]? = some pin)
    (houtputs : Outputs p frames call' call told produce n) (hcoded : Coded (target p) produce n) :
    Pairs (evaluate (heardCode (target p) told source.node n) n.numbered source.output x)
      (evaluate produce n source.output x)
      (Renders p frames call' call pin.type.lanes.length
        fun lanes => Delivers p frames source (.lanes lanes)) := by
  have hn := hp.nodes _ n hget
  have hplain : (∀ t, x ≠ .getVariable t) → (∀ t, x ≠ .list t) →
      Pairs (evaluate (heardCode (target p) told source.node n) n.numbered source.output x)
        (evaluate produce n source.output x)
        (Renders p frames call' call pin.type.lanes.length
          fun lanes => Delivers p frames source (.lanes lanes)) := by
    intro hvariable hlist
    refine pairs_quietly hc h hget (fun t heq => ?_) (fun t heq => ?_) (fun h₀ l₀ => ?_)
      (emits_evaluate (x := target p) hp hn hcoded hkind hpin)
    · exact hvariable t (Kind.expression.inj (hkind.symm.trans heq))
    · exact hlist t (Kind.expression.inj (hkind.symm.trans heq))
    · exact pairs_evaluate (h.hosts.serves admits_quiet) callsPlain_plain
        (feeds_numbered hp hc h hget houtputs admits_quiet) source.output x
  cases x with
  | getVariable t =>
    obtain ⟨b, rfl⟩ := WireType.isValue_iff.mp (hkind ▸ hn.plain)
    rw [eq_of_single hpin]
    have hpointer : Renders p frames call' call 2
        (fun lanes => Delivers p frames source (.lanes lanes)) (variablePointer n.constant)
        (variablePointer n.constant) := renders_variablePointer hp hvars hget hkind
    exact pairs_pure hpointer
  | list t =>
    obtain ⟨b, rfl⟩ := WireType.isValue_iff.mp (hkind ▸ hn.plain)
    rw [eq_of_single hpin]
    exact pairs_list hp hc h hget hkind houtputs
  | _ => exact hplain (fun _ heq => nomatch heq) fun _ heq => nomatch heq

/-- By induction on the length of paths along the wires. -/
theorem pairs_toldProduce (hp : p.WellFormed) (hvars : p.vars.length ≤ 2147483648)
    (hc : Compiled p c)
    (h : Tends e p c frames call' call) {rank : NodeId → Nat} (hrank : p.Falls p.Reads rank)
    {depth : Nat} {source : Producer} {type : WireType} (hoffers : p.Offers source type)
    (hdepth : rank source.node < depth) :
    Pairs (toldProduce (target p) depth source) (Compiler.produce p depth source)
      (Renders p frames call' call type.lanes.length
        fun lanes => Delivers p frames source (.lanes lanes)) := by
  induction depth generalizing source type with
  | zero => exact absurd hdepth (Nat.not_lt_zero _)
  | succ depth ih =>
    obtain ⟨n, hget, hout⟩ := hoffers
    have hn := hp.nodes source.node n hget
    obtain ⟨pin, hpin, rfl⟩ := hn.dataOutput hout
    refine pairs_lift fun n' hnode => ?_
    cases hget.symm.trans (Program.getElem?_of_node hnode)
    cases hs : n.statement with
    | true =>
      obtain ⟨st, hkind⟩ := hn.statementKind hs
      rw [hkind] at hpin
      have hexpression : ∀ x, n.kind ≠ .expression x := fun x heq => nomatch hkind.symm.trans heq
      have hemits : Emits (target p) (readSlot p n source.output) [] pin.type.lanes :=
        emits_readSlot hn hkind hpin
      exact pairs_quietly hc h hget (fun t => hexpression _) (fun t => hexpression _)
        (fun h₀ l₀ => pairs_readSlot (h.hosts.serves admits_quiet) callsPlain_plain p n
          source.output) hemits
    | false =>
      obtain ⟨x, hkind⟩ := hn.expressionKind hs
      have hlower : ∀ w, .wire w ∈ n.inputs → ∃ type, w.Fits p type ∧
        rank w.source.node < depth := by
        intro w hw
        obtain ⟨type, hfits⟩ := hn.fits_of_wire hw
        have hfall := hrank.falls source.node w.source.node ⟨n, w, hget, hs, hw, rfl⟩
        exact ⟨type, hfits, by omega⟩
      rw [hkind] at hpin ⊢
      refine pairs_told hp hvars hc h hget hkind hpin (fun w hw => ?_) fun w hw => ?_
      · obtain ⟨_, hfits, hlt⟩ := hlower w hw
        exact ih hfits.source hlt
      · obtain ⟨_, hfits, hlt⟩ := hlower w hw
        exact emits_produce (x := target p) hp hrank hfits.source hlt

/-- What nodes read is computed from outputs of any rank. -/
theorem outputs_produce (hp : p.WellFormed) (hvars : p.vars.length ≤ 2147483648) (hc : Compiled p c)
    (h : Tends e p c frames call' call) {id : NodeId} (hget : p.nodes[id]? = some n) :
    Outputs p frames call' call (toldProduce (target p) (p.nodes.size + 1))
      (Compiler.produce p (p.nodes.size + 1)) n := by
  intro w hw
  obtain ⟨rank, hrank⟩ := hp.reads
  obtain ⟨type, hfits⟩ := (hp.nodes id n hget).fits_of_wire hw
  obtain ⟨m, hm, -⟩ := hfits.source
  refine pairs_toldProduce hp hvars hc h hrank hfits.source (Nat.lt_succ_of_lt (hrank.bounded _ ?_))
  exact (Array.getElem?_eq_some_iff.mp hm).1

variable {h₀ : Holdings} {l₀ : Chronicle} {g : Array Lane}

def Settles (p : Program) (frames : Nat) (k : MemoId) (m : MemoPoint) (h₀ : Holdings)
    (l₀ : Chronicle)
    (outcome : Outcome) (t : Machine (World σ)) (l : Chronicle) : Prop :=
  outcome = .next [] ∧ ∃ lanes, lanes.length = m.type.lanes.length ∧
    Since p frames h₀ l₀ (Delivers p frames m.source (.lanes lanes)) t l ∧
    cells p t.globals k = some (.lanes lanes)

theorem Timely.holds (h : Timely p frames g) (hk : p.memoPoints[k]? = some m) :
    Holds g (cacheGlobals (target p) k m)
      ((cacheGlobals (target p) k m).map fun i => g.getD i default) := by
  refine List.forall₂_map_right_iff.mpr (List.forall₂_same.mpr fun i hi => ?_)
  obtain ⟨hlt, hle⟩ := mem_cacheGlobals.mp hi
  have hbound := stampGlobal_lt_size hk (j := i - (target p).stampGlobal k) (by omega)
  rw [← h.size] at hbound
  have hin : i < g.size := by omega
  rw [Array.getD_eq_getD_getElem?, Array.getElem?_eq_getElem hin]
  rfl

theorem runs_stampCode {τ : Type} {call : Nat → List Lane → Exec τ (List Lane)} {t : Machine τ}
    {lanes : List Lane} (hlen : lanes.length = m.type.lanes.length)
    (hframe : t.globals[Target.frameGlobal]? = some (.i32 (Int32.ofNat frames))) :
    Runs call (stampCode (target p) k m) (lanes.reverse ++ []) t []
      { t with globals := fill p frames k m t.globals lanes } :=
  have hfill := runs_fill [] hlen hframe
  runs_append hfill.1 hfill.2

/-- What has been computed is told, and then it is stored. -/
theorem escorts_compute (h : Tends e p c frames call' call) (hk : p.memoPoints[k]? = some m)
    (hcode : Renders p frames call' call m.type.lanes.length
      (fun lanes => Delivers p frames m.source (.lanes lanes)) code' code) :
    Escorts (Since p frames h₀ l₀ .stay) (Settles p frames k m h₀ l₀)
      (instrs call' (code' ++ (target p).told (.computed k m.type.lanes.length) ::
        stampCode (target p) k m) [])
      (instrs call (code ++ stampCode (target p) k m) []) := by
  rw [instrs_append_bind, instrs_append_bind]
  refine mirrors_bind (hcode [] h₀ l₀) fun outcome t l hs => ?_
  obtain ⟨⟨es, rfl, lanes, rfl, hlen, ⟨hes, hheld⟩, hpoints⟩, hB⟩ := hs
  have htop : Mark.top m.type.lanes.length (lanes.reverse ++ []) = .lanes lanes := by
    rw [Mark.top, ← hlen, ← List.length_reverse, List.take_left, List.reverse_reverse]
  have hrun : ∀ {τ : Type} {run : Nat → List Lane → Exec τ (List Lane)} {t' : Machine τ},
      t'.globals = t.globals → Runs run (stampCode (target p) k m) (lanes.reverse ++ []) t' []
        { t' with globals := fill p frames k m t'.globals lanes } :=
    fun heq => runs_stampCode hlen (heq ▸ hB.timely.frame)
  have hplain : instrs call _ _ t = _ := hrun rfl
  have htold : instrs call' _ _ (t.beside ((l₀ ++ es) ++ [.computed k (.lanes lanes)])) = _ :=
    hrun rfl
  rw [proceed, hplain]
  refine ⟨(l₀ ++ es) ++ [.computed k (.lanes lanes)], ?_, rfl, lanes, hlen,
    ⟨⟨es ++ [.computed k (.lanes lanes)], List.append_assoc _ _ _,
      ⟨quiet_append hes (quiet_one rfl), hheld⟩, hpoints⟩, hB.timely.fill hk, fun hlt => ?_⟩,
    hB.timely.cells_fill hk hlen⟩
  · have hmark : instrs call' ((target p).told (.computed k m.type.lanes.length) ::
        stampCode (target p) k m) (lanes.reverse ++ []) =
        (do
          tell (.computed k (.lanes lanes))
          instrs call' (stampCode (target p) k m) (lanes.reverse ++ [])) := by
      rw [← List.singleton_append, instrs_append_bind, instrs_told h.marks, Mark.deed, htop]
      rfl
    rw [proceed, hmark]
    exact htold
  · have hfresh := (hB.fresh hlt).concat (d := .computed k (.lanes lanes)) rfl
    exact hfresh.fill hk (mem_current_one rfl) (hpoints hlt) (hB.timely.cells_fill hk hlen)
      fun j hj => cells_fill_ne hk hj

/-- A memo point is computed if its stamp is not the current frame. -/
theorem escorts_stampTest (h : Tends e p c frames call' call) (hk : p.memoPoints[k]? = some m)
    (hcode : Renders p frames call' call m.type.lanes.length
      (fun lanes => Delivers p frames m.source (.lanes lanes)) code' code) :
    Escorts (Since p frames h₀ l₀ .stay) (Settles p frames k m h₀ l₀)
      (instrs call' (stampTest (target p) k ++ [.when (code' ++
        (target p).told (.computed k m.type.lanes.length) :: stampCode (target p) k m)]) [])
      (instrs call (stampTest (target p) k ++ [.when (code ++ stampCode (target p) k m)]) []) := by
  intro t l hs
  obtain ⟨hstay, hB⟩ := since_stay.mp hs
  obtain ⟨stamp, hstamp, -⟩ := hB.timely.stamp k m hk
  have htest : ∀ {τ : Type} {run : Nat → List Lane → Exec τ (List Lane)} {t' : Machine τ},
      t'.globals = t.globals → Runs run (stampTest (target p) k) [] t'
        [ofBool (stamp != Int32.ofNat frames)] t' := fun heq =>
    runs_stampTest [] (heq ▸ hstamp) (heq ▸ hB.timely.frame)
  have hafter : ∀ {τ : Type} {run : Nat → List Lane → Exec τ (List Lane)} {t' : Machine τ}
      (body : Code), t'.globals = t.globals →
      instrs run (stampTest (target p) k ++ [.when body]) [] t' =
        instr run (.when body) [ofBool (stamp != Int32.ofNat frames)] t' := by
    intro τ run t' body heq
    rw [instrs_append (htest heq), instrs_one]
  have htold : instrs call' _ [] (t.beside l) = _ :=
    hafter (code' ++
      (target p).told (.computed k m.type.lanes.length) :: stampCode (target p) k m) rfl
  rw [hafter _ rfl, htold]
  by_cases heq : stamp = Int32.ofNat frames
  · subst heq
    rw [bne_self_eq_false]
    have hcell := cells_some hk (hstamp.trans hB.timely.frame.symm)
    obtain ⟨rfl, rfl⟩ := hstay
    refine ⟨l, rfl, rfl, _, ?_,
      ⟨⟨[], (List.append_nil l).symm, ⟨quiet_nil, rfl⟩, fun hlt => ?_⟩, hB⟩,
      hcell⟩
    · rw [List.length_map, cacheGlobals, List.length_range']
    · exact (hB.fresh hlt).points k m _ hk hcell
  · rw [bne_iff_ne.mpr heq]
    have hleave : ∀ outcome,
      Escorts (Settles p frames k m h₀ l₀ outcome) (Settles p frames k m h₀ l₀)
        (pure (leave [] outcome) : Exec (World (σ × Chronicle)) Outcome)
          (pure (leave [] outcome)) := by
      refine fun outcome => mirrors_pure fun t l hsettles => ?_
      obtain ⟨rfl, hrest⟩ := hsettles
      exact ⟨rfl, hrest⟩
    exact mirrors_bind (escorts_compute h hk hcode) hleave t l hs

theorem escorts_memoBody (h : Tends e p c frames call' call) (hk : p.memoPoints[k]? = some m)
    (hcode : Renders p frames call' call m.type.lanes.length
      (fun lanes => Delivers p frames m.source (.lanes lanes)) code' code) :
    Escorts (Since p frames h₀ l₀ .stay)
      (fun outcome t l => ∃ stack, outcome = .next stack ∧ Supplies p frames k m h₀ l₀ [] stack t l)
      (instrs call' (stampTest (target p) k ++ [.when (code' ++
        (target p).told (.computed k m.type.lanes.length) :: stampCode (target p) k m)] ++
        (cacheGlobals (target p) k m).map .globalGet) [])
      (instrs call (stampTest (target p) k ++ [.when (code ++ stampCode (target p) k m)] ++
        (cacheGlobals (target p) k m).map .globalGet) []) := by
  rw [instrs_append_bind call', instrs_append_bind call]
  refine mirrors_bind (escorts_stampTest h hk hcode) fun outcome t l hs => ?_
  obtain ⟨rfl, lanes, hlen, hsince, hcell⟩ := hs
  have hholds : Holds t.globals (cacheGlobals (target p) k m) lanes := by
    have hlanes := hsince.2.timely.holds hk
    unfold cells at hcell
    rw [hk] at hcell
    dsimp only at hcell
    split at hcell
    · cases hcell
      exact hlanes
    · cases hcell
  have hrun : instrs call _ [] t = _ := runs_globalGets hholds
  rw [proceed, proceed, hrun]
  exact ⟨l, runs_globalGets (t := t.beside l) hholds, _, rfl, lanes, rfl, hlen, hsince, hcell⟩

end Compiler
end SignalGraph
