import SignalGraph.Proofs.Analysis.Tracing.Crossings

/-!
# Feeding

The search against the control wires, and why it finds what the trace along them reaches: a crossing
taken backwards is a crossing.  That needs the directions of the terminals, since a block may stand
at the position that otherwise means the boundary.
-/

namespace SignalGraph
namespace Expansion

open Relation

variable {c : Catalog} {d : Document} {x : Expansion}

def Feeds (x : Expansion) (p : Place) (e : End) : Prop :=
  ∃ conn ∈ x.incoming p, x.follow p.env conn.source conn.sourceTerminal = .ok e

/-- A place whose wires have to be searched after those of `p`. -/
def Precedes (x : Expansion) (p q : Place) : Prop := x.Feeds p (.beyond q)

def Fed (x : Expansion) (p : Place) : Prop := ∃ m, x.Feeds p (.builtin m)

/-- Going back from a place leads to a built-in block. -/
def Driven (x : Expansion) (p : Place) : Prop := ∃ q, ReflTransGen x.Precedes p q ∧ x.Fed q

/-- The places that have been entered are not fed, and those before them are known. -/
structure Closed (x : Expansion) (seen stack : List Place) : Prop where
  unfed : ∀ p ∈ seen, ¬x.Fed p
  known : ∀ p ∈ seen, ∀ q, x.Precedes p q → q ∈ seen ∨ q ∈ stack

theorem Closed.not_driven {seen : List Place} (h : x.Closed seen []) {p : Place} (hp : p ∈ seen) :
    ¬x.Driven p := by
  rintro ⟨q, hpq, hfed⟩
  have hmem : ∀ {r}, ReflTransGen x.Precedes p r → r ∈ seen := fun hpr => by
    induction hpr with
    | refl => exact hp
    | tail _ hstep ih =>
      rcases h.known _ ih _ hstep with hin | hin
      · exact hin
      · exact nomatch hin
  exact h.unfed q (hmem hpq) hfed

theorem length_incoming_le (x : Expansion) (p : Place) :
    (x.incoming p).length ≤ x.ends.count p := by
  unfold incoming
  cases hs : x.scopes[p.env]? with
  | none => exact Nat.zero_le _
  | some s =>
    have hscope : (s, p.env) ∈ x.scopes.zipIdx := List.mem_zipIdx_iff_getElem?.mpr hs
    obtain ⟨before, after, hsplit⟩ := List.append_of_mem hscope
    have hcount : (s.connections.map fun c =>
      (⟨p.env, c.target, c.targetTerminal⟩ : Place)).count p =
        (s.incoming p.node p.terminal).length := by
      rw [List.count, List.countP_map, List.countP_eq_length_filter, Scope.incoming]
      congr 2
      funext conn
      obtain ⟨env, node, terminal⟩ := p
      rw [Bool.eq_iff_iff]
      simp
    simp only
    rw [ends, hsplit, List.flatMap_append, List.flatMap_cons, List.count_append, List.count_append,
      hcount]
    omega

/-- Entering a place for the first time takes its wires from those that are left. -/
theorem countP_not_mem_cons {l seen : List Place} {p : Place} (hp : p ∉ seen) :
    l.countP (fun q => q ∉ seen) = l.countP (fun q => q ∉ p :: seen) + l.count p := by
  induction l with
  | nil => rfl
  | cons q rest ih =>
    simp only [List.countP_cons, List.count_cons, ih, List.mem_cons, not_or]
    by_cases hq : q = p
    · subst hq
      simp [hp]
      omega
    · simp [hq]
      omega

/-- What one step of the search finds out about a place. -/
theorem feeds_of_ends {p : Place} {ends : List End}
    (h : (x.incoming p).mapM (fun c => x.follow p.env c.source c.sourceTerminal) = .ok ends) :
    ends.length = (x.incoming p).length ∧ ∀ e, x.Feeds p e ↔ e ∈ ends := by
  obtain ⟨hlen, hget⟩ := Outcome.mapM_eq_ok h
  refine ⟨hlen, fun e => ⟨?_, fun he => ?_⟩⟩
  · rintro ⟨conn, hconn, he⟩
    obtain ⟨i, hi⟩ := List.getElem?_of_mem hconn
    obtain ⟨e', he', hfollow⟩ := hget i conn hi
    cases he.symm.trans hfollow
    exact List.mem_of_getElem? he'
  · obtain ⟨i, hi⟩ := List.getElem?_of_mem he
    have hlt : i < (x.incoming p).length := hlen ▸ (List.getElem?_eq_some_iff.mp hi).1
    obtain ⟨e', he', hfollow⟩ := hget i _ (List.getElem?_eq_getElem hlt)
    cases hi.symm.trans he'
    exact ⟨_, List.getElem_mem hlt, hfollow⟩

/-- The search says yes only where a built-in block is behind one of its places. -/
theorem driven_of_searchBack : ∀ {hops : Nat} {seen stack : List Place},
    x.searchBack hops seen stack = .ok true → ∃ p ∈ stack, x.Driven p
  | _, _, [], h => by
    rw [searchBack] at h
    exact nomatch h
  | 0, _, _ :: _, h => by
    rw [searchBack] at h
    exact nomatch h
  | hops + 1, seen, p :: rest, h => by
    rw [searchBack] at h
    split at h
    · obtain ⟨q, hq, hdriven⟩ := driven_of_searchBack h
      exact ⟨q, List.mem_cons_of_mem p hq, hdriven⟩
    · obtain ⟨ends, hends, h⟩ := Outcome.bind_eq_ok.mp h
      obtain ⟨-, hfeeds⟩ := feeds_of_ends hends
      split at h
      · next hany =>
        obtain ⟨e, he, hbuiltin⟩ := List.any_eq_true.mp hany
        cases e with
        | builtin m => exact ⟨p, List.mem_cons_self, p, .refl, m, (hfeeds _).mpr he⟩
        | beyond q => exact nomatch hbuiltin
        | nothing => exact nomatch hbuiltin
      · obtain ⟨q, hq, r, hqr, hr⟩ := driven_of_searchBack h
        rcases List.mem_append.mp hq with hq | hq
        · obtain ⟨e, he, hbeyond⟩ := List.mem_filterMap.mp hq
          cases e with
          | builtin m => exact nomatch hbeyond
          | nothing => exact nomatch hbeyond
          | beyond q' =>
            cases hbeyond
            exact ⟨p, List.mem_cons_self, r, .head ((hfeeds _).mpr he) hqr, hr⟩
        · exact ⟨q, List.mem_cons_of_mem p hq, r, hqr, hr⟩

/-- It says no only where there is none: each wire is followed at most once, so the budget is
enough. -/
theorem not_driven_of_searchBack : ∀ {hops : Nat} {seen stack : List Place},
    x.searchBack hops seen stack = .ok false →
    stack.length + x.ends.countP (fun q => q ∉ seen) ≤ hops → x.Closed seen stack →
    ∀ p, p ∈ seen ∨ p ∈ stack → ¬x.Driven p
  | _, _, [], _, _, hclosed, p, hp => hclosed.not_driven (hp.resolve_right List.not_mem_nil)
  | 0, _, _ :: _, _, hlen, _, _, _ => by
    rw [List.length_cons] at hlen
    omega
  | hops + 1, seen, p :: rest, h, hlen, hclosed, q, hq => by
    rw [List.length_cons] at hlen
    rw [searchBack] at h
    split at h
    · next hseen =>
      have hseen : p ∈ seen := by simpa using hseen
      have hshift : ∀ {r}, r ∈ seen ∨ r ∈ p :: rest → r ∈ seen ∨ r ∈ rest := fun hr => by
        rcases hr with hr | hr
        · exact .inl hr
        · rcases List.mem_cons.mp hr with rfl | hr
          · exact .inl hseen
          · exact .inr hr
      exact not_driven_of_searchBack h (by omega)
        ⟨hclosed.unfed, fun r hr s hs => hshift (hclosed.known r hr s hs)⟩ q (hshift hq)
    · next hseen =>
      have hseen : p ∉ seen := by simpa using hseen
      obtain ⟨ends, hends, h⟩ := Outcome.bind_eq_ok.mp h
      obtain ⟨hcount, hfeeds⟩ := feeds_of_ends hends
      split at h
      · exact nomatch h
      · next hnone =>
        generalize hfound : ends.filterMap _ = found at h
        have hmem : ∀ {r}, x.Precedes p r → r ∈ found := fun hr => by
          rw [← hfound]
          exact List.mem_filterMap.mpr ⟨_, (hfeeds _).mp hr, rfl⟩
        have hunfed : ¬x.Fed p := by
          rintro ⟨m, hm⟩
          exact hnone (List.any_eq_true.mpr ⟨_, (hfeeds _).mp hm, rfl⟩)
        have hshift : ∀ {r}, r ∈ seen ∨ r ∈ p :: rest → r ∈ p :: seen ∨ r ∈ found ++ rest :=
          fun hr => by
            rcases hr with hr | hr
            · exact .inl (List.mem_cons_of_mem p hr)
            · rcases List.mem_cons.mp hr with rfl | hr
              · exact .inl List.mem_cons_self
              · exact .inr (List.mem_append_right _ hr)
        have hleft := countP_not_mem_cons (l := x.ends) hseen
        have hwires := length_incoming_le x p
        have hpushed : found.length ≤ ends.length := hfound ▸ List.length_filterMap_le _ ends
        refine not_driven_of_searchBack h ?_ ⟨?_, ?_⟩ q (hshift hq)
        · rw [List.length_append]
          omega
        · exact List.forall_mem_cons.mpr ⟨hunfed, hclosed.unfed⟩
        · refine List.forall_mem_cons.mpr ⟨fun r hr => ?_, fun r hr s hs => ?_⟩
          · exact .inr (List.mem_append_left _ (hmem hr))
          · exact hshift (hclosed.known r hr s hs)

/-- The search decides whether a built-in block is behind a place. -/
theorem driven_iff_of_isDriven {p : Place} {answer : Bool} (h : x.isDriven p = .ok answer) :
    x.Driven p ↔ answer = true := by
  unfold isDriven at h
  cases answer with
  | true =>
    obtain ⟨q, hq, hdriven⟩ := driven_of_searchBack h
    rw [List.mem_singleton] at hq
    exact ⟨fun _ => rfl, fun _ => hq ▸ hdriven⟩
  | false =>
    have hwires : x.ends.countP (fun q => q ∉ []) ≤ x.wireCount :=
      x.length_ends ▸ List.countP_le_length
    have hnot := not_driven_of_searchBack h (by rw [budget, List.length_singleton]; omega)
      ⟨fun _ hq => (List.not_mem_nil hq).elim, fun _ hq => (List.not_mem_nil hq).elim⟩ p
      (.inr List.mem_cons_self)
    exact ⟨fun hdriven => absurd hdriven hnot, fun hfalse => absurd hfalse Bool.false_ne_true⟩

/-- In a checked document the search against the control wires comes to an answer. -/
theorem exists_searchBack {u : Unit} (hcheck : Wiring.check x = .ok u) :
    ∀ (hops : Nat) (seen stack : List Place),
    ∃ answer, x.searchBack hops seen stack = .ok answer
  | _, _, [] => ⟨false, by rw [searchBack]⟩
  | 0, _, _ :: _ => ⟨false, by rw [searchBack]⟩
  | hops + 1, seen, p :: rest => by
    rw [searchBack]
    split
    · exact exists_searchBack hcheck hops seen rest
    · have hends : ∃ ends,
        (x.incoming p).mapM (fun w => x.follow p.env w.source w.sourceTerminal) = .ok ends := by
        refine Outcome.mapM_ok fun w hw => ?_
        unfold incoming at hw
        cases hs : x.scopes[p.env]? with
        | none => simp [hs] at hw
        | some s =>
          simp only [hs] at hw
          obtain ⟨_, _, hchecked⟩ := Wiring.checked_of_check hcheck hs (List.mem_filter.mp hw).1
          obtain ⟨b, howner, -⟩ := hchecked.source
          exact exists_follow (p := ⟨p.env, w.source, w.sourceTerminal⟩) ⟨b, howner⟩
      obtain ⟨ends, hends⟩ := hends
      rw [hends]
      simp only [bind, Except.bind]
      split
      · exact ⟨true, rfl⟩
      · exact exists_searchBack hcheck hops _ _

/-! ## Crossings taken backwards -/

def Sink (x : Expansion) (p : Place) (t : Terminal) : Prop :=
  ∃ b, x.owner p.env p.node = .ok b ∧ b.terminalAt p.terminal = some t ∧
    t.dir = Wiring.sinkDirection p.node

def Source (x : Expansion) (p : Place) (t : Terminal) : Prop :=
  ∃ b, x.owner p.env p.node = .ok b ∧ b.terminalAt p.terminal = some t ∧
    t.dir = Wiring.sourceDirection p.node

/-- What the check knows of the wires from one place to another. -/
theorem linked_of_targets {u : Unit} (hcheck : Wiring.check x = .ok u) {p q : Place}
    (hq : q ∈ x.targets p) : ∃ start finish, x.Source p start ∧ x.Sink q finish ∧
      start.type.drives finish.type = true := by
  obtain ⟨s, conn, hs, hconn, hnode, hterminal, rfl⟩ := targets_mem hq
  obtain ⟨start, finish, hchecked⟩ := Wiring.checked_of_check hcheck hs hconn
  obtain ⟨b, howner, hfind⟩ := hchecked.source
  obtain ⟨b', howner', hfind'⟩ := hchecked.target
  exact ⟨start, finish, ⟨b, hnode ▸ howner, hterminal ▸ hfind, hnode ▸ hchecked.leaves⟩,
    ⟨b', howner', hfind', hchecked.enters⟩, hchecked.drives⟩

/-- The two sides of a crossing are not both named from inside. -/
theorem inner_of_follow (hc : c.Made) (hfit : ScopesFit c x.scopes) {p q : Place}
    {t t' : Terminal} (hp : x.Sink p t) (hq : x.Source q t') (hterminal : p.terminal = q.terminal) :
    p.node ≠ .outside ∨ q.node ≠ .outside := by
  refine not_and_or.mp fun ⟨hpo, hqo⟩ => ?_
  obtain ⟨b, howner, hfind, hdir⟩ := hp
  obtain ⟨b', howner', hfind', hdir'⟩ := hq
  rw [hpo] at hdir
  rw [hqo] at hdir'
  obtain ⟨ht, hpos⟩ := Block.terminalAt_eq_some hfind
  obtain ⟨ht', hpos'⟩ := Block.terminalAt_eq_some hfind'
  exact Block.pos_ne_of_dir (placed_of_owner hc hfit howner')
    (placed_of_owner hc hfit howner) ht' ht
    hdir' hdir (by rw [hpos, hpos', hterminal])

/-- The wires at a terminal of a block mean that block: at the boundary's own position, they would
run against the direction of the terminal. -/
theorem inner_of_sink (hc : c.Made) (hfit : ScopesFit c x.scopes) {env : EnvId} {m : Member}
    {t u : Terminal} (hm : x.member env m.decl.pos = .ok m) (ht : t ∈ m.block.terminals)
    (hdir : t.dir = .input) (hsink : x.Sink ⟨env, m.decl.pos, t.pos⟩ u) :
    m.decl.pos ≠ .outside := by
  intro hout
  obtain ⟨b, howner, hfind, hudir⟩ := hsink
  simp only [hout, Wiring.sinkDirection, if_true] at hudir
  obtain ⟨hu, hpos⟩ := Block.terminalAt_eq_some hfind
  exact Block.pos_ne_of_dir (placed_of_member hc hfit hm).1 (placed_of_owner hc hfit howner) ht hu
    hdir hudir hpos.symm

theorem inner_of_source (hc : c.Made) (hfit : ScopesFit c x.scopes) {env : EnvId} {m : Member}
    {t u : Terminal} (hm : x.member env m.decl.pos = .ok m) (ht : t ∈ m.block.terminals)
    (hdir : t.dir = .output) (hsource : x.Source ⟨env, m.decl.pos, t.pos⟩ u) :
    m.decl.pos ≠ .outside := by
  intro hout
  obtain ⟨b, howner, hfind, hudir⟩ := hsource
  simp only [hout, Wiring.sourceDirection, if_true] at hudir
  obtain ⟨hu, hpos⟩ := Block.terminalAt_eq_some hfind
  exact Block.pos_ne_of_dir (placed_of_owner hc hfit howner) (placed_of_member hc hfit hm).1 hu ht
    hudir hdir hpos

/-- Following a boundary from its other side leads back, to the same block. -/
theorem follow_back (h : ofDocument c d = .ok x) {p q : Place}
    (hpq : x.follow p.env p.node p.terminal = .ok (.beyond q))
    (hinner : p.node ≠ .outside ∨ q.node ≠ .outside) :
    x.follow q.env q.node q.terminal = .ok (.beyond p) ∧
      x.owner p.env p.node = x.owner q.env q.node := by
  obtain ⟨env, node, terminal⟩ := p
  rcases follow_beyond hpq with ⟨hout, parent, custom, hparent, rfl⟩ | ⟨hne, child, hchild, rfl⟩
  · simp only at hout hparent hinner
    subst hout
    have hcustom : custom ≠ .outside := hinner.resolve_left fun hne => hne rfl
    obtain ⟨m, g, _, _, hm, hg, -⟩ := custom_of_parent h hparent
    refine ⟨?_, by simp only [owner, if_true, hparent, hcustom, if_false]⟩
    have htemplate := Member.template_of_graph? hg
    simp only [follow, hcustom, if_false, hm, bind, Except.bind, htemplate,
      child_of_parent h hparent]
    rfl
  · simp only at hchild hne
    have hparent := parent_of_child hchild
    refine ⟨by simp only [follow, if_true, hparent], ?_⟩
    simp only [owner, if_true, hparent, hne, if_false]

/-- The two sides of a crossing are one terminal of one block. -/
theorem terminal_eq_of_follow (h : ofDocument c d = .ok x) {p q : Place} {t t' : Terminal}
    (hpq : x.follow p.env p.node p.terminal = .ok (.beyond q))
    (hinner : p.node ≠ .outside ∨ q.node ≠ .outside) (hp : x.Sink p t) (hq : x.Source q t')
    (hterminal : q.terminal = p.terminal) : t = t' := by
  obtain ⟨b, howner, hfind, -⟩ := hp
  obtain ⟨b', howner', hfind', -⟩ := hq
  rw [(follow_back h hpq hinner).2, howner'] at howner
  cases howner
  rw [← hterminal, hfind'] at hfind
  exact (Option.some.inj hfind).symm

theorem drives_void {t u : WireType} (h : t.drives u = true) : t = .void ↔ u = .void := by
  refine ⟨eq_void_of_drives h, fun hu => ?_⟩
  subst hu
  cases t <;> simp [WireType.drives] at h ⊢

theorem feeds_iff {p : Place} {e : End} :
    x.Feeds p e ↔ ∃ r, p ∈ x.targets r ∧ x.follow r.env r.node r.terminal = .ok e := by
  constructor
  · rintro ⟨conn, hconn, he⟩
    refine ⟨⟨p.env, conn.source, conn.sourceTerminal⟩, ?_, he⟩
    unfold incoming at hconn
    unfold targets
    cases hs : x.scopes[p.env]? with
    | none => simp [hs] at hconn
    | some s =>
      simp only [hs, Scope.incoming, List.mem_filter, decide_eq_true_eq] at hconn
      obtain ⟨hmem, hnode, hterminal⟩ := hconn
      refine List.mem_map.mpr ⟨conn, List.mem_filter.mpr ⟨hmem, by simp⟩, ?_⟩
      rw [hnode, hterminal]
  · rintro ⟨r, hr, he⟩
    obtain ⟨s, conn, hs, hconn, hnode, hterminal, rfl⟩ := targets_mem hr
    refine ⟨conn, ?_, by rw [hnode, hterminal]; exact he⟩
    rw [incoming, hs]
    exact List.mem_filter.mpr ⟨hconn, by simp⟩

theorem mem_ends_iff {p : Place} : p ∈ x.ends ↔ ∃ r, p ∈ x.targets r := by
  refine ⟨fun hp => ?_, fun ⟨r, hr⟩ => mem_ends_of_targets hr⟩
  obtain ⟨⟨s, env⟩, hs, hp⟩ := List.mem_flatMap.mp hp
  obtain ⟨conn, hconn, rfl⟩ := List.mem_map.mp hp
  refine ⟨⟨env, conn.source, conn.sourceTerminal⟩, ?_⟩
  rw [targets, List.mem_zipIdx_iff_getElem?.mp hs]
  exact List.mem_map.mpr ⟨conn, List.mem_filter.mpr ⟨hconn, by simp⟩, rfl⟩

def ControlSink (x : Expansion) (p : Place) : Prop := ∃ t, x.Sink p t ∧ t.type = .void

theorem controlSink_of_sink {p : Place} {t : Terminal} (hp : x.Sink p t) :
    x.ControlSink p ↔ t.type = .void := by
  refine ⟨fun ⟨t', hp', hvoid⟩ => ?_, fun hvoid => ⟨t, hp, hvoid⟩⟩
  obtain ⟨b, howner, hfind, -⟩ := hp
  obtain ⟨b', howner', hfind', -⟩ := hp'
  cases howner.symm.trans howner'
  cases hfind.symm.trans hfind'
  exact hvoid

theorem terminal_of_follow {p q : Place}
    (h : x.follow p.env p.node p.terminal = .ok (.beyond q)) : q.terminal = p.terminal := by
  rcases follow_beyond h with ⟨-, _, _, -, rfl⟩ | ⟨-, _, -, rfl⟩ <;> rfl

/-- A terminal does not lead nowhere, since blocks that do nothing have no terminals. -/
theorem follow_ne_nothing (hc : c.Made) (h : ofDocument c d = .ok x) {env : EnvId}
    {p terminal : Pos}
    {b : Block} {t : Terminal} (howner : x.owner env p = .ok b)
    (hfind : b.terminalAt terminal = some t) : x.follow env p terminal ≠ .ok .nothing := by
  intro hfollow
  by_cases hout : p = .outside
  · rw [hout] at hfollow howner
    obtain ⟨parent, custom, -, hparent, -⟩ := owner_outside howner
    rw [follow, if_pos rfl, hparent] at hfollow
    cases hfollow
  · obtain ⟨m, hm, rfl⟩ := owner_of_ne hout howner
    obtain ⟨hpos, s, hs, hmem⟩ := member_eq_ok hm
    rw [follow, if_neg hout, hm] at hfollow
    simp only [bind, Except.bind] at hfollow
    cases htemplate : m.block.template with
    | builtin k =>
      rw [htemplate] at hfollow
      cases hfollow
    | inert =>
      have hnone := (placed_of_member hc (scopesFit_ofDocument h) hm).2 htemplate
      have ht := (Block.terminalAt_eq_some hfind).1
      rw [hnone] at ht
      cases ht
    | custom g =>
      have hg : m.graph? = some g := by
        unfold Member.graph?
        rw [htemplate]
      obtain ⟨-, child, -, -, hchild, -⟩ := child_of_custom h hs hmem hg
      rw [hpos] at hchild
      simp only [htemplate, hchild] at hfollow
      cases hfollow

section Checked

variable {u : Unit} (hc : c.Made) (h : ofDocument c d = .ok x) (hcheck : Wiring.check x = .ok u)

include hc h hcheck

/-- A boundary is crossed both ways between the end of a wire and the start of another. -/
theorem follow_symm {p q r : Place} (hp : p ∈ x.ends) (hr : r ∈ x.targets q) :
    x.follow p.env p.node p.terminal = .ok (.beyond q) ↔
      x.follow q.env q.node q.terminal = .ok (.beyond p) := by
  obtain ⟨_, hp⟩ := mem_ends_iff.mp hp
  obtain ⟨_, t, -, hsink, -⟩ := linked_of_targets hcheck hp
  obtain ⟨t', _, hsource, -, -⟩ := linked_of_targets hcheck hr
  have hinner := inner_of_follow hc (scopesFit_ofDocument h) hsink hsource
  exact ⟨fun hpq => (follow_back h hpq (hinner (terminal_of_follow hpq).symm)).1,
    fun hqp => (follow_back h hqp (hinner (terminal_of_follow hqp)).symm).1⟩

/-- The wires before the end of a wire are those that lead to it across a boundary. -/
theorem precedes_iff_crosses {p q : Place} (hp : p ∈ x.ends) : x.Precedes q p ↔ x.Crosses p q := by
  rw [Precedes, feeds_iff]
  constructor
  · rintro ⟨r, hq, hr⟩
    exact ⟨r, (follow_symm hc h hcheck hp hq).mpr hr, hq⟩
  · rintro ⟨r, hr, hq⟩
    exact ⟨r, hq, (follow_symm hc h hcheck hp hq).mp hr⟩

/-- A way back to the end of a wire is a way forth from it. -/
theorem reaches_iff {p q : Place} (hq : q ∈ x.ends) :
    ReflTransGen x.Precedes p q ↔ ReflTransGen x.Crosses q p := by
  constructor
  · intro hpq
    induction hpq using ReflTransGen.head_induction_on with
    | refl => exact .refl
    | head hstep hrest ih =>
      refine ih.tail ((precedes_iff_crosses hc h hcheck ?_).mp hstep)
      rcases hrest.cases_head with rfl | ⟨_, hnext, -⟩
      · exact hq
      · obtain ⟨r, hr, -⟩ := feeds_iff.mp hnext
        exact mem_ends_of_targets hr
  · intro hqp
    induction hqp with
    | refl => exact .refl
    | tail hrest hstep ih =>
      refine .head ((precedes_iff_crosses hc h hcheck ?_).mpr hstep) ih
      rcases hrest.cases_tail with rfl | ⟨_, -, _, -, hr⟩
      · exact hq
      · exact mem_ends_of_targets hr

/-- Control stays control across boundaries. -/
theorem controlSink_iff {p q : Place} (hp : p ∈ x.ends) (hpq : ReflTransGen x.Crosses p q) :
    x.ControlSink p ↔ x.ControlSink q := by
  induction hpq with
  | refl => rfl
  | @tail a b hrest hstep ih =>
    refine ih.trans ?_
    obtain ⟨r, hfollow, hb⟩ := hstep
    have ha : a ∈ x.ends := by
      rcases hrest.cases_tail with rfl | ⟨_, -, _, -, hr⟩
      · exact hp
      · exact mem_ends_of_targets hr
    obtain ⟨_, ha⟩ := mem_ends_iff.mp ha
    obtain ⟨_, t, -, hsink, -⟩ := linked_of_targets hcheck ha
    obtain ⟨t', u, hsource, hsink', hdrives⟩ := linked_of_targets hcheck hb
    have hterminal := terminal_of_follow hfollow
    have hinner := inner_of_follow hc (scopesFit_ofDocument h) hsink hsource hterminal.symm
    have heq := terminal_eq_of_follow h hfollow hinner hsink hsource hterminal
    subst heq
    rw [controlSink_of_sink hsink, controlSink_of_sink hsink', drives_void hdrives]

end Checked

end Expansion
end SignalGraph
