import SignalGraph.Proofs.Instrumentation.Instrumented
import SignalGraph.Proofs.Instrumentation.Fences.Basic
import SignalGraph.Proofs.Instrumentation.Weaves

/-!
# Fenced code

Emission with a fence around the code of each output that is read, of each statement, and of each
chain.  It takes the same locals as emission without fences, in the order of the code, so what is
inside a fence has them to itself.
-/

namespace SignalGraph
namespace Compiler

open Wasm

/-- Code inside a fence. -/
def enclosed (emit : Emit Code) : Emit Code := do
  let first := (← get).count
  let code ← emit
  return [fence first (← get).count code]

def fencing : Instrumentation := { around := enclosed }

def fencedFunctions (x : Target) (m : Wasm.Module) : List Function := fencing.functions x m

/-- Code with fences that takes locals in order, from one stand to another.  Without its fences it
is the other code. -/
structure Piece (s : Stand) (code' code : Code) (s' : Stand) : Prop where
  flat : flat code' = code
  parts : Scoped s (outline code') s'

variable {s s' s₁ : Stand} {a' a b' b : Code}

theorem piece_append (ha : Piece s a' a s₁) (hb : Piece s₁ b' b s') :
    Piece s (a' ++ b') (a ++ b) s' := by
  refine ⟨by rw [flat_append, ha.flat, hb.flat], ?_⟩
  rw [outline_append]
  exact scoped_append ha.parts hb.parts

/-- Instructions that use no locals, and have no code within them. -/
def Simple : Instr → Bool
  | .const _ | .globalGet _ | .globalSet _ | .call _ | .numeric _ | .br _ | .brIf _ => true
  | _ => false

theorem piece_simple : ∀ code : Code, code.all Simple = true → Piece s code code s
  | [], _ => ⟨rfl, .nil⟩
  | i :: rest, h => by
    obtain ⟨hi, hrest⟩ := Bool.and_eq_true_iff.mp ((List.all_cons).symm.trans h)
    have hone : Piece s [i] [i] s := by
      cases i with
      | const | globalGet | globalSet | call | numeric | br | brIf => exact ⟨rfl, .nil⟩
      | localGet | localSet | when | ifElse | block | loop => cases hi
    exact piece_append hone (piece_simple rest hrest)

theorem piece_map {α : Type} {f : α → Instr} (hf : ∀ a, Simple (f a) = true) (as : List α) :
    Piece s (as.map f) (as.map f) s := by
  refine piece_simple _ (List.all_eq_true.mpr fun i hi => ?_)
  obtain ⟨a, -, rfl⟩ := List.mem_map.mp hi
  exact hf a

theorem piece_gets :
    ∀ {is : List Nat}, (∀ i ∈ is, i ∈ s.held) → Piece s (getLocals is) (getLocals is) s
  | [], _ => ⟨rfl, .nil⟩
  | i :: is, h => by
    have hone : Piece s [.localGet i] [.localGet i] s := ⟨rfl, .get (h i List.mem_cons_self) .nil⟩
    exact piece_append hone (piece_gets fun j hj => h j (List.mem_cons_of_mem i hj))

theorem outline_sets (is : List Nat) : outline (is.map .localSet) = is.map .set := by
  induction is with
  | nil => rfl
  | cons i is ih => exact congrArg (Access.set i :: ·) ih

theorem flat_sets (is : List Nat) : flat (is.map .localSet) = is.map .localSet := by
  induction is with
  | nil => rfl
  | cons i is ih => exact congrArg (Instr.localSet i :: ·) ih

theorem piece_spill (next : Nat) (held : List Nat) (count : Nat) :
    Piece ⟨next, held⟩ ((List.range' next count).reverse.map .localSet)
      ((List.range' next count).reverse.map .localSet)
        ⟨next + count, held ++ List.range' next count⟩ := by
  refine ⟨flat_sets _, ?_⟩
  rw [outline_sets, ← List.append_nil ((List.range' next count).reverse.map Access.set)]
  exact .spill count .nil

theorem piece_again {k : Nat} (between : Code) (hk : k ∈ s.held) (h : between.all Simple = true) :
    Piece s (.localGet k :: between ++ [.localSet k])
      (.localGet k :: between ++ [.localSet k]) s := by
  have hsimple : Piece s between between s := piece_simple between h
  refine ⟨?_, ?_⟩
  · show Instr.localGet k :: flat (between ++ [.localSet k]) = _
    rw [flat_append, hsimple.flat]
    rfl
  · have hnone : ∀ {code : Code}, code.all Simple = true → outline code = [] := by
      intro code
      induction code with
      | nil => exact fun _ => rfl
      | cons i rest ih =>
        intro h
        obtain ⟨hi, hrest⟩ := Bool.and_eq_true_iff.mp ((List.all_cons).symm.trans h)
        rw [outline, ih hrest, List.append_nil]
        cases i <;> first | rfl | cases hi
    show Scoped s (Access.get k :: outline (between ++ [.localSet k])) s
    rw [outline_append, hnone h]
    exact .again hk .nil

theorem piece_when (h : Piece s a' a s') : Piece s [.when a'] [.when a] s' := by
  refine ⟨congrArg (fun code => [Instr.when code]) h.flat, ?_⟩
  show Scoped s (outline a' ++ []) s'
  rw [List.append_nil]
  exact h.parts

theorem piece_ifElse {r : Option LaneType} (hr : r ≠ some .f32) (ha : Piece s a' a s₁)
    (hb : Piece s₁ b' b s') :
    Piece s [.ifElse r a' b'] [.ifElse r a b] s' := by
  have hscoped := scoped_append ha.parts hb.parts
  rcases r with _ | _ | _
  · refine ⟨congrArg₂ (fun a b => [Instr.ifElse none a b]) ha.flat hb.flat, ?_⟩
    show Scoped s ((outline a' ++ outline b') ++ []) s'
    rwa [List.append_nil]
  · refine ⟨congrArg₂ (fun a b => [Instr.ifElse (some .i32) a b]) ha.flat hb.flat, ?_⟩
    show Scoped s ((outline a' ++ outline b') ++ []) s'
    rwa [List.append_nil]
  · exact absurd rfl hr

theorem piece_block_loop (h : Piece s a' a s') :
    Piece s [.block [.loop a']] [.block [.loop a]] s' := by
  refine ⟨?_, ?_⟩
  · show [Instr.block ([Instr.loop (flat a')] ++ [])] = _
    rw [List.append_nil, h.flat]
  · show Scoped s ((outline a' ++ []) ++ []) s'
    rw [List.append_nil, List.append_nil]
    exact h.parts

/-! ## Emission -/

/-- Code with fences that takes the next locals, and holds some of them. -/
def Fencing : Weaving := fun _ s a' a s' => s'.locals.params = s.locals.params ∧
  Piece ⟨s.locals.count, s.held⟩ a' a ⟨s'.locals.count, s'.held⟩

theorem simple_of_straight : ∀ {code : Code}, Straight (fun _ => True) code →
    code.all Simple = true
  | [], _ => rfl
  | i :: _, h => by
    have hi := h.1
    refine List.all_cons.trans (Bool.and_eq_true_iff.mpr ⟨?_, simple_of_straight h.2⟩)
    cases i <;> first | rfl | exact hi.elim

theorem weave_fencing : Weave (fun _ => True) Fencing where
  append ha hb := ⟨hb.1.trans ha.1, piece_append ha.2 hb.2⟩
  straight h := ⟨rfl, piece_simple _ (simple_of_straight h)⟩
  spill l held types := ⟨rfl, l.count_take types ▸ piece_spill l.count held types.length⟩
  gets _ h := ⟨rfl, piece_gets h⟩
  when h := ⟨h.1, piece_when h.2⟩
  ifElse hr ha hb := ⟨hb.1.trans ha.1, piece_ifElse hr ha.2 hb.2⟩
  rounds {_ l l' held k count _ _} hk hcount h := by
    have hgets : ∀ i ∈ [k, count], i ∈ held := by
      intro i hi
      rcases List.mem_cons.mp hi with rfl | hi
      · exact hk
      · exact List.mem_singleton.mp hi ▸ hcount
    have htest := piece_append (piece_gets (s := ⟨l.count, held⟩) hgets)
      (piece_simple [.numeric .i32GeU, .brIf 1] rfl)
    have hagain := piece_append (piece_again (s := ⟨l'.count, held⟩) [int 1, .numeric .i32Add] hk
      rfl) (piece_simple [.br 0] rfl)
    exact ⟨h.1, piece_block_loop (piece_append (piece_append htest h.2) hagain)⟩

theorem saves_fencing {n : Node} : Saves (fun _ _ => True) n Fencing where
  lays := ⟨trivial, fun _ => trivial, fun _ => trivial, fun _ _ => trivial, fun _ _ => trivial⟩
  store {_ _ _ _ _ _ _ slot f} _ _ h _ := ⟨h.1, piece_append
    (piece_append (piece_simple [id slot] rfl) h.2) (piece_simple [callImport (.setSlot f)] rfl)⟩
  forget h := h
  ended _ h := h

/-- Code whose locals are all inside fences. -/
abbrev Walled (l l' : Locals) : Code → Code → Prop := Sealed Fencing [] l l'

theorem walled_fence {B : List (List NodeId)} {l l' : Locals} (h : Owned Fencing B l l' a' a) :
    Walled l l' [fence l.count l'.count a'] a := by
  obtain ⟨own, hparams, hpiece⟩ := h
  refine fun held => ⟨hparams, ?_, .region hpiece.parts .nil⟩
  show flat a' ++ [] = a
  rw [List.append_nil, hpiece.flat]

theorem walled_append {l l₁ l' : Locals} (ha : Walled l l₁ a' a) (hb : Walled l₁ l' b' b) :
    Walled l l' (a' ++ b') (a ++ b) := weave_fencing.sealed_append ha hb

theorem parallels_enclosed {B : List (List NodeId)} {l : Locals} {emit' emit : Emit Code}
    (h : Parallels l emit' emit (Owned Fencing B l)) :
    Parallels l (enclosed emit') emit (Walled l) := by
  intro b l' heq
  obtain ⟨a, ha, hab⟩ := h b l' heq
  refine ⟨[fence l.count l'.count a], ?_, walled_fence hab⟩
  show (emit' l >>= fun r => .ok ([fence l.count r.2.count r.1], r.2)) = _
  rw [ha]
  rfl

variable {x : Target} {n : Node} {id : NodeId}

/-- What an output reads is inside fences of its own. -/
theorem parallels_fencedProduce : ∀ (depth : Nat) (source : Producer) (l : Locals),
    Parallels l (fencing.produce x depth source) (produce x.program depth source) (Walled l)
  | 0, _, _ => parallels_throw
  | depth + 1, source, l => by
    refine parallels_enclosed (B := []) (parallels_lift fun n _ => ?_)
    cases n.statement with
    | true => exact weave_fencing.parallels_readSlot (fun _ _ _ => trivial) _ n source.output l
    | false =>
      rw [if_neg Bool.false_ne_true, if_neg Bool.false_ne_true]
      cases n.kind with
      | expression e =>
        exact weave_fencing.parallels_evaluate (fun _ _ _ => trivial)
          (weave_fencing.feeds (fun _ _ _ => trivial) (fun _ => trivial)
            (parallels_fencedProduce depth)) source.output e l
      | _ => exact parallels_throw

/-- What a statement spills is its own, and its branches are inside fences. -/
theorem parallels_fenced (site : Site) {st : Statement} (hkind : n.kind = .statement st)
    {chain' chain : List NodeId → Emit Code}
    (hchain : ∀ ids ∈ n.controls, ∀ l, Parallels l (chain' ids) (chain ids) (Walled l))
    (l : Locals) :
    Parallels l (fencing.statement x site chain' id n st)
      (statement (produce x.program (x.program.nodes.size + 1)) chain id n st) (Walled l) := by
  have hfollows : Follows Fencing (fencing.branches chain' id) chain n := fun ids hids l =>
    (hchain ids hids l).map fun _ _ _ hbody => hbody
  have hpermits : Permits (fun _ => True) n :=
    ⟨fun _ _ _ => trivial, fun _ => trivial, fun _ _ _ _ => trivial, fun _ => trivial⟩
  have hfeeds : Feeds Fencing (fencing.produce x (x.program.nodes.size + 1)) n
      (produce x.program (x.program.nodes.size + 1)) n :=
    weave_fencing.feeds (fun _ _ _ => trivial) (fun _ => trivial) (parallels_fencedProduce _)
  have hstatement := weave_fencing.parallels_statement saves_fencing hpermits hfeeds hfollows
    (fun _ _ _ _ _ _ => trivial) id hkind l
  refine parallels_enclosed (B := n.within st) (hstatement.map fun _ a' a ha => ?_)
  show Owned Fencing _ _ _ (a' ++ []) a
  rwa [List.append_nil]

theorem carries_fencing : fencing.Carries x (fun _ => True) (fun _ _ _ => Walled)
    (fun _ _ _ => Walled) fun _ _ _ => Walled where
  closed _ _ _ _ _ := trivial
  nil _ _ _ := weave_fencing.sealed_straight trivial
  cons := walled_append
  around h l := parallels_enclosed ((h l).mono fun _ _ _ h => h.owned)
  call _ _ := weave_fencing.sealed_straight ⟨trivial, trivial⟩
  statement _ hkind hchain := parallels_fenced _ hkind hchain
  followed _ ha hb := walled_append ha hb
  single _ h := h

theorem parallels_fencedFrame (l : Locals) :
    Parallels l (fencing.frameCode x) (frameCode x) (Walled l) := by
  refine (carries_fencing.parallels_frame (fun _ _ => trivial) l).mono ?_
  rintro _ _ _ ⟨b', b, rfl, rfl, hb⟩
  exact walled_append (fun _ => ⟨rfl, piece_simple _ rfl⟩) hb

/-- The late function has locals inside fences, next to its parameter. -/
theorem parallels_fencedLate (l : Locals) :
    Parallels l (fencing.lateCode x) (lateCode x) fun l' a' a =>
      Fencing [] ⟨l, [0], false⟩ a' a ⟨l', [0], false⟩ := by
  refine carries_fencing.parallels_late
    (T := fun _ l l' a' a => Fencing [] ⟨l, [0], false⟩ a' a ⟨l', [0], false⟩)
    (fun _ _ _ _ => trivial) (fun _ => weave_fencing.straight trivial)
    (fun ha hb => weave_fencing.append ha hb) (fun {id _ _ l _ _ _} _ _ _ hbody => ?_) l
  have hget := weave_fencing.gets (s := ⟨l, [0], false⟩) [0] fun _ hi => hi
  exact weave_fencing.append (C := []) (weave_fencing.append hget
    (weave_fencing.straight (a := [Compiler.id id, .numeric .i32Eq]) ⟨trivial, trivial, trivial⟩))
    (weave_fencing.when (hbody [0]))

theorem parallels_fencedMemo (k : MemoId) (m : MemoPoint) (l : Locals) :
    Parallels l (fencing.memoCode x k m) (memoCode x k m) (Walled l) := by
  rw [memoCode_eq]
  refine parallels_bind (parallels_fencedProduce _ m.source l) fun l' code' code hcode =>
    parallels_pure fun held => ⟨(hcode held).1, ?_⟩
  have hbody := piece_append (hcode held).2 (piece_append
    (piece_map (f := .globalSet) (fun _ => rfl) (cacheGlobals x k m).reverse)
    (piece_simple [.globalGet Target.frameGlobal, .globalSet (x.stampGlobal k)] rfl))
  exact piece_append (piece_append (piece_simple [.globalGet (x.stampGlobal k),
    .globalGet Target.frameGlobal, .numeric .i32Ne] rfl) (piece_when hbody))
    (piece_map (f := .globalGet) (fun _ => rfl) _)

end Compiler
end SignalGraph
