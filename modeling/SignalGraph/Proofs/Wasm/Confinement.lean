import SignalGraph.Wasm.Machine

/-!
# Confinement

What code is limited to: the functions it calls, the globals and locals it sets, the loops in it,
and how far it branches.
-/

namespace SignalGraph
namespace Wasm

structure Limits where
  calls : Nat → Prop
  /-- The globals and locals that may be set. -/
  globals : Nat → Prop
  locals : Nat → Prop
  /-- The bodies of loops. -/
  loops : List Instr → Prop

mutual

/-- An instruction within limits that branches to none but the `labels` bodies around it. -/
def Instr.Confined (c : Limits) : (labels : Nat) → Instr → Prop
  | _, .localSet i => c.locals i
  | _, .globalSet i => c.globals i
  | _, .call f => c.calls f
  | labels, .when body => confined c (labels + 1) body
  | labels, .ifElse _ a b => confined c (labels + 1) a ∧ confined c (labels + 1) b
  | labels, .block body => confined c (labels + 1) body
  | labels, .loop body => c.loops body ∧ confined c (labels + 1) body
  | labels, .br label => label < labels
  | labels, .brIf label => label < labels
  | _, _ => True

def confined (c : Limits) : (labels : Nat) → List Instr → Prop
  | _, [] => True
  | labels, i :: rest => i.Confined c labels ∧ confined c labels rest

end

variable {c c' : Limits} {labels : Nat} {a b : List Instr}

theorem confined_nil : confined c labels [] := trivial

theorem confined_append :
    confined c labels (a ++ b) ↔ confined c labels a ∧ confined c labels b := by
  induction a with
  | nil => exact ⟨fun h => ⟨trivial, h⟩, And.right⟩
  | cons i rest ih =>
    show i.Confined c labels ∧ confined c labels (rest ++ b) ↔ _
    rw [ih, ← and_assoc]
    rfl

theorem confined_flatten {codes : List (List Instr)}
    (h : ∀ code ∈ codes, confined c labels code) : confined c labels codes.flatten := by
  induction codes with
  | nil => exact confined_nil
  | cons code rest ih =>
    rw [List.flatten_cons, confined_append]
    exact ⟨h code List.mem_cons_self, ih fun c hc => h c (List.mem_cons_of_mem code hc)⟩

theorem confined_map {α : Type} {f : α → Instr} {as : List α}
    (h : ∀ a ∈ as, (f a).Confined c labels) : confined c labels (as.map f) := by
  induction as with
  | nil => exact confined_nil
  | cons a rest ih =>
    exact ⟨h a List.mem_cons_self, ih fun b hb => h b (List.mem_cons_of_mem a hb)⟩

structure Limits.Within (c c' : Limits) : Prop where
  calls : ∀ f, c.calls f → c'.calls f
  globals : ∀ i, c.globals i → c'.globals i
  locals : ∀ i, c.locals i → c'.locals i
  loops : ∀ body, c.loops body → c'.loops body

mutual

theorem Instr.Confined.mono (hc : c.Within c') : ∀ {labels : Nat} {i : Instr},
    i.Confined c labels → i.Confined c' labels
  | _, .localSet i, h => hc.locals i h
  | _, .globalSet i, h => hc.globals i h
  | _, .call f, h => hc.calls f h
  | _, .when _, h => confined_mono hc (h : confined c _ _)
  | _, .ifElse _ _ _, h => ⟨confined_mono hc h.1, confined_mono hc h.2⟩
  | _, .block _, h => confined_mono hc (h : confined c _ _)
  | _, .loop body, h => ⟨hc.loops body h.1, confined_mono hc h.2⟩
  | _, .br _, h => h
  | _, .brIf _, h => h
  | _, .const _, _ | _, .localGet _, _ | _, .globalGet _, _ | _, .numeric _, _ => trivial

theorem confined_mono (hc : c.Within c') : ∀ {labels : Nat} {code : List Instr},
    confined c labels code → confined c' labels code
  | _, [], _ => trivial
  | _, _ :: _, h => ⟨Instr.Confined.mono hc h.1, confined_mono hc h.2⟩

end

/-- Code that sets only locals from a number on, whatever else it does. -/
def sparing (lo : Nat) : Limits := ⟨fun _ => True, fun _ => True, (lo ≤ ·), fun _ => True⟩

/-- The body of a loop that counts a local up to another, and leaves both alone in between. -/
def Counts (body : List Instr) : Prop :=
  ∃ k count between, count < k ∧ confined (sparing (k + 1)) 0 between ∧
    body = [.localGet k, .localGet count, .numeric .i32GeU, .brIf 1] ++ between ++
      [.localGet k, .const (.i32 1), .numeric .i32Add, .localSet k, .br 0]

end Wasm

end SignalGraph
