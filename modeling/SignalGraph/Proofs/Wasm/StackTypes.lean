import SignalGraph.Wasm.Typing

/-!
# Stack types of code

What code takes from the stack and what it leaves there, whatever lies below and however many bodies
are around it.
-/

namespace SignalGraph
namespace Wasm

theorem zero_type (t : LaneType) : t.zero.type = t := by
  cases t <;> rfl

namespace StackType

variable {s : StackType} {ts us : List LaneType} {t : LaneType}

theorem pushAll_append : s.pushAll (ts ++ us) = (s.pushAll ts).pushAll us := by
  rw [pushAll, pushAll, pushAll, List.foldl_append]

theorem pop_push : (s.push t).pop t = some s := by
  rw [pop, push]
  simp only [if_true]

theorem popAll_pushAll (ts : List LaneType) (s : StackType) :
    (s.pushAll ts).popAll ts = some s := by
  induction ts generalizing s with
  | nil => rfl
  | cons t rest ih =>
    have hpop : (s.pushAll (t :: rest)).popAll (t :: rest) =
        ((s.push t).pushAll rest).popAll rest >>= pop t := rfl
    rw [hpop, ih (s.push t)]
    exact pop_push

theorem isExactly_pushAll (ts : List LaneType) :
    (({ lanes := [] } : StackType).pushAll ts).isExactly ts = true := by
  rw [isExactly, popAll_pushAll]
  rfl

end StackType

namespace Typing

open StackType

variable {c : TypingContext} {labels : List (Option LaneType)} {a b : List Instr}
  {ins mid outs : List LaneType}

theorem instrs_cons (s : StackType) (i : Instr) (rest : List Instr) :
    instrs c labels s (i :: rest) = instr c labels s i >>= fun s => instrs c labels s rest := by
  rw [instrs]
  cases instr c labels s i <;> rfl

theorem instr_localGet (s : StackType) (i : Nat) :
    instr c labels s (.localGet i) = (c.locals[i]?).map s.push := rfl

theorem instr_localSet (s : StackType) (i : Nat) :
    instr c labels s (.localSet i) = c.locals[i]? >>= fun t => s.pop t := rfl

theorem instr_globalGet (s : StackType) (i : Nat) :
    instr c labels s (.globalGet i) = (c.globals[i]?).map s.push := rfl

theorem instr_globalSet (s : StackType) (i : Nat) :
    instr c labels s (.globalSet i) = c.globals[i]? >>= fun t => s.pop t := rfl

theorem instr_call (s : StackType) (f : Nat) :
    instr c labels s (.call f) = c.functions f >>= fun t =>
      s.popAll t.params >>= fun s => some (s.pushAll t.results) := rfl

theorem instr_numeric (s : StackType) (op : Numeric) :
    instr c labels s (.numeric op) =
      s.popAll op.type.1 >>= fun s => some (s.push op.type.2) := rfl

theorem instr_when (s : StackType) (body : List Instr) :
    instr c labels s (.when body) = s.pop .i32 >>= fun s =>
      if leaves [] (instrs c (none :: labels) { lanes := [] } body) then some s else none := rfl

theorem instr_ifElse (s : StackType) (result : Option LaneType) (a b : List Instr) :
    instr c labels s (.ifElse result a b) = s.pop .i32 >>= fun s =>
      if leaves result.toList (instrs c (result :: labels) { lanes := [] } a) &&
          leaves result.toList (instrs c (result :: labels) { lanes := [] } b) then
        some (s.pushAll result.toList)
      else none := rfl

theorem instr_block (s : StackType) (body : List Instr) :
    instr c labels s (.block body) =
      if leaves [] (instrs c (none :: labels) { lanes := [] } body) then some s else none := rfl

theorem instr_loop (s : StackType) (body : List Instr) :
    instr c labels s (.loop body) =
      if leaves [] (instrs c (none :: labels) { lanes := [] } body) then some s else none := rfl

theorem instr_brIf (s : StackType) (label : Nat) :
    instr c labels s (.brIf label) =
      if labels[label]? = some none then s.pop .i32 else none := rfl

theorem instrs_append (s : StackType) :
    instrs c labels s (a ++ b) = instrs c labels s a >>= fun s => instrs c labels s b := by
  induction a generalizing s with
  | nil => rfl
  | cons i rest ih =>
    rw [List.cons_append, instrs_cons, instrs_cons]
    cases instr c labels s i with
    | none => rfl
    | some s' => exact ih s'

/-- Code that takes lanes `ins` and leaves lanes `outs`. -/
def Types (c : TypingContext) (labels : List (Option LaneType)) (code : List Instr)
    (ins outs : List LaneType) : Prop :=
  ∀ s : StackType, instrs c labels (s.pushAll ins) code = some (s.pushAll outs)

theorem types_nil : Types c labels [] ins ins := fun _ => rfl

theorem types_append (ha : Types c labels a ins mid) (hb : Types c labels b mid outs) :
    Types c labels (a ++ b) ins outs := by
  intro s
  rw [instrs_append, ha s]
  exact hb s

/-- What lies below the lanes that code takes stays there. -/
theorem types_frame (below : List LaneType) (h : Types c labels a ins outs) :
    Types c labels a (below ++ ins) (below ++ outs) := by
  intro s
  rw [pushAll_append, pushAll_append]
  exact h (s.pushAll below)

/-- Code that takes nothing puts its lanes on top of any others. -/
theorem types_push (below : List LaneType) (h : Types c labels a [] outs) :
    Types c labels a below (below ++ outs) := by
  have hframe := types_frame below h
  rwa [List.append_nil] at hframe

/-- Code followed by code that takes only the lanes on top. -/
theorem types_then (ha : Types c labels a ins mid) {top : List LaneType}
    (hb : Types c labels b [] top) : Types c labels (a ++ b) ins (mid ++ top) :=
  types_append ha (types_push mid hb)

theorem types_instr {i : Instr}
    (h : ∀ s : StackType, instr c labels (s.pushAll ins) i = some (s.pushAll outs)) :
    Types c labels [i] ins outs := by
  intro s
  rw [instrs_cons, h s]
  rfl

theorem types_cons {i : Instr} (hi : Types c labels [i] ins mid) (hb : Types c labels b mid outs) :
    Types c labels (i :: b) ins outs :=
  types_append hi hb

theorem types_const (lane : Lane) : Types c labels [.const lane] [] [lane.type] :=
  types_instr fun _ => rfl

theorem types_consts : ∀ lanes : List Lane,
    Types c labels (lanes.map .const) [] (lanes.map Lane.type)
  | [] => types_nil
  | lane :: rest => types_append (types_const lane) (types_push [lane.type] (types_consts rest))

theorem types_localGet {i : Nat} {t : LaneType} (h : c.locals[i]? = some t) :
    Types c labels [.localGet i] [] [t] :=
  types_instr fun s => by
    rw [instr_localGet, h]
    rfl

theorem types_localSet {i : Nat} {t : LaneType} (h : c.locals[i]? = some t) :
    Types c labels [.localSet i] [t] [] :=
  types_instr fun s => by
    rw [instr_localSet, h]
    exact pop_push

theorem types_globalGet {i : Nat} {t : LaneType} (h : c.globals[i]? = some t) :
    Types c labels [.globalGet i] [] [t] :=
  types_instr fun s => by
    rw [instr_globalGet, h]
    rfl

theorem types_globalSet {i : Nat} {t : LaneType} (h : c.globals[i]? = some t) :
    Types c labels [.globalSet i] [t] [] :=
  types_instr fun s => by
    rw [instr_globalSet, h]
    exact pop_push

theorem types_call {f : Nat} {type : FunctionType} (h : c.functions f = some type) :
    Types c labels [.call f] type.params type.results :=
  types_instr fun s => by
    rw [instr_call, h, Option.bind_eq_bind, Option.bind_some, popAll_pushAll]
    rfl

theorem types_numeric (op : Numeric) : Types c labels [.numeric op] op.type.1 [op.type.2] :=
  types_instr fun s => by
    rw [instr_numeric, popAll_pushAll]
    rfl

theorem leaves_of_types (h : Types c labels a [] outs) :
    leaves outs (instrs c labels { lanes := [] } a) = true := by
  have hrun := h { lanes := [] }
  rw [show (({ lanes := [] } : StackType).pushAll []) = { lanes := [] } from rfl] at hrun
  rw [hrun]
  exact isExactly_pushAll outs

theorem types_when {body : List Instr} (h : Types c (none :: labels) body [] []) :
    Types c labels [.when body] [.i32] [] :=
  types_instr fun s => by
    rw [instr_when, leaves_of_types h]
    show (s.push .i32).pop .i32 >>= _ = _
    rw [pop_push]
    rfl

theorem types_ifElse {r : Option LaneType} (ha : Types c (r :: labels) a [] r.toList)
    (hb : Types c (r :: labels) b [] r.toList) :
    Types c labels [.ifElse r a b] [.i32] r.toList :=
  types_instr fun s => by
    rw [instr_ifElse, leaves_of_types ha, leaves_of_types hb]
    show (s.push .i32).pop .i32 >>= _ = _
    rw [pop_push]
    rfl

theorem types_brIf {label : Nat} (h : labels[label]? = some none) :
    Types c labels [.brIf label] [.i32] [] :=
  types_instr fun s => by
    rw [instr_brIf, if_pos h]
    exact pop_push

/-- A loop in a block, whose body ends by starting again. -/
theorem types_block_loop (h : Types c (none :: none :: labels) a [] []) :
    Types c labels [.block [.loop (a ++ [.br 0])]] [] [] :=
  types_instr fun s => by
    have hbody : instrs c (none :: none :: labels) { lanes := [] } (a ++ [.br 0]) =
        some { lanes := [], isOpen := true } := by
      rw [instrs_append, show instrs c (none :: none :: labels) { lanes := [] } a = _ from
        h { lanes := [] }]
      rfl
    have hloop : instrs c (none :: labels) { lanes := [] } [.loop (a ++ [.br 0])] =
        some { lanes := [] } := by
      rw [instrs_cons, instr_loop, hbody]
      rfl
    rw [instr_block, hloop]
    rfl

end Typing
end Wasm
end SignalGraph
