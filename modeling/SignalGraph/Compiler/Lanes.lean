import SignalGraph.Program.Basic
import SignalGraph.Wasm.Module

/-!
# Lanes

How values travel through a module: a number in one lane, a vector in three, a rotation in four, and
truths, objects and constraints as an integer.  A pointer is its variable and its index, and a
missing one has variable `-1`.
-/

namespace SignalGraph

open Wasm

def Base.lanes : Base → List LaneType
  | float => [.f32]
  | vec3 => [.f32, .f32, .f32]
  | rot => [.f32, .f32, .f32, .f32]
  | bool => [.i32]
  | obj => [.i32]
  | con => [.i32]

def WireType.lanes : WireType → List LaneType
  | void => []
  | value b => b.lanes
  | pointer _ => [.i32, .i32]

namespace Lanes

def vec3 (v : Vec3) : List Lane := [.f32 v.x, .f32 v.y, .f32 v.z]

def rotation (q : Rotation) : List Lane := [.f32 q.x, .f32 q.y, .f32 q.z, .f32 q.w]

def pointer (p : Pointer) : List Lane := [.i32 (Int32.ofNat p.var), .i32 p.index]

def noPointer : List Lane := [.i32 (-1), .i32 0]

/-- The lanes of a value; nothing has none. -/
def ofValue : Value → List Lane
  | .void => []
  | .float x => [.f32 x]
  | .vec3 v => vec3 v
  | .rot q => rotation q
  | .ptr p => pointer p
  | v => [.i32 v.asInt32]

def toValue : Base → List Lane → Value
  | .float, [x] => .float x.asFloat
  | .vec3, [x, y, z] => .vec3 ⟨x.asFloat, y.asFloat, z.asFloat⟩
  | .rot, [x, y, z, w] => .rot ⟨x.asFloat, y.asFloat, z.asFloat, w.asFloat⟩
  | .bool, [n] => .bool (n.asInt != 0)
  | .obj, [n] => .obj n.asInt
  | .con, [n] => .con n.asInt
  | b, _ => b.default

/-- The pointer behind two integers; negative variables are missing. -/
def toPointer (var index : Int32) : Option Pointer :=
  if 0 ≤ var.toInt then some { var := var.toInt.toNat, index } else none

end Lanes

/-- A layout of lanes that values are stored and shown in. -/
inductive Format where
  | float
  | vec3
  | rot
  /-- Truths, objects and constraints, which are told apart by the type of what holds them. -/
  | word
  deriving DecidableEq, Repr

namespace Format

def lanes : Format → List LaneType
  | float => Base.float.lanes
  | vec3 => Base.vec3.lanes
  | rot => Base.rot.lanes
  | word => [.i32]

def ofBase : Base → Format
  | .float => float
  | .vec3 => vec3
  | .rot => rot
  | _ => word

/-- The layout of the values of a type; one without values counts as words. -/
def ofType : WireType → Format
  | .void => word
  | .value b => ofBase b
  | .pointer b => ofBase b

/-- The layout of a state slot.  No statement keeps a rotation. -/
def ofSlot : Base → Format
  | .float => float
  | .vec3 => vec3
  | _ => word

def suffix : Format → String
  | float => "f32"
  | vec3 => "vec3"
  | rot => "rot"
  | word => "i32"

/-- The lanes that hold a value in this layout; a value of another one counts as its default. -/
def ofValue (l : Format) (v : Value) : List Lane :=
  match l with
  | float => [.f32 v.asFloat]
  | vec3 => Lanes.vec3 v.asVec3
  | rot => Lanes.rotation v.asRot
  | word => [.i32 v.asInt32]

/-- The value in lanes of this layout.  Words need the type of what holds the value. -/
def toValue (l : Format) (holder : WireType) (lanes : List Lane) : Value :=
  match l, lanes with
  | word, [n] => .ofInt32 holder n.asInt
  | float, lanes => Lanes.toValue .float lanes
  | vec3, lanes => Lanes.toValue .vec3 lanes
  | rot, lanes => Lanes.toValue .rot lanes
  | word, _ => .void

end Format
end SignalGraph
