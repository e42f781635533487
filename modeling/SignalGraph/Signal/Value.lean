import SignalGraph.Geometry.Rotation
import SignalGraph.Signal.WireType

/-!
# Values

What flows over a wire while a program runs.  Reading a value as another type than its own gives
that type's default.
-/

namespace SignalGraph

/-- A handle of a game object; zero is none. -/
abbrev ObjectId := Int32

/-- A handle of a physics constraint; zero is none. -/
abbrev ConstraintId := Int32

abbrev VarId := Nat

/-- One element of a variable.  A variable that is no list has one element, at index zero. -/
structure Pointer where
  var : VarId
  index : Int32
  deriving DecidableEq, Inhabited

inductive Value where
  | void
  | float (x : Binary32)
  | vec3 (v : Vec3)
  | rot (q : Rotation)
  | bool (b : Bool)
  | obj (id : ObjectId)
  | con (id : ConstraintId)
  | ptr (p : Pointer)
  deriving DecidableEq, Inhabited

def Base.default : Base → Value
  | float => .float 0
  | vec3 => .vec3 .zero
  | rot => .rot .identity
  | bool => .bool false
  | obj => .obj 0
  | con => .con 0

/-- The default behind a terminal of this type; a pointer has that of the value it leads to. -/
def WireType.default : WireType → Value
  | void => .void
  | value b => b.default
  | pointer b => b.default

namespace Value

def asFloat : Value → Binary32
  | float x => x
  | _ => 0

def asVec3 : Value → Vec3
  | vec3 v => v
  | _ => .zero

def asRot : Value → Rotation
  | rot q => q
  | _ => .identity

def asBool : Value → Bool
  | bool b => b
  | _ => false

def asObj : Value → ObjectId
  | obj id => id
  | _ => 0

def asCon : Value → ConstraintId
  | con id => id
  | _ => 0

def asPtr : Value → Option Pointer
  | ptr p => some p
  | _ => none

/-- The number that stands for a truth, an object or a constraint where only integers exist. -/
def asInt32 : Value → Int32
  | bool b => if b then 1 else 0
  | obj id => id
  | con id => id
  | _ => 0

/-- The truth, object or constraint that a number stands for; other types have no numbers. -/
def ofInt32 (t : WireType) (raw : Int32) : Value :=
  match t.toValue with
  | .value .bool => .bool (raw != 0)
  | .value .obj => .obj raw
  | .value .con => .con raw
  | other => other.default

def HasBase : Value → Base → Prop
  | float _, .float => True
  | vec3 _, .vec3 => True
  | rot _, .rot => True
  | bool _, .bool => True
  | obj _, .obj => True
  | con _, .con => True
  | _, _ => False

theorem hasBase_default (b : Base) : HasBase b.default b := by
  cases b <;> trivial

end Value
end SignalGraph
