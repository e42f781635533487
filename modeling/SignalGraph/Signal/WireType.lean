/-!
# Wire types

What a wire carries: control, a value of one of six base types, or a reference to a variable of
that type.
-/

namespace SignalGraph

inductive Base where
  | float
  | vec3
  | rot
  | bool
  | obj
  | con
  deriving DecidableEq, Repr, Inhabited

namespace Base

def all : List Base := [.float, .vec3, .rot, .bool, .obj, .con]

def text : Base → String
  | float => "float"
  | vec3 => "vec3"
  | rot => "rot"
  | bool => "bool"
  | obj => "obj"
  | con => "con"

def tag : Base → String
  | float => "Float"
  | vec3 => "Vec3"
  | rot => "Rot"
  | bool => "Bool"
  | obj => "Obj"
  | con => "Con"

def word : Base → String
  | float => "Number"
  | vec3 => "Vector"
  | rot => "Rotation"
  | bool => "Truth"
  | obj => "Object"
  | con => "Constraint"

def index : Base → Nat
  | float => 0
  | vec3 => 1
  | rot => 2
  | bool => 3
  | obj => 4
  | con => 5

end Base

/-- The type of a terminal.  Control terminals carry no data; a pointer names an element of a
variable instead of holding a value. -/
inductive WireType where
  | void
  | value (b : Base)
  | pointer (b : Base)
  deriving DecidableEq, Repr, Inhabited

namespace WireType

/-- All types in the order of their codes. -/
def all : List WireType := .void :: Base.all.flatMap fun b => [value b, pointer b]

def code : WireType → Nat
  | void => 0
  | value b => 2 * b.index + 1
  | pointer b => 2 * b.index + 2

def ofCode? (n : Nat) : Option WireType := all[n]?

theorem ofCode?_code (t : WireType) : ofCode? t.code = some t := by
  cases t with
  | void => rfl
  | value b => cases b <;> rfl
  | pointer b => cases b <;> rfl

def isPointer : WireType → Bool
  | pointer _ => true
  | _ => false

def toPointer : WireType → WireType
  | value b => pointer b
  | t => t

def toValue : WireType → WireType
  | pointer b => value b
  | t => t

theorem toValue_toPointer (t : WireType) : t.toPointer.toValue = t.toValue := by
  cases t <;> rfl

/-- Whether an output of type `t` may feed an input of type `u`: the types agree, or the input wants
the value behind a pointer. -/
def drives (t u : WireType) : Bool :=
  match t, u with
  | pointer b, value c => b = c
  | t, u => t = u

def text : WireType → String
  | void => "void"
  | value b => b.text
  | pointer b => b.text ++ "*"

def tag : WireType → String
  | void => "Void"
  | value b => b.tag
  | pointer b => b.tag ++ "Ptr"

def ofTag? (s : String) : Option WireType := all.find? fun t => t.tag == s

/-- The word in block names.  A block without a value type counts as one for constraints. -/
def word : WireType → String
  | void => Base.con.word
  | value b => b.word
  | pointer b => b.word

end WireType
end SignalGraph
