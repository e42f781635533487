import SignalGraph.Number.Style
import SignalGraph.Signal.Value
import SignalGraph.Text.Quoted

namespace SignalGraph

/-- Numbers of the record: positional from 0.0001 up to `10 ^ 16`.  Ties go up. -/
def recordStyle : FloatStyle :=
  { least := -4, greatest := 16, tie := .upper
    nan := "NaN", infinity := "inf", negativeInfinity := "-inf" }

namespace Text

def float (x : Binary32) : String := recordStyle.render x

def truth (b : Bool) : String := if b then "true" else "false"

def int (n : Int32) : String := toString n.toInt

def named (name : String) (parts : List String) : String :=
  name ++ "(" ++ String.intercalate ", " parts ++ ")"

def vec2 (v : Vec2) : String := named "Vec2" [float v.x, float v.y]

def vec3 (v : Vec3) : String := named "Vec3" [float v.x, float v.y, float v.z]

def rotation (q : Rotation) : String := named "Quat" [float q.x, float q.y, float q.z, float q.w]

def optional {α : Type} (write : α → String) : Option α → String
  | none => "None"
  | some a => named "Some" [write a]

def pointer (p : Pointer) : String :=
  "Pointer \x7b var: " ++ named "VarId" [toString p.var] ++ ", index: " ++ int p.index ++ " \x7d"

def value : Value → String
  | .void => "Void"
  | .float x => named "Float" [float x]
  | .vec3 v => named "Vec3" [vec3 v]
  | .rot q => named "Rot" [rotation q]
  | .bool b => named "Bool" [truth b]
  | .obj id => named "Obj" [named "ObjectId" [int id]]
  | .con id => named "Con" [named "ConstraintId" [int id]]
  | .ptr p => named "Ptr" [pointer p]

def values (vs : List Value) : String := "[" ++ String.intercalate ", " (vs.map value) ++ "]"

end Text
end SignalGraph
