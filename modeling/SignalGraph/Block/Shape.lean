import SignalGraph.Block.Kind
import SignalGraph.Place.Pos
import SignalGraph.Signal.Value

/-!
# Shapes of blocks

The terminals of every built-in block, the values behind unconnected inputs, and the state that an
instance keeps.
-/

namespace SignalGraph

structure Pin where
  type : WireType
  name : String
  /-- Whether the engine is told that the input is unconnected. -/
  optional : Bool := false
  deriving DecidableEq, Repr

namespace Pin

def data (b : Base) (name : String) : Pin := { type := .value b, name }

def maybe (b : Base) (name : String) : Pin := { type := .value b, name, optional := true }

def control (name : String) : Pin := { type := .void, name }

end Pin

structure Shape where
  name : String
  footprint : Footprint
  /-- Whether the block is part of the flow of control. -/
  active : Bool
  inputs : List Pin
  /-- Outputs from the far row to the near one; those without a type are branches. -/
  outputs : List Pin

namespace Shape

def passive (name : String) (depth : Int) (inputs outputs : List Pin) : Shape :=
  { name, footprint := ⟨2, depth⟩, active := false, inputs, outputs }

def running (name : String) (depth : Int) (inputs outputs : List Pin) : Shape :=
  { name, footprint := ⟨2, depth⟩, active := true, inputs, outputs }

def unary (name : String) (input output : Pin) : Shape := passive name 1 [input] [output]

def binary (name : String) (first second output : Pin) : Shape :=
  passive name 2 [first, second] [output]

end Shape

open Pin Shape

def Literal.shape : Literal → Shape
  | number => passive "Number" 1 [] [data .float "Number"]
  | vector => passive "Vector" 1 [] [data .vec3 "Vector"]
  | rotation => passive "Rotation" 1 [] [data .rot "Rotation"]
  | truth true => passive "True" 1 [] [data .bool "True"]
  | truth false => passive "False" 1 [] [data .bool "False"]

def Operation.shape : Operation → Shape
  | negate => unary "Negate" (data .float "Num") (data .float "-Num")
  | not => unary "Not" (data .bool "Tru") (data .bool "Not Tru")
  | addNumbers =>
    binary "Add Numbers" (data .float "Num1") (data .float "Num2") (data .float "Sum")
  | addVectors => binary "Add Vectors" (data .vec3 "Vec1") (data .vec3 "Vec2") (data .vec3 "Sum")
  | subtractNumbers =>
    binary "Subtract Numbers" (data .float "Num1") (data .float "Num2") (data .float "Difference")
  | subtractVectors =>
    binary "Subtract Vectors" (data .vec3 "Vec1") (data .vec3 "Vec2") (data .vec3 "Difference")
  | multiply => binary "Multiply" (data .float "Num1") (data .float "Num2") (data .float "Product")
  | scale => binary "Scale" (data .vec3 "Vec") (data .float "Num") (data .vec3 "Product")
  | divide => binary "Divide" (data .float "Num1") (data .float "Num2") (data .float "Quotient")
  | equalObjects =>
    binary "Equal Objects" (data .obj "Obj1") (data .obj "Obj2") (data .bool "Equal")
  | equalTruths =>
    binary "Equal Truths" (data .bool "Tru1") (data .bool "Tru2") (data .bool "Equal")
  | lessThan => binary "Less Than" (data .float "Num1") (data .float "Num2") (data .bool "Less")
  | greaterThan =>
    binary "Greater Than" (data .float "Num1") (data .float "Num2") (data .bool "Greater")
  | round => unary "Round" (data .float "Number") (data .float "Rounded")
  | floor => unary "Floor" (data .float "Number") (data .float "Floor")
  | ceiling => unary "Ceiling" (data .float "Number") (data .float "Ceiling")
  | absolute => unary "Absolute" (data .float "Number") (data .float "Absolute")
  | makeVector =>
    passive "Make Vector" 3 [data .float "X", data .float "Y", data .float "Z"]
      [data .vec3 "Vector"]
  | breakVector =>
    passive "Break Vector" 3 [data .vec3 "Vector"]
      [data .float "X", data .float "Y", data .float "Z"]

def Routine.shape : Routine → Shape
  | inverse => unary "Inverse" (data .rot "Rot") (data .rot "Rot Inverse")
  | rotate => binary "Rotate" (data .vec3 "Vec") (data .rot "Rot") (data .vec3 "Rotated Vec")
  | combine => binary "Combine" (data .rot "Rot1") (data .rot "Rot2") (data .rot "Rot1 * Rot2")
  | modulo => binary "Modulo" (data .float "Num1") (data .float "Num2") (data .float "Remainder")
  | power => binary "Power" (data .float "Base") (data .float "Exponent") (data .float "Power")
  | equalNumbers =>
    binary "Equal Numbers" (data .float "Num1") (data .float "Num2") (data .bool "Equal")
  | equalVectors =>
    binary "Equal Vectors" (data .vec3 "Vec1") (data .vec3 "Vec2") (data .bool "Equal")
  | min => binary "Min" (data .float "Num1") (data .float "Num2") (data .float "Min")
  | max => binary "Max" (data .float "Num1") (data .float "Num2") (data .float "Max")
  | sin => unary "Sin" (data .float "Num") (data .float "Sin")
  | cos => unary "Cos" (data .float "Num") (data .float "Cos")
  | logarithm =>
    binary "Logarithm" (data .float "Number") (data .float "Base") (data .float "Logarithm")
  | normalize => unary "Normalize" (data .vec3 "Vector") (data .vec3 "Normalized")
  | dotProduct =>
    binary "Dot Product" (data .vec3 "Vec1") (data .vec3 "Vec2") (data .float "Dot Product")
  | crossProduct =>
    binary "Cross Product" (data .vec3 "Vec1") (data .vec3 "Vec2") (data .vec3 "Cross Product")
  | distance => binary "Distance" (data .vec3 "Vec1") (data .vec3 "Vec2") (data .float "Distance")
  | lerp =>
    passive "Lerp" 3 [data .rot "From", data .rot "To", data .float "Amount"]
      [data .rot "Rotation"]
  | axisAngle =>
    binary "Axis Angle" (data .vec3 "Axis") (data .float "Angle") (data .rot "Rotation")
  | lineVsPlane =>
    passive "Line vs Plane" 4
      [data .vec3 "Line From", data .vec3 "Line To", data .vec3 "Plane Point",
        data .vec3 "Plane Normal"]
      [data .vec3 "Intersection"]
  | lookRotation =>
    binary "Look Rotation" (data .vec3 "Direction") (data .vec3 "Up") (data .rot "Rotation")
  | makeRotation =>
    passive "Make Rotation" 3 [data .float "X Angle", data .float "Y Angle", data .float "Z Angle"]
      [data .rot "Rotation"]
  | breakRotation =>
    passive "Break Rotation" 3 [data .rot "Rotation"]
      [data .float "X Angle", data .float "Y Angle", data .float "Z Angle"]

def Query.shape : Query → Shape
  | screenSize => passive "Screen Size" 2 [] [data .float "Width", data .float "Height"]
  | accelerometer => passive "Accelerometer" 1 [] [data .vec3 "Direction"]
  | getPosition =>
    passive "Get Position" 2 [data .obj "Object"] [data .vec3 "Position", data .rot "Rotation"]
  | raycast =>
    passive "Raycast" 3 [data .vec3 "From", data .vec3 "To"]
      [data .bool "Hit", data .vec3 "Hit Pos", data .obj "Hit Obj"]
  | getSize => passive "Get Size" 2 [data .obj "Object"] [data .vec3 "Min", data .vec3 "Max"]
  | getVelocity =>
    passive "Get Velocity" 2 [data .obj "Object"] [data .vec3 "Velocity", data .vec3 "Spin"]
  | random => binary "Random" (data .float "Min") (data .float "Max") (data .float "Random")
  | screenToWorld =>
    passive "Screen To World" 2 [data .float "Screen X", data .float "Screen Y"]
      [data .vec3 "World Near", data .vec3 "World Far"]
  | worldToScreen =>
    passive "World To Screen" 2 [data .vec3 "World Pos"]
      [data .float "Screen X", data .float "Screen Y"]

def Expression.shape : Expression → Shape
  | literal l => l.shape
  | operation op => op.shape
  | routine r => r.shape
  | query q => q.shape
  | currentFrame => passive "Current Frame" 1 [] [data .float "Counter"]
  | and => binary "And" (data .bool "Tru1") (data .bool "Tru2") (data .bool "And")
  | or => binary "Or" (data .bool "Tru1") (data .bool "Tru2") (data .bool "Or")
  | getVariable t => passive ("Get " ++ t.word) 1 [] [{ type := t.toPointer, name := "Variable" }]
  | list t =>
    passive ("List " ++ t.word) 2 [{ type := t.toPointer, name := "Variable" }, data .float "Index"]
      [{ type := t.toPointer, name := "Element" }]

def Effect.shape : Effect → Shape
  | win => running "Win" 2 [] []
  | lose => running "Lose" 2 [] []
  | setScore => running "Set Score" 2 [maybe .float "Score", maybe .float "Coins"] []
  | setCamera =>
    running "Set Camera" 3
      [maybe .vec3 "Position", maybe .rot "Rotation", maybe .float "Range"] []
  | setLight => running "Set Light" 2 [maybe .vec3 "Position", maybe .rot "Rotation"] []
  | setPosition =>
    running "Set Position" 3
      [data .obj "Object", maybe .vec3 "Position", maybe .rot "Rotation"] []
  | setVisible => running "Set Visible" 2 [data .obj "Object", data .bool "Visible"] []
  | createObject => running "Create Object" 2 [data .obj "Original"] [data .obj "Copy"]
  | destroyObject => running "Destroy Object" 1 [data .obj "Object"] []
  | playSound =>
    running "Play Sound" 2 [data .float "Volume", data .float "Pitch"] [data .float "Channel"]
  | stopSound => running "Stop Sound" 1 [data .float "Channel"] []
  | volumePitch =>
    running "Volume Pitch" 3
      [data .float "Channel", maybe .float "Volume", maybe .float "Pitch"] []
  | addForce =>
    running "Add Force" 4
      [data .obj "Object", maybe .vec3 "Force", maybe .vec3 "Apply At", maybe .vec3 "Torque"] []
  | setVelocity =>
    running "Set Velocity" 3 [data .obj "Object", maybe .vec3 "Velocity", maybe .vec3 "Spin"] []
  | setLocked =>
    running "Set Locked" 3 [data .obj "Object", maybe .vec3 "Position", maybe .vec3 "Rotation"] []
  | setMass => running "Set Mass" 2 [data .obj "Object", data .float "Mass"] []
  | setFriction => running "Set Friction" 2 [data .obj "Object", data .float "Friction"] []
  | setBounciness => running "Set Bounciness" 2 [data .obj "Object", data .float "Bounciness"] []
  | setGravity => running "Set Gravity" 1 [data .vec3 "Gravity"] []
  | addConstraint =>
    running "Add Constraint" 3 [data .obj "Base", data .obj "Part", maybe .vec3 "Pivot"]
      [data .con "Constraint"]
  | linearLimits =>
    running "Linear Limits" 3
      [data .con "Constraint", maybe .vec3 "Lower", maybe .vec3 "Upper"] []
  | angularLimits =>
    running "Angular Limits" 3
      [data .con "Constraint", maybe .vec3 "Lower", maybe .vec3 "Upper"] []
  | linearSpring =>
    running "Linear Spring" 3
      [data .con "Constraint", maybe .vec3 "Stiffness", maybe .vec3 "Damping"] []
  | angularSpring =>
    running "Angular Spring" 3
      [data .con "Constraint", maybe .vec3 "Stiffness", maybe .vec3 "Damping"] []
  | linearMotor =>
    running "Linear Motor" 3 [data .con "Constraint", maybe .vec3 "Speed", maybe .vec3 "Force"] []
  | angularMotor =>
    running "Angular Motor" 3 [data .con "Constraint", maybe .vec3 "Speed", maybe .vec3 "Force"] []
  | randomSeed => running "Random Seed" 1 [data .float "Seed"] []
  | joystick => running "Joystick" 2 [] [data .vec3 "Joy Dir"]

def Statement.shape : Statement → Shape
  | effect e => e.shape
  | menuItem =>
    running "Menu Item" 2
      [{ type := .pointer .float, name := "Variable", optional := true }, data .obj "Picture"] []
  | ifThen => running "If" 2 [data .bool "Condition"] [control "True", control "False"]
  | playSensor => running "Play Sensor" 2 [] [control "On Play"]
  | lateUpdate => running "Late Update" 2 [] [control "After Physics"]
  | boxArtSensor => running "Box Art Sensor" 2 [] [control "On Screenshot"]
  | touchSensor =>
    running "Touch Sensor" 3 []
      [control "Touched", data .float "Screen X", data .float "Screen Y"]
  | swipeSensor => running "Swipe Sensor" 2 [] [control "Swiped", data .vec3 "Direction"]
  | button => running "Button" 2 [] [control "Button"]
  | collision =>
    running "Collision" 4 [data .obj "1st Object"]
      [control "Collided", data .obj "2nd Object", data .float "Impulse", data .vec3 "Normal"]
  | loop =>
    running "Loop" 2 [data .float "Start", data .float "Stop"]
      [control "Do", data .float "Counter"]
  | inspect t => running ("Inspect " ++ t.word) 2 [{ type := t, name := t.word }] []
  | setVariable t => running ("Set " ++ t.word) 1 [{ type := t.toValue, name := "Value" }] []
  | setPointer t =>
    running ("Set " ++ t.word ++ " Ref") 2
      [{ type := t.toPointer, name := "Variable" }, { type := t.toValue, name := "Value" }] []
  | increment => running "Increase Number" 1 [{ type := .pointer .float, name := "Variable" }] []
  | decrement => running "Decrease Number" 1 [{ type := .pointer .float, name := "Variable" }] []

namespace Kind

def shape : Kind → Shape
  | comment =>
    { name := "Comment", footprint := ⟨1, 1⟩, active := false, inputs := [], outputs := [] }
  | expression e => e.shape
  | statement s => s.shape

/-- The word for a kind in messages: as a rule, its name without blanks. -/
def label : Kind → String
  | expression (.getVariable t) => ofType "GetVariable" t
  | expression (.list t) => ofType "List" t
  | expression (.routine .lineVsPlane) => "LineVsPlane"
  | statement (.inspect t) => ofType "Inspect" t
  | statement (.setVariable t) => ofType "SetVariable" t
  | statement (.setPointer t) => ofType "SetPointer" t
  | statement .increment => "IncrementNumber"
  | statement .decrement => "DecrementNumber"
  | kind => String.ofList (kind.shape.name.toList.filter (· != ' '))
where
  ofType (name : String) (t : WireType) : String := name ++ "(" ++ t.tag ++ ")"

/-- The value of an unconnected input.  Most take the default of their type. -/
def inputDefault (kind : Kind) (input : Nat) (type : WireType) : Value :=
  match kind, input with
  | statement (.effect .playSound), 0 => .float 1
  | statement (.effect .playSound), 1 => .float 1
  | expression (.query .random), 1 => .float 1
  | expression (.routine .logarithm), 1 => .float 10
  | expression (.routine .lookRotation), 1 => .vec3 .unitY
  | _, _ => type.default

def variableType : Kind → Option WireType
  | expression (.getVariable t) => some t.toValue
  | statement (.setVariable t) => some t.toValue
  | _ => none

end Kind

def Effect.slots : Effect → List (String × Base)
  | playSound => [("channel", .float)]
  | joystick => [("joystick", .vec3)]
  | createObject => [("created", .obj)]
  | addConstraint => [("constraint", .con)]
  | _ => []

def Statement.slots : Statement → List (String × Base)
  | effect e => e.slots
  | loop => [("counter", .float)]
  | touchSensor => [("touch", .vec3)]
  | swipeSensor => [("swipe", .vec3)]
  | collision => [("other", .obj), ("impulse", .float), ("normal", .vec3)]
  | menuItem => [("registered", .bool)]
  | _ => []

/-- Where a data output of a statement reads: a slot of the instance, and the component of the
vector in it if only one is exposed. -/
def Statement.outputSlot : Statement → Nat → Option (Nat × Option Nat)
  | touchSensor, 0 => some (0, some 0)
  | touchSensor, 1 => some (0, some 1)
  | collision, 0 => some (0, none)
  | collision, 1 => some (1, none)
  | collision, 2 => some (2, none)
  | loop, 0 => some (0, none)
  | swipeSensor, 0 => some (0, none)
  | effect .playSound, 0 => some (0, none)
  | effect .joystick, 0 => some (0, none)
  | effect .createObject, 0 => some (0, none)
  | effect .addConstraint, 0 => some (0, none)
  | _, _ => none

namespace Kind

def slots : Kind → List (String × Base)
  | statement s => s.slots
  | _ => []

def outputSlot : Kind → Nat → Option (Nat × Option Nat)
  | statement s, output => s.outputSlot output
  | _, _ => none

end Kind
end SignalGraph
