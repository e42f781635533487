import SignalGraph.Block.Kind
import SignalGraph.Engine.Request
import SignalGraph.Geometry.Routines
import SignalGraph.Program.Basic

/-!
# What blocks do

The function or request behind each block of a uniform group, from the values of its inputs to those
of its outputs.  Both ways of running a program use these tables.
-/

namespace SignalGraph

def Pointer.ref? (vars : List Variable) (p : Pointer) : Option VariableRef :=
  (vars[p.var]?).map fun v => { name := v.name, index := p.index }

/-- The value of one output; numbers past the last output mean the last. -/
def pickOutput (outputs : List Value) (output : Nat) : Value :=
  outputs.getD (min output (outputs.length - 1)) .void

def Literal.value (c : Constant) : Literal → Value
  | number => .float c.asFloat
  | vector => .vec3 c.asVec3
  | rotation => .rot c.asRot
  | truth b => .bool b

namespace Operation

def apply : Operation → List Value → List Value
  | negate, [a] => [.float (-a.asFloat)]
  | not, [a] => [.bool (!a.asBool)]
  | addNumbers, [a, b] => [.float (a.asFloat + b.asFloat)]
  | addVectors, [a, b] => [.vec3 (a.asVec3 + b.asVec3)]
  | subtractNumbers, [a, b] => [.float (a.asFloat - b.asFloat)]
  | subtractVectors, [a, b] => [.vec3 (a.asVec3 - b.asVec3)]
  | multiply, [a, b] => [.float (a.asFloat * b.asFloat)]
  | scale, [a, b] => [.vec3 (a.asVec3 * b.asFloat)]
  | divide, [a, b] => [.float (a.asFloat / b.asFloat)]
  | equalObjects, [a, b] => [.bool (a.asObj == b.asObj)]
  | equalTruths, [a, b] => [.bool (a.asBool == b.asBool)]
  | lessThan, [a, b] => [.bool (decide (a.asFloat < b.asFloat))]
  | greaterThan, [a, b] => [.bool (decide (b.asFloat < a.asFloat))]
  | round, [a] => [.float (Binary32.roundEven a.asFloat)]
  | floor, [a] => [.float a.asFloat.floor]
  | ceiling, [a] => [.float a.asFloat.ceil]
  | absolute, [a] => [.float a.asFloat.abs]
  | makeVector, [a, b, c] => [.vec3 ⟨a.asFloat, b.asFloat, c.asFloat⟩]
  | breakVector, [a] => [.float a.asVec3.x, .float a.asVec3.y, .float a.asVec3.z]
  | _, _ => []

end Operation

namespace Routine

open Routines

def apply : Routine → List Value → List Value
  | inverse, [a] => [.rot a.asRot.inverse]
  | rotate, [a, b] => [.vec3 (b.asRot.rotate a.asVec3)]
  | combine, [a, b] => [.rot (a.asRot * b.asRot)]
  | .modulo, [a, b] => [.float (Routines.modulo a.asFloat b.asFloat)]
  | power, [a, b] => [.float (Binary32.pow a.asFloat b.asFloat)]
  | equalNumbers, [a, b] => [.bool (numbersEqual a.asFloat b.asFloat)]
  | equalVectors, [a, b] => [.bool (vectorsEqual a.asVec3 b.asVec3)]
  | min, [a, b] => [.float (Binary32.least a.asFloat b.asFloat)]
  | max, [a, b] => [.float (Binary32.greatest a.asFloat b.asFloat)]
  | sin, [a] => [.float (sinDegrees a.asFloat)]
  | cos, [a] => [.float (cosDegrees a.asFloat)]
  | .logarithm, [a, b] => [.float (Routines.logarithm a.asFloat b.asFloat)]
  | normalize, [a] => [.vec3 a.asVec3.normalize]
  | dotProduct, [a, b] => [.float (a.asVec3.dot b.asVec3)]
  | crossProduct, [a, b] => [.vec3 (a.asVec3.cross b.asVec3)]
  | distance, [a, b] => [.float (a.asVec3.distance b.asVec3)]
  | lerp, [a, b, c] => [.rot (a.asRot.slerp b.asRot c.asFloat)]
  | .axisAngle, [a, b] => [.rot (Routines.axisAngle a.asVec3 b.asFloat)]
  | .lineVsPlane, [a, b, c, d] =>
    [.vec3 (Routines.lineVsPlane a.asVec3 b.asVec3 c.asVec3 d.asVec3)]
  | .lookRotation, [a, b] => [.rot (Routines.lookRotation a.asVec3 b.asVec3)]
  | .makeRotation, [a, b, c] => [.rot (Routines.makeRotation a.asFloat b.asFloat c.asFloat)]
  | .breakRotation, [a] =>
    let angles := Routines.breakRotation a.asRot
    [.float angles.x, .float angles.y, .float angles.z]
  | _, _ => []

end Routine

variable {σ : Type}

namespace Query

def ask (e : Engine σ) : Query → List Value → StateM σ (List Value)
  | screenSize, [] => do
    let size ← e.ask .screenSize
    return [.float size.x, .float size.y]
  | accelerometer, [] => return [.vec3 (← e.ask .accelerometer)]
  | getPosition, [a] => do
    let (position, rotation) ← e.ask (.getPosition a.asObj)
    return [.vec3 position, .rot rotation]
  | raycast, [a, b] => do
    let hit ← e.ask (.raycast a.asVec3 b.asVec3)
    return [.bool hit.hit, .vec3 hit.position, .obj hit.object]
  | getSize, [a] => do
    let (least, greatest) ← e.ask (.getSize a.asObj)
    return [.vec3 least, .vec3 greatest]
  | getVelocity, [a] => do
    let (velocity, spin) ← e.ask (.getVelocity a.asObj)
    return [.vec3 velocity, .vec3 spin]
  | random, [a, b] => return [.float (← e.ask (.random a.asFloat b.asFloat))]
  | screenToWorld, [a, b] => do
    let (near, far) ← e.ask (.screenToWorld ⟨a.asFloat, b.asFloat⟩)
    return [.vec3 near, .vec3 far]
  | worldToScreen, [a] => do
    let screen ← e.ask (.worldToScreen a.asVec3)
    return [.float screen.x, .float screen.y]
  | _, _ => return []

end Query

namespace Effect

def optFloat (v : Option Value) : Option Binary32 := v.map Value.asFloat

def optVec3 (v : Option Value) : Option Vec3 := v.map Value.asVec3

def optRot (v : Option Value) : Option Rotation := v.map Value.asRot

/-- Makes the request with a number from the node's constant and the values of the inputs, and
returns what the node keeps of the answer.  Only inputs that may be left out can be absent. -/
def perform (e : Engine σ) (effect : Effect) (number : Int32) (inputs : List (Option Value)) :
    StateM σ (Option Value) :=
  let done := fun (r : Request Unit) => do
    e.ask r
    return none
  match effect, inputs with
  | win, [] => done (.win number)
  | lose, [] => done (.lose number)
  | setScore, [a, b] => done (.setScore (optFloat a) (optFloat b) number)
  | setCamera, [a, b, c] => done (.setCamera (optVec3 a) (optRot b) (optFloat c) (number != 0))
  | setLight, [a, b] => done (.setLight (optVec3 a) (optRot b))
  | setPosition, [some a, b, c] => done (.setPosition a.asObj (optVec3 b) (optRot c))
  | setVisible, [some a, some b] => done (.setVisible a.asObj b.asBool)
  | createObject, [some a] => return some (.obj (← e.ask (.createObject a.asObj)))
  | destroyObject, [some a] => done (.destroyObject a.asObj)
  | playSound, [some a, some b] =>
    return some (.float (← e.ask (.playSound a.asFloat b.asFloat number)))
  | stopSound, [some a] => done (.stopSound a.asFloat)
  | volumePitch, [some a, b, c] => done (.volumePitch a.asFloat (optFloat b) (optFloat c))
  | addForce, [some a, b, c, d] => done (.addForce a.asObj (optVec3 b) (optVec3 c) (optVec3 d))
  | setVelocity, [some a, b, c] => done (.setVelocity a.asObj (optVec3 b) (optVec3 c))
  | setLocked, [some a, b, c] => done (.setLocked a.asObj (optVec3 b) (optVec3 c))
  | setMass, [some a, some b] => done (.setMass a.asObj b.asFloat)
  | setFriction, [some a, some b] => done (.setFriction a.asObj b.asFloat)
  | setBounciness, [some a, some b] => done (.setBounciness a.asObj b.asFloat)
  | setGravity, [some a] => done (.setGravity a.asVec3)
  | addConstraint, [some a, some b, c] =>
    return some (.con (← e.ask (.addConstraint a.asObj b.asObj (optVec3 c))))
  | linearLimits, [some a, b, c] => done (.linearLimits a.asCon (optVec3 b) (optVec3 c))
  | angularLimits, [some a, b, c] => done (.angularLimits a.asCon (optVec3 b) (optVec3 c))
  | linearSpring, [some a, b, c] => done (.linearSpring a.asCon (optVec3 b) (optVec3 c))
  | angularSpring, [some a, b, c] => done (.angularSpring a.asCon (optVec3 b) (optVec3 c))
  | linearMotor, [some a, b, c] => done (.linearMotor a.asCon (optVec3 b) (optVec3 c))
  | angularMotor, [some a, b, c] => done (.angularMotor a.asCon (optVec3 b) (optVec3 c))
  | randomSeed, [some a] => done (.setRandomSeed a.asFloat)
  | joystick, [] => return some (.vec3 (← e.ask (.joystick (.ofRaw number))))
  | _, _ => return none

def hasNumber : Effect → Bool
  | win => true
  | lose => true
  | setScore => true
  | setCamera => true
  | playSound => true
  | joystick => true
  | _ => false

def number (c : Constant) : Effect → Int32
  | setCamera => if c.asFlag then 1 else 0
  | _ => c.asInt

end Effect
end SignalGraph
