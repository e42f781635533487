import SignalGraph.Signal.WireType

/-!
# Kinds of blocks

The built-in blocks, grouped by how they run.  Blocks of one group differ only in tables: the
terminals they have, and the function, request or call behind them.
-/

namespace SignalGraph

inductive Literal where
  | number
  | vector
  | rotation
  | truth (b : Bool)
  deriving DecidableEq, Repr

/-- Pure functions that are a few machine instructions each. -/
inductive Operation where
  | negate
  | not
  | addNumbers
  | addVectors
  | subtractNumbers
  | subtractVectors
  | multiply
  | scale
  | divide
  | equalObjects
  | equalTruths
  | lessThan
  | greaterThan
  | round
  | floor
  | ceiling
  | absolute
  | makeVector
  | breakVector
  deriving DecidableEq, Repr

/-- Pure functions that are called by name. -/
inductive Routine where
  | inverse
  | rotate
  | combine
  | modulo
  | power
  | equalNumbers
  | equalVectors
  | min
  | max
  | sin
  | cos
  | logarithm
  | normalize
  | dotProduct
  | crossProduct
  | distance
  | lerp
  | axisAngle
  | lineVsPlane
  | lookRotation
  | makeRotation
  | breakRotation
  deriving DecidableEq, Repr

inductive Query where
  | screenSize
  | accelerometer
  | getPosition
  | raycast
  | getSize
  | getVelocity
  | random
  | screenToWorld
  | worldToScreen
  deriving DecidableEq, Repr

/-- Blocks that are evaluated whenever one of their outputs is read. -/
inductive Expression where
  | literal (l : Literal)
  | operation (op : Operation)
  | routine (r : Routine)
  | query (q : Query)
  | currentFrame
  /-- Reads its second input only if the first is true. -/
  | and
  /-- Reads its second input only if the first is false. -/
  | or
  | getVariable (type : WireType)
  /-- A later element of the variable that a pointer leads to. -/
  | list (type : WireType)
  deriving DecidableEq, Repr

/-- Statements that are one request to the engine. -/
inductive Effect where
  | win
  | lose
  | setScore
  | setCamera
  | setLight
  | setPosition
  | setVisible
  | createObject
  | destroyObject
  | playSound
  | stopSound
  | volumePitch
  | addForce
  | setVelocity
  | setLocked
  | setMass
  | setFriction
  | setBounciness
  | setGravity
  | addConstraint
  | linearLimits
  | angularLimits
  | linearSpring
  | angularSpring
  | linearMotor
  | angularMotor
  | randomSeed
  | joystick
  deriving DecidableEq, Repr

/-- Blocks that run when control reaches them. -/
inductive Statement where
  | effect (e : Effect)
  | menuItem
  | ifThen
  | playSensor
  /-- Queues its body for the time after the physics step. -/
  | lateUpdate
  | boxArtSensor
  | touchSensor
  | swipeSensor
  | button
  | collision
  | loop
  | inspect (type : WireType)
  | setVariable (type : WireType)
  | setPointer (type : WireType)
  | increment
  | decrement
  deriving DecidableEq, Repr

/-- A built-in block.  A comment has no semantics. -/
inductive Kind where
  | comment
  | expression (e : Expression)
  | statement (s : Statement)
  deriving DecidableEq, Repr

namespace Kind

def literal (l : Literal) : Kind := expression (.literal l)

def operation (op : Operation) : Kind := expression (.operation op)

def routine (r : Routine) : Kind := expression (.routine r)

def query (q : Query) : Kind := expression (.query q)

def effect (e : Effect) : Kind := statement (.effect e)

end Kind
end SignalGraph
