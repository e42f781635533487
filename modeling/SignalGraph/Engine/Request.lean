import SignalGraph.Place.Pos
import SignalGraph.Signal.Value

/-!
# Requests

What a running program asks of the game engine.  The type of a request is the type of its answer.
-/

namespace SignalGraph

inductive TouchState where
  | touching
  | began
  | ended
  deriving DecidableEq, Repr

namespace TouchState

/-- The phase of that number; unknown numbers mean the first. -/
def ofRaw (n : Int32) : TouchState := if n = 1 then began else if n = 2 then ended else touching

def raw : TouchState → Int32
  | touching => 0
  | began => 1
  | ended => 2

def text : TouchState → String
  | touching => "Touching"
  | began => "Began"
  | ended => "Ended"

end TouchState

inductive ButtonStyle where
  | direction
  | point
  deriving DecidableEq, Repr

namespace ButtonStyle

def ofRaw (n : Int32) : ButtonStyle := if n = 1 then point else direction

def raw : ButtonStyle → Int32
  | direction => 0
  | point => 1

def text : ButtonStyle → String
  | direction => "Direction"
  | point => "Point"

end ButtonStyle

inductive JoystickStyle where
  | xz
  | screen
  deriving DecidableEq, Repr

namespace JoystickStyle

def ofRaw (n : Int32) : JoystickStyle := if n = 1 then screen else xz

def raw : JoystickStyle → Int32
  | xz => 0
  | screen => 1

def text : JoystickStyle → String
  | xz => "Xz"
  | screen => "Screen"

end JoystickStyle

structure RaycastHit where
  hit : Bool
  position : Vec3
  object : ObjectId
  deriving DecidableEq

structure Contact where
  object : ObjectId
  impulse : Binary32
  normal : Vec3
  deriving DecidableEq

structure VariableRef where
  name : String
  index : Int32
  deriving DecidableEq

/-- A request, by the type of its answer.  An absent argument leaves things as they are. -/
inductive Request : Type → Type where
  | win (delay : Int32) : Request Unit
  | lose (delay : Int32) : Request Unit
  | setScore (score coins : Option Binary32) (ranking : Int32) : Request Unit
  | setCamera (position : Option Vec3) (rotation : Option Rotation) (range : Option Binary32)
    (perspective : Bool) : Request Unit
  | setLight (position : Option Vec3) (rotation : Option Rotation) : Request Unit
  | menuItem (count : Option VariableRef) (picture : ObjectId) (name : String)
    (maxCount priceStep : Int32) : Request Unit
  | getPosition (object : ObjectId) : Request (Vec3 × Rotation)
  | setPosition (object : ObjectId) (position : Option Vec3) (rotation : Option Rotation) :
    Request Unit
  /-- The least and greatest corner of an object. -/
  | getSize (object : ObjectId) : Request (Vec3 × Vec3)
  | setVisible (object : ObjectId) (visible : Bool) : Request Unit
  | createObject (source : ObjectId) : Request ObjectId
  | destroyObject (object : ObjectId) : Request Unit
  | raycast (start finish : Vec3) : Request RaycastHit
  /-- The answer is the channel that plays. -/
  | playSound (volume pitch : Binary32) (sound : Int32) : Request Binary32
  | stopSound (channel : Binary32) : Request Unit
  | volumePitch (channel : Binary32) (volume pitch : Option Binary32) : Request Unit
  | addForce (object : ObjectId) (force applyAt torque : Option Vec3) : Request Unit
  /-- Velocity and spin. -/
  | getVelocity (object : ObjectId) : Request (Vec3 × Vec3)
  | setVelocity (object : ObjectId) (velocity spin : Option Vec3) : Request Unit
  | setLocked (object : ObjectId) (position rotation : Option Vec3) : Request Unit
  | setMass (object : ObjectId) (mass : Binary32) : Request Unit
  | setFriction (object : ObjectId) (friction : Binary32) : Request Unit
  | setBounciness (object : ObjectId) (bounciness : Binary32) : Request Unit
  | setGravity (gravity : Vec3) : Request Unit
  | addConstraint (base part : ObjectId) (pivot : Option Vec3) : Request ConstraintId
  | linearLimits (constraint : ConstraintId) (lower upper : Option Vec3) : Request Unit
  | angularLimits (constraint : ConstraintId) (lower upper : Option Vec3) : Request Unit
  | linearSpring (constraint : ConstraintId) (stiffness damping : Option Vec3) : Request Unit
  | angularSpring (constraint : ConstraintId) (stiffness damping : Option Vec3) : Request Unit
  | linearMotor (constraint : ConstraintId) (speed force : Option Vec3) : Request Unit
  | angularMotor (constraint : ConstraintId) (speed force : Option Vec3) : Request Unit
  | touch (state : TouchState) (finger : Int32) : Request (Option Vec2)
  | swipe : Request (Option Vec3)
  | button (style : ButtonStyle) : Request Bool
  | joystick (style : JoystickStyle) : Request Vec3
  | collision (object : ObjectId) : Request (Option Contact)
  | setRandomSeed (seed : Binary32) : Request Unit
  | random (low high : Binary32) : Request Binary32
  /-- The points at the near and far end of the view behind a point of the screen. -/
  | screenToWorld (screen : Vec2) : Request (Vec3 × Vec3)
  | worldToScreen (world : Vec3) : Request Vec2
  | inspect (value : Value) (type : WireType) (name : Option String) (block : UInt16) (pos : Pos) :
    Request Unit
  | screenSize : Request Vec2
  | accelerometer : Request Vec3
  | currentFrame : Request UInt32
  | takingBoxArt : Request Bool
  /-- Comes between two frames. -/
  | advanceFrame : Request Unit

/-- A game engine with states in `σ`: how it answers each request. -/
structure Engine (σ : Type) where
  respond : {α : Type} → Request α → σ → α × σ

namespace Engine

variable {σ α : Type}

def ask (e : Engine σ) (r : Request α) : StateM σ α := fun s => e.respond r s

/-- The engine without physics: forces and constraints do nothing and everything rests, and frames
are not counted. -/
def restful (e : Engine σ) : {α : Type} → Request α → σ → α × σ
  | _, .addForce .., s => ((), s)
  | _, .getVelocity _, s => ((.zero, .zero), s)
  | _, .setVelocity .., s => ((), s)
  | _, .setLocked .., s => ((), s)
  | _, .setMass .., s => ((), s)
  | _, .setFriction .., s => ((), s)
  | _, .setBounciness .., s => ((), s)
  | _, .setGravity _, s => ((), s)
  | _, .addConstraint .., s => (0, s)
  | _, .linearLimits .., s => ((), s)
  | _, .angularLimits .., s => ((), s)
  | _, .linearSpring .., s => ((), s)
  | _, .angularSpring .., s => ((), s)
  | _, .linearMotor .., s => ((), s)
  | _, .angularMotor .., s => ((), s)
  | _, .advanceFrame, s => ((), s)
  | _, r, s => e.respond r s

def withoutPhysics (e : Engine σ) : Engine σ := { respond := e.restful }

end Engine
end SignalGraph
