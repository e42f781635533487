import SignalGraph.Engine.Request
import SignalGraph.Random
import SignalGraph.Signal.Text

/-!
# The headless engine

An engine with nothing behind it.  It writes down every request, hands out objects and constraints
by number, and answers its sensors from a script by frame.
-/

namespace SignalGraph

structure Headless where
  log : Array String := #[]
  generator : Generator
  frame : UInt32 := 0
  screen : Vec2 := ⟨1080, 1920⟩
  boxArt : Bool := false
  joystick : Vec3 := .zero
  nextObject : ObjectId := 1
  nextConstraint : ConstraintId := 1
  nextChannel : Binary32 := 0
  /-- Where objects were put, the latest first. -/
  objects : List (ObjectId × Vec3 × Rotation) := []
  touches : List (UInt32 × Vec2) := []
  swipes : List (UInt32 × Vec3) := []
  buttons : List UInt32 := []
  contacts : List (UInt32 × Contact) := []

namespace Headless

def ofSeed (seed : UInt64) : Headless := { generator := .ofSeed seed }

def record (h : Headless) (name : String) (arguments : List String) : Headless :=
  { h with log := h.log.push (Text.named name arguments) }

def recordAnswer (h : Headless) (name : String) (arguments : List String) (answer : String) :
    Headless :=
  { h with log := h.log.push (Text.named name arguments ++ " -> " ++ answer) }

def placed (h : Headless) (object : ObjectId) : Vec3 × Rotation :=
  (h.objects.lookup object).getD (.zero, .identity)

def remove (h : Headless) (object : ObjectId) : Headless :=
  { h with objects := h.objects.filter (·.1 ≠ object) }

def place (h : Headless) (object : ObjectId) (position : Vec3) (rotation : Rotation) : Headless :=
  let h := h.remove object
  { h with objects := (object, position, rotation) :: h.objects }

/-- A number from `low` up to but not including `high`, or `low` if there is none. -/
def draw (h : Headless) (low high : Binary32) : Binary32 × Headless :=
  if low < high then
    let (x, generator) := h.generator.unit
    (low + x * (high - low), { h with generator })
  else (low, h)

def optionalFloat : Option Binary32 → String := Text.optional Text.float

def optionalVec3 : Option Vec3 → String := Text.optional Text.vec3

def optionalRotation : Option Rotation → String := Text.optional Text.rotation

def recordConstraint (h : Headless) (name : String) (constraint : ConstraintId)
    (a b : Option Vec3) : Headless :=
  h.record name [Text.int constraint, optionalVec3 a, optionalVec3 b]

open Text (int float vec3 vec2 truth optional)

def answer : {α : Type} → Request α → Headless → α × Headless
  | _, .win delay, h => ((), h.record "win" [int delay])
  | _, .lose delay, h => ((), h.record "lose" [int delay])
  | _, .setScore score coins ranking, h =>
    ((), h.record "set_score" [optionalFloat score, optionalFloat coins, int ranking])
  | _, .setCamera position rotation range perspective, h =>
    ((), h.record "set_camera" [optionalVec3 position, optionalRotation rotation,
      optionalFloat range, truth perspective])
  | _, .setLight position rotation, h =>
    ((), h.record "set_light" [optionalVec3 position, optionalRotation rotation])
  | _, .menuItem count picture name maxCount priceStep, h =>
    let count := count.map fun c => c.name ++ "[" ++ int c.index ++ "]"
    ((), h.record "menu_item" [optional Text.quoted count, int picture, Text.quoted name,
      int maxCount, int priceStep])
  | _, .getPosition object, h =>
    (h.placed object, h.record "get_object_position" [int object])
  | _, .setPosition object position rotation, h =>
    let h := h.record "set_position" [int object, optionalVec3 position, optionalRotation rotation]
    let before := h.placed object
    ((), h.place object (position.getD before.1) (rotation.getD before.2))
  | _, .getSize object, h => ((.splat (-0.5), .splat 0.5), h.record "get_size" [int object])
  | _, .setVisible object visible, h =>
    ((), h.record "set_visible" [int object, truth visible])
  | _, .createObject source, h =>
    let copy := h.nextObject
    let h := h.recordAnswer "create_object" [int source] (int copy)
    (copy, { h with nextObject := copy + 1 })
  | _, .destroyObject object, h =>
    ((), (h.record "destroy_object" [int object]).remove object)
  | _, .raycast start finish, h =>
    ({ hit := false, position := finish, object := 0 },
      h.record "raycast" [vec3 start, vec3 finish])
  | _, .playSound volume pitch sound, h =>
    let channel := h.nextChannel
    let h := h.recordAnswer "play_sound" [float volume, float pitch, int sound] (float channel)
    (channel, { h with nextChannel := channel + 1 })
  | _, .stopSound channel, h => ((), h.record "stop_sound" [float channel])
  | _, .volumePitch channel volume pitch, h =>
    ((), h.record "adjust_volume_pitch" [float channel, optionalFloat volume, optionalFloat pitch])
  | _, .addForce object force applyAt torque, h =>
    ((), h.record "add_force" [int object, optionalVec3 force, optionalVec3 applyAt,
      optionalVec3 torque])
  | _, .getVelocity object, h => ((.zero, .zero), h.record "get_velocity" [int object])
  | _, .setVelocity object velocity spin, h =>
    ((), h.record "set_velocity" [int object, optionalVec3 velocity, optionalVec3 spin])
  | _, .setLocked object position rotation, h =>
    ((), h.record "set_locked" [int object, optionalVec3 position, optionalVec3 rotation])
  | _, .setMass object mass, h => ((), h.record "set_mass" [int object, float mass])
  | _, .setFriction object friction, h =>
    ((), h.record "set_friction" [int object, float friction])
  | _, .setBounciness object bounciness, h =>
    ((), h.record "set_bounciness" [int object, float bounciness])
  | _, .setGravity gravity, h => ((), h.record "set_gravity" [vec3 gravity])
  | _, .addConstraint base part pivot, h =>
    let constraint := h.nextConstraint
    let h := h.recordAnswer "add_constraint" [int base, int part, optionalVec3 pivot]
      (int constraint)
    (constraint, { h with nextConstraint := constraint + 1 })
  | _, .linearLimits c a b, h => ((), h.recordConstraint "linear_limits" c a b)
  | _, .angularLimits c a b, h => ((), h.recordConstraint "angular_limits" c a b)
  | _, .linearSpring c a b, h => ((), h.recordConstraint "linear_spring" c a b)
  | _, .angularSpring c a b, h => ((), h.recordConstraint "angular_spring" c a b)
  | _, .linearMotor c a b, h => ((), h.recordConstraint "linear_motor" c a b)
  | _, .angularMotor c a b, h => ((), h.recordConstraint "angular_motor" c a b)
  | _, .touch state finger, h =>
    let touch := h.touches.lookup h.frame
    (touch, h.recordAnswer "try_get_touch" [state.text, int finger] (optional vec2 touch))
  | _, .swipe, h =>
    let swipe := h.swipes.lookup h.frame
    (swipe, h.recordAnswer "try_get_swipe" [] (optionalVec3 swipe))
  | _, .button style, h =>
    let pressed := h.buttons.contains h.frame
    (pressed, h.recordAnswer "get_button_pressed" [style.text] (truth pressed))
  | _, .joystick style, h => (h.joystick, h.record "get_joystick_direction" [style.text])
  | _, .collision object, h =>
    let contact := h.contacts.lookup h.frame
    (contact, h.recordAnswer "try_get_collision" [int object] (truth contact.isSome))
  | _, .setRandomSeed seed, h =>
    let h := h.record "set_random_seed" [float seed]
    ((), { h with generator := .ofSeed seed.bits.toUInt64 })
  | _, .random low high, h =>
    let (x, h) := h.draw low high
    (x, h.recordAnswer "get_random_value" [float low, float high] (float x))
  | _, .screenToWorld screen, h =>
    let near : Vec3 := ⟨screen.x, screen.y, 0⟩
    ((near, near + Vec3.unitZ * (100.0 : Binary32)), h.record "screen_to_world" [vec2 screen])
  | _, .worldToScreen world, h => (⟨world.x, world.y⟩, h.record "world_to_screen" [vec3 world])
  | _, .inspect value type name block pos, h =>
    ((), h.record "inspect_value" [Text.value value, type.text, optional Text.quoted name,
      toString block, pos.text])
  | _, .screenSize, h => (h.screen, h.record "screen_size" [])
  | _, .accelerometer, h => (⟨0, -9.81, 0⟩, h.record "accelerometer" [])
  | _, .currentFrame, h => (h.frame, h.record "current_frame" [])
  | _, .takingBoxArt, h => (h.boxArt, h.record "taking_box_art" [])
  | _, .advanceFrame, h => ((), { h with frame := h.frame + 1 })

def engine : Engine Headless := { respond := answer }

def calls (h : Headless) (name : String) : List String :=
  h.log.toList.filter (·.startsWith (name ++ "("))

end Headless
end SignalGraph
