import SignalGraph.Compiler.Lanes
import SignalGraph.Run.Blocks

/-!
# Imports

The functions that a compiled module takes from its host: the engine, the stores, and the routines
that are more than an instruction.  A module imports the whole table in order, so the number of an
imported function is its place there.
-/

namespace SignalGraph

open Wasm

inductive Import where
  | effect (e : Effect)
  | query (q : Query)
  | routine (r : Routine)
  | menuItem
  | touch
  | swipe
  | button
  | collision
  | inspect (f : Format)
  | currentFrame
  | takingBoxArt
  | getVariable (f : Format)
  | setVariable (f : Format)
  | getSlot (f : Format)
  | setSlot (f : Format)
  | loopCount
  | loopCounter
  /-- Queues a late task. -/
  | deferLate
  deriving DecidableEq, Repr

def Effect.importName : Effect → String
  | win => "win"
  | lose => "lose"
  | setScore => "set_score"
  | setCamera => "set_camera"
  | setLight => "set_light"
  | setPosition => "set_position"
  | setVisible => "set_visible"
  | createObject => "create_object"
  | destroyObject => "destroy_object"
  | playSound => "play_sound"
  | stopSound => "stop_sound"
  | volumePitch => "adjust_volume_pitch"
  | addForce => "add_force"
  | setVelocity => "set_velocity"
  | setLocked => "set_locked"
  | setMass => "set_mass"
  | setFriction => "set_friction"
  | setBounciness => "set_bounciness"
  | setGravity => "set_gravity"
  | addConstraint => "add_constraint"
  | linearLimits => "linear_limits"
  | angularLimits => "angular_limits"
  | linearSpring => "linear_spring"
  | angularSpring => "angular_spring"
  | linearMotor => "linear_motor"
  | angularMotor => "angular_motor"
  | randomSeed => "set_random_seed"
  | joystick => "get_joystick_direction"

def Query.importName : Query → String
  | screenSize => "screen_size"
  | accelerometer => "accelerometer"
  | getPosition => "get_object_position"
  | raycast => "raycast"
  | getSize => "get_size"
  | getVelocity => "get_velocity"
  | random => "get_random_value"
  | screenToWorld => "screen_to_world"
  | worldToScreen => "world_to_screen"

def Routine.importName : Routine → String
  | inverse => "inverse"
  | rotate => "rotate"
  | combine => "combine"
  | modulo => "modulo"
  | power => "power"
  | equalNumbers => "equal_numbers"
  | equalVectors => "equal_vectors"
  | min => "min"
  | max => "max"
  | sin => "sin"
  | cos => "cos"
  | logarithm => "logarithm"
  | normalize => "normalize"
  | dotProduct => "dot"
  | crossProduct => "cross"
  | distance => "distance"
  | lerp => "lerp"
  | axisAngle => "axis_angle"
  | lineVsPlane => "line_vs_plane"
  | lookRotation => "look_rotation"
  | makeRotation => "make_rotation"
  | breakRotation => "break_rotation"

namespace Pin

def lanes (pins : List Pin) : List LaneType := pins.flatMap fun pin => pin.type.lanes

/-- The lanes of the inputs of an effect: one that may be left out comes after a flag. -/
def flaggedLanes (pins : List Pin) : List LaneType :=
  pins.flatMap fun pin => if pin.optional then .i32 :: pin.type.lanes else pin.type.lanes

end Pin

namespace Import

def source : String := "env"

def name : Import → String
  | effect e => e.importName
  | query q => q.importName
  | routine r => r.importName
  | menuItem => "menu_item"
  | touch => "try_get_touch"
  | swipe => "try_get_swipe"
  | button => "get_button_pressed"
  | collision => "try_get_collision"
  | inspect f => "inspect_" ++ f.suffix
  | currentFrame => "current_frame"
  | takingBoxArt => "taking_box_art"
  | getVariable f => "var_get_" ++ f.suffix
  | setVariable f => "var_set_" ++ f.suffix
  | getSlot f => "slot_get_" ++ f.suffix
  | setSlot f => "slot_set_" ++ f.suffix
  | loopCount => "loop_count"
  | loopCounter => "loop_counter"
  | deferLate => "defer_late"

def effectType (e : Effect) : FunctionType :=
  { params := Pin.flaggedLanes e.shape.inputs ++ (if e.hasNumber then [.i32] else [])
    results := e.slots.flatMap fun slot => slot.2.lanes }

def shapeType (s : Shape) : FunctionType :=
  { params := Pin.lanes s.inputs, results := Pin.lanes s.outputs }

def type : Import → FunctionType
  | effect e => effectType e
  | query q => shapeType q.shape
  | routine r => shapeType r.shape
  | menuItem => { params := [.i32, .i32, .i32, .i32], results := [] }
  | touch => { params := [.i32, .i32], results := [.i32, .f32, .f32] }
  | swipe => { params := [], results := [.i32, .f32, .f32, .f32] }
  | button => { params := [.i32], results := [.i32] }
  | collision => { params := [.i32], results := [.i32, .i32, .f32, .f32, .f32, .f32] }
  | inspect f => { params := .i32 :: f.lanes, results := [] }
  | currentFrame => { params := [], results := [.i32] }
  | takingBoxArt => { params := [], results := [.i32] }
  | getVariable f => { params := [.i32, .i32], results := f.lanes }
  | setVariable f => { params := .i32 :: .i32 :: f.lanes, results := [] }
  | getSlot f => { params := [.i32], results := f.lanes }
  | setSlot f => { params := .i32 :: f.lanes, results := [] }
  | loopCount => { params := [.f32, .f32], results := [.i32] }
  | loopCounter => { params := [.f32, .f32, .i32], results := [.f32] }
  | deferLate => { params := [.i32], results := [] }

/-- All imports in the order of their numbers. -/
def table : List Import :=
  [.effect .win, .effect .lose, .effect .setScore, .effect .setCamera, .effect .setLight, .menuItem,
    .query .getPosition, .effect .setPosition, .query .getSize, .effect .setVisible,
    .effect .createObject, .effect .destroyObject, .query .raycast, .effect .playSound,
    .effect .stopSound, .effect .volumePitch, .effect .addForce, .query .getVelocity,
    .effect .setVelocity, .effect .setLocked, .effect .setMass, .effect .setFriction,
    .effect .setBounciness, .effect .setGravity, .effect .addConstraint, .effect .linearLimits,
    .effect .angularLimits, .effect .linearSpring, .effect .angularSpring, .effect .linearMotor,
    .effect .angularMotor, .touch, .swipe, .button, .effect .joystick, .collision,
    .effect .randomSeed, .query .random, .query .screenToWorld, .query .worldToScreen,
    .inspect .float, .inspect .vec3, .inspect .rot, .inspect .word, .query .screenSize,
    .query .accelerometer, .currentFrame, .takingBoxArt, .getVariable .float, .getVariable .vec3,
    .getVariable .rot, .getVariable .word, .setVariable .float, .setVariable .vec3,
    .setVariable .rot, .setVariable .word, .getSlot .float, .getSlot .vec3, .getSlot .word,
    .setSlot .float, .setSlot .vec3, .setSlot .word, .routine .modulo, .routine .power,
    .routine .logarithm, .routine .min, .routine .max, .routine .sin, .routine .cos,
    .routine .equalNumbers, .routine .equalVectors, .routine .rotate, .routine .combine,
    .routine .inverse, .routine .normalize, .routine .dotProduct, .routine .crossProduct,
    .routine .distance, .routine .lerp, .routine .axisAngle, .routine .lineVsPlane,
    .routine .lookRotation, .routine .makeRotation, .routine .breakRotation, .loopCount,
    .loopCounter, .deferLate]

def index (i : Import) : Nat := table.idxOf i

def ofName? (name : String) : Option Import := table.find? (·.name = name)

def declaration (i : Import) : ImportedFunction := { source, name := i.name, type := i.type }

end Import
end SignalGraph
