import SignalGraph.Block.Kind

/-!
# Stock numbers

The numbers that saved documents use for the built-in blocks.
-/

namespace SignalGraph
namespace Stock

/-- Blocks that are not one of a family with a member for every type. -/
def single : List (UInt16 × Kind) :=
  [(252, .effect .win), (256, .effect .lose), (260, .effect .setScore), (268, .effect .setCamera),
    (274, .effect .setLight), (220, .query .screenSize), (224, .query .accelerometer),
    (564, .expression .currentFrame), (584, .statement .menuItem), (278, .query .getPosition),
    (282, .effect .setPosition), (228, .query .raycast), (489, .query .getSize),
    (306, .effect .setVisible), (316, .effect .createObject), (320, .effect .destroyObject),
    (264, .effect .playSound), (397, .effect .stopSound), (391, .effect .volumePitch),
    (298, .effect .addForce), (288, .query .getVelocity), (292, .effect .setVelocity),
    (310, .effect .setLocked), (328, .effect .setMass), (332, .effect .setFriction),
    (336, .effect .setBounciness), (324, .effect .setGravity), (340, .effect .addConstraint),
    (346, .effect .linearLimits), (352, .effect .angularLimits), (358, .effect .linearSpring),
    (364, .effect .angularSpring), (370, .effect .linearMotor), (376, .effect .angularMotor),
    (234, .statement .ifThen), (238, .statement .playSensor), (566, .statement .lateUpdate),
    (409, .statement .boxArtSensor), (242, .statement .touchSensor),
    (248, .statement .swipeSensor), (588, .statement .button), (592, .effect .joystick),
    (401, .statement .collision), (560, .statement .loop), (36, .literal .number),
    (38, .literal .vector), (42, .literal .rotation), (449, .literal (.truth true)),
    (451, .literal (.truth false)), (15, .comment), (16, .statement (.inspect (.value .float))),
    (20, .statement (.inspect (.value .vec3))), (24, .statement (.inspect (.value .rot))),
    (28, .statement (.inspect (.value .bool))), (32, .statement (.inspect (.value .obj))),
    (90, .operation .negate), (144, .operation .not), (440, .routine .inverse),
    (92, .operation .addNumbers), (96, .operation .addVectors), (100, .operation .subtractNumbers),
    (104, .operation .subtractVectors), (108, .operation .multiply), (112, .operation .scale),
    (116, .routine .rotate), (120, .routine .combine), (124, .operation .divide),
    (172, .routine .modulo), (457, .routine .power), (132, .routine .equalNumbers),
    (136, .routine .equalVectors), (140, .operation .equalObjects),
    (421, .operation .equalTruths), (128, .operation .lessThan), (481, .operation .greaterThan),
    (146, .expression .and), (417, .expression .or), (168, .query .random),
    (485, .effect .randomSeed), (176, .routine .min), (180, .routine .max), (413, .routine .sin),
    (453, .routine .cos), (184, .operation .round), (186, .operation .floor),
    (188, .operation .ceiling), (455, .operation .absolute), (580, .routine .logarithm),
    (578, .routine .normalize), (570, .routine .dotProduct), (574, .routine .crossProduct),
    (190, .routine .distance), (194, .routine .lerp), (200, .routine .axisAngle),
    (216, .query .screenToWorld), (477, .query .worldToScreen), (206, .routine .lineVsPlane),
    (204, .routine .lookRotation), (150, .operation .makeVector), (156, .operation .breakVector),
    (162, .routine .makeRotation), (442, .routine .breakRotation), (556, .statement .increment),
    (558, .statement .decrement)]

/-- The order in which the members of a family are numbered. -/
def familyTypes : List WireType :=
  [.value .float, .value .obj, .value .vec3, .value .rot, .value .bool, .value .con]

def family (ids : List UInt16) (kind : WireType → Kind) : List (UInt16 × Kind) :=
  ids.zip (familyTypes.map kind)

def all : List (UInt16 × Kind) :=
  single ++ family [46, 48, 50, 52, 54, 56] (fun t => .expression (.getVariable t)) ++
    family [428, 430, 432, 434, 436, 438] (fun t => .statement (.setVariable t)) ++
    family [58, 62, 66, 70, 74, 78] (fun t => .statement (.setPointer t)) ++
    family [82, 86, 461, 465, 469, 473] (fun t => .expression (.list t))

def kind? (id : UInt16) : Option Kind := all.lookup id

end Stock
end SignalGraph
