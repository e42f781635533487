import SignalGraph.Geometry.Rotation

/-!
# Numeric routines

The arithmetic of the blocks that is more than one machine instruction.  Both ways of running a
program use these definitions, so they agree on every result.
-/

namespace SignalGraph
namespace Routines

open Binary32

/-- Numbers closer than this are equal. -/
def tolerance : Binary32 := 0.001

def numbersEqual (a b : Binary32) : Bool := (a - b).abs < tolerance

def vectorsEqual (a b : Vec3) : Bool := a.distance b < tolerance

/-- The remainder with the sign of the divisor. -/
def modulo (a b : Binary32) : Binary32 := a - b * (a / b).floor

def logarithm (number base : Binary32) : Binary32 := ln number / ln base

def sinDegrees (angle : Binary32) : Binary32 := sin (toRadians angle)

def cosDegrees (angle : Binary32) : Binary32 := cos (toRadians angle)

/-- The rotation of `angle` degrees around `axis`; a zero axis turns nothing. -/
def axisAngle (axis : Vec3) (angle : Binary32) : Rotation :=
  let axis := axis.normalize
  if axis.isZero then .identity else .ofAxisAngle axis (toRadians angle)

/-- The rotation whose forward axis (z) points along `direction`. -/
def lookRotation (direction up : Vec3) : Rotation :=
  let forward := direction.normalize
  if forward.isZero then .identity
  else
    let right := (up.cross forward).normalize
    if right.isZero then .ofArc .unitZ forward
    else (Rotation.ofColumns right (forward.cross right) forward).normalize

/-- Where the line through two points meets a plane; zero for a line along the plane. -/
def lineVsPlane (start finish point normal : Vec3) : Vec3 :=
  let direction := finish - start
  let slope := normal.dot direction
  if slope.isZero then .zero
  else start + direction * (normal.dot (point - start) / slope)

/-- The rotation by angles in degrees. -/
def makeRotation (x y z : Binary32) : Rotation :=
  .ofEuler { y := toRadians y, x := toRadians x, z := toRadians z }

def breakRotation (q : Rotation) : Vec3 :=
  let e := q.toEuler
  ⟨toDegrees e.x, toDegrees e.y, toDegrees e.z⟩

def maxLoopCount : UInt32 := 1000000

/-- How often a loop between two bounds runs, at most a million times. -/
def loopCount (start stop : Binary32) : UInt32 :=
  let span := (stop - start).abs.ceil
  if span.isNaN || span ≤ 0 then 0
  else if .ofUInt32 maxLoopCount ≤ span then maxLoopCount
  else span.toUInt32

def loopCounter (start stop : Binary32) (k : UInt32) : Binary32 :=
  if start ≤ stop then start + .ofUInt32 k else start - .ofUInt32 k

end Routines
end SignalGraph
