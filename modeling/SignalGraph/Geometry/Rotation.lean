import SignalGraph.Geometry.Vector

/-!
# Rotations

Rotations as unit quaternions.  Every sum of four products is a sum of two sums, and interpolation
uses fixed polynomials for the sine and the arc cosine, so results do not depend on a library of
special functions.
-/

namespace SignalGraph

structure Rotation where
  x : Binary32
  y : Binary32
  z : Binary32
  w : Binary32
  deriving DecidableEq, Inhabited

namespace Rotation

open Binary32

def identity : Rotation := ⟨0, 0, 0, 1⟩

def axis (q : Rotation) : Vec3 := ⟨q.x, q.y, q.z⟩

def dot (a b : Rotation) : Binary32 := (a.x * b.x + a.z * b.z) + (a.y * b.y + a.w * b.w)

def map (f : Binary32 → Binary32) (q : Rotation) : Rotation := ⟨f q.x, f q.y, f q.z, f q.w⟩

def zip (f : Binary32 → Binary32 → Binary32) (a b : Rotation) : Rotation :=
  ⟨f a.x b.x, f a.y b.y, f a.z b.z, f a.w b.w⟩

def normalize (q : Rotation) : Rotation :=
  let length := (q.dot q).sqrt
  q.map (· / length)

/-- The rotation `b` followed by the rotation `a`. -/
def mul (a b : Rotation) : Rotation :=
  { x := (a.w * b.x + a.x * b.w) + (a.y * b.z + a.z * b.y * -1)
    y := (a.w * b.y + a.x * b.z * -1) + (a.y * b.w + a.z * b.x)
    z := (a.w * b.z + a.x * b.y) + (a.y * b.x * -1 + a.z * b.w)
    w := (a.w * b.w + a.x * b.x * -1) + (a.y * b.y * -1 + a.z * b.z * -1) }

instance : Mul Rotation := ⟨mul⟩

def inverse (q : Rotation) : Rotation := ⟨-q.x, -q.y, -q.z, q.w⟩

def rotate (q : Rotation) (v : Vec3) : Vec3 :=
  let b := q.axis
  (v * (q.w * q.w - b.dot b) + b * (v.dot b * 2.0)) + b.cross v * (q.w * 2.0)

def ofAxisAngle (axis : Vec3) (angle : Binary32) : Rotation :=
  let s := sin (angle * 0.5)
  ⟨axis.x * s, axis.y * s, axis.z * s, cos (angle * 0.5)⟩

def aroundX (angle : Binary32) : Rotation := ⟨sin (angle * 0.5), 0, 0, cos (angle * 0.5)⟩

def aroundY (angle : Binary32) : Rotation := ⟨0, sin (angle * 0.5), 0, cos (angle * 0.5)⟩

def aroundZ (angle : Binary32) : Rotation := ⟨0, 0, sin (angle * 0.5), cos (angle * 0.5)⟩

/-- Angles in radians, applied around z, then x, then y. -/
structure Euler where
  y : Binary32
  x : Binary32
  z : Binary32

def ofEuler (e : Euler) : Rotation :=
  normalize ((aroundY e.y * aroundX e.x) * aroundZ e.z)

/-- The sine of the pitch from which the other two angles are no longer separate. -/
def gimbalLimit : Binary32 := 0.99999

def toEuler (q : Rotation) : Euler :=
  let s := clamp (-2.0 * (q.y * q.z - q.w * q.x)) (-1.0) 1.0
  let pitch := asin s
  if gimbalLimit < s.abs then
    { y := (2.0 * signum s) * atan2 (-q.z) q.w, x := pitch, z := 0.0 }
  else
    { y := atan2 (2.0 * (q.x * q.z + q.w * q.y))
        (((q.w * q.w - q.x * q.x) - q.y * q.y) + q.z * q.z)
      x := pitch
      z := atan2 (2.0 * (q.x * q.y + q.w * q.z))
        (((q.w * q.w - q.x * q.x) + q.y * q.y) - q.z * q.z) }

/-- The arc cosine to single precision: a polynomial times the root of the distance from one. -/
def arcCosine (v : Binary32) : Binary32 :=
  let x := v.abs
  let gap := 1.0 - x
  let root := (if gap < 0 then 0 else gap).sqrt
  let p := ((((((-0.0012624911 * x + 0.00667009) * x - 0.017088126) * x + 0.03089188) * x
    - 0.050174303) * x + 0.08897899) * x - 0.2145988) * x + 1.5707963
  let r := p * root
  if 0 ≤ v then r else pi - r

/-- The whole turns in an angle.  None is zero for either sign, so that taking them away leaves a
negative zero as it is. -/
def turns (t : Binary32) : Binary32 := roundEven (t * 0.15915494) + 0

/-- The sine to single precision: a whole number of turns removed, folded to a quarter turn, and a
polynomial. -/
def sine (t : Binary32) : Binary32 :=
  let x := t - 6.2831855 * turns t
  let x := if x.abs ≤ 1.5707964 then x else copySign 3.1415927 x - x
  let x2 := x * x
  let p := -2.3889859e-8 * x2 + 2.7525562e-6
  let p := p * x2 - 0.00019840874
  let p := p * x2 + 0.008333331
  let p := p * x2 - 0.16666667
  let p := p * x2 + 1.0
  p * x

/-- The straight line from `a` to `b` or to its opposite, whichever is on the side of `a`, brought
back to unit length. -/
def nlerp (a b : Rotation) (s : Binary32) : Rotation :=
  let b := if signBit (a.dot b) then b.map (- ·) else b
  normalize (zip (fun p q => (q - p) * s + p) a b)

/-- Interpolation along the shorter arc; close rotations are joined by a straight line. -/
def slerp (a b : Rotation) (s : Binary32) : Rotation :=
  let d := a.dot b
  let (b, d) := if d < 0 then (b.map (· * -1.0), -d) else (b, d)
  if 0.9995 < d then nlerp a b s
  else
    let theta := arcCosine d
    let p := sine (theta * (1.0 - s))
    let q := sine (theta * s)
    let whole := sine (theta * 1.0)
    zip (fun x y => (x * p + y * q) / whole) a b

def ofColumns (c0 c1 c2 : Vec3) : Rotation :=
  if c2.z ≤ 0 then
    let d := c1.y - c0.x
    let o := 1.0 - c2.z
    if d ≤ 0 then
      let f := o - d
      let i := 0.5 / f.sqrt
      ⟨f * i, (c0.y + c1.x) * i, (c0.z + c2.x) * i, (c1.z - c2.y) * i⟩
    else
      let f := o + d
      let i := 0.5 / f.sqrt
      ⟨(c0.y + c1.x) * i, f * i, (c1.z + c2.y) * i, (c2.x - c0.z) * i⟩
  else
    let s := c1.y + c0.x
    let o := 1.0 + c2.z
    if s ≤ 0 then
      let f := o - s
      let i := 0.5 / f.sqrt
      ⟨(c0.z + c2.x) * i, (c1.z + c2.y) * i, f * i, (c0.y - c1.x) * i⟩
    else
      let f := o + s
      let i := 0.5 / f.sqrt
      ⟨(c1.z - c2.y) * i, (c2.x - c0.z) * i, (c0.y - c1.x) * i, f * i⟩

def orthonormal (v : Vec3) : Vec3 :=
  let g := signum v.z
  let a := -1.0 / (g + v.z)
  let b := v.x * v.y * a
  ⟨b, g + v.y * v.y * a, -v.y⟩

/-- Cosines beyond this one count as parallel. -/
def parallelLimit : Binary32 := 1.0 - 2.0 * 1.1920929e-7

def ofArc (start finish : Vec3) : Rotation :=
  let d := start.dot finish
  if parallelLimit < d then identity
  else if d < -parallelLimit then ofAxisAngle (orthonormal start) pi
  else
    let c := start.cross finish
    normalize ⟨c.x, c.y, c.z, 1.0 + d⟩

end Rotation
end SignalGraph
