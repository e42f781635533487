import SignalGraph.Number.Binary32

/-!
# Vectors

Vectors of two and three single-precision components.  Sums are evaluated in the order written, so
that every run gives the same bits.
-/

namespace SignalGraph

structure Vec2 where
  x : Binary32
  y : Binary32
  deriving DecidableEq, Inhabited

structure Vec3 where
  x : Binary32
  y : Binary32
  z : Binary32
  deriving DecidableEq, Inhabited

namespace Vec3

def zero : Vec3 := ⟨0, 0, 0⟩

def unitY : Vec3 := ⟨0, 1, 0⟩

def unitZ : Vec3 := ⟨0, 0, 1⟩

def splat (a : Binary32) : Vec3 := ⟨a, a, a⟩

def add (a b : Vec3) : Vec3 := ⟨a.x + b.x, a.y + b.y, a.z + b.z⟩

def sub (a b : Vec3) : Vec3 := ⟨a.x - b.x, a.y - b.y, a.z - b.z⟩

def scale (a : Vec3) (k : Binary32) : Vec3 := ⟨a.x * k, a.y * k, a.z * k⟩

instance : Add Vec3 := ⟨add⟩

instance : Sub Vec3 := ⟨sub⟩

instance : HMul Vec3 Binary32 Vec3 := ⟨scale⟩

def dot (a b : Vec3) : Binary32 := a.x * b.x + a.y * b.y + a.z * b.z

def cross (a b : Vec3) : Vec3 :=
  ⟨a.y * b.z - b.y * a.z, a.z * b.x - b.z * a.x, a.x * b.y - b.x * a.y⟩

def length (a : Vec3) : Binary32 := (a.dot a).sqrt

def distance (a b : Vec3) : Binary32 := (a - b).length

/-- Whether all components are zeros, of either sign. -/
def isZero (a : Vec3) : Bool := a.x.isZero && a.y.isZero && a.z.isZero

/-- The direction of a vector, or zero if its length has no usable reciprocal. -/
def normalize (a : Vec3) : Vec3 :=
  let r := 1.0 / a.length
  if r.isFinite ∧ 0 < r then a * r else zero

/-- A component by number; numbers past the last mean the last. -/
def component (a : Vec3) (i : Nat) : Binary32 :=
  match i with
  | 0 => a.x
  | 1 => a.y
  | _ => a.z

end Vec3
end SignalGraph
