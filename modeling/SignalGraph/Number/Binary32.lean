/-!
# Single precision

Floats of 32 bits, each known by its bits.  Numbers compute as the core library's floats do.  Those
have one NaN; here a NaN keeps its sign, because a generator can be seeded with the bits of any
float.
-/

namespace SignalGraph

/-- A float by its bits: a sign, eight bits of exponent and 23 bits of fraction. -/
structure Binary32 where
  bits : UInt32
  deriving DecidableEq, Repr, Inhabited

namespace Binary32

def ofFloat32 (x : Float32) : Binary32 := ⟨x.toBits⟩

/-- The float of the core library with these bits, for which all NaNs are one. -/
def toFloat32 (x : Binary32) : Float32 := .ofBits x.bits

def ofFloat (x : Float) : Binary32 := ofFloat32 x.toFloat32

def toFloat (x : Binary32) : Float := x.toFloat32.toFloat

/-! ## Signs and special values -/

def signMask : UInt32 := 0x80000000

/-- The bits of infinity.  Without their signs, smaller bits are finite and larger ones are NaN. -/
def infinityBits : UInt32 := 0x7f800000

def unsigned (x : Binary32) : UInt32 := x.bits &&& 0x7fffffff

def signBit (x : Binary32) : Bool := x.bits &&& signMask != 0

def isNaN (x : Binary32) : Bool := infinityBits < x.unsigned

def isInf (x : Binary32) : Bool := x.unsigned == infinityBits

def isFinite (x : Binary32) : Bool := x.unsigned < infinityBits

def abs (x : Binary32) : Binary32 := ⟨x.unsigned⟩

def neg (x : Binary32) : Binary32 := ⟨x.bits ^^^ signMask⟩

def copySign (x s : Binary32) : Binary32 := ⟨x.unsigned ||| (s.bits &&& signMask)⟩

/-- What an operation gives that has no result, such as zero over zero. -/
def invalid : Binary32 := ⟨0xffc00000⟩

/-- What a request means by a NaN. -/
def nan : Binary32 := ⟨0x7fc00000⟩

/-! ## Arithmetic -/

/-- An operation on one float.  A NaN without a NaN to come from is the invalid one. -/
@[inline] def lift (f : Float32 → Float32) (x : Binary32) : Binary32 :=
  let r := f x.toFloat32
  if r.isNaN then (if x.isNaN then x else invalid) else ofFloat32 r

/-- An operation on two floats.  Of two NaNs the left one is kept. -/
@[inline] def lift₂ (f : Float32 → Float32 → Float32) (x y : Binary32) : Binary32 :=
  let r := f x.toFloat32 y.toFloat32
  if r.isNaN then (if x.isNaN then x else if y.isNaN then y else invalid) else ofFloat32 r

instance : Neg Binary32 := ⟨neg⟩

instance : Add Binary32 := ⟨lift₂ (· + ·)⟩

instance : Sub Binary32 := ⟨lift₂ (· - ·)⟩

instance : Mul Binary32 := ⟨lift₂ (· * ·)⟩

instance : Div Binary32 := ⟨lift₂ (· / ·)⟩

instance (n : Nat) : OfNat Binary32 n := ⟨ofFloat32 (Float32.ofNat n)⟩

instance : OfScientific Binary32 := ⟨fun m s e => ofFloat32 (OfScientific.ofScientific m s e)⟩

/-- Comparison of numbers: the zeros are equal, and NaN is in no order with anything. -/
instance : LT Binary32 := ⟨fun x y => x.toFloat32 < y.toFloat32⟩

instance : LE Binary32 := ⟨fun x y => x.toFloat32 ≤ y.toFloat32⟩

instance (x y : Binary32) : Decidable (x < y) :=
  inferInstanceAs (Decidable (x.toFloat32 < y.toFloat32))

instance (x y : Binary32) : Decidable (x ≤ y) :=
  inferInstanceAs (Decidable (x.toFloat32 ≤ y.toFloat32))

def isZero (x : Binary32) : Bool := x.unsigned == 0

def sqrt : Binary32 → Binary32 := lift Float32.sqrt

def floor : Binary32 → Binary32 := lift Float32.floor

def ceil : Binary32 → Binary32 := lift Float32.ceil

/-- `1` with the sign of `x`; NaN gives NaN. -/
def signum (x : Binary32) : Binary32 := if x.isNaN then nan else copySign 1.0 x

/-- The first magnitude from which every value is an integer. -/
def integral : Binary32 := 8388608.0

/-- Adding and removing `2 ^ 23` leaves the nearest integer, the even one of two equally near. -/
def roundEven (x : Binary32) : Binary32 :=
  if x.abs < integral then copySign ((x.abs + integral) - integral) x else x

/-- The smaller argument.  A number wins against NaN, and of two equal arguments the second is
taken, which decides between the two zeros. -/
def least (a b : Binary32) : Binary32 :=
  if a.isNaN then b else if b.isNaN then a else if a < b then a else b

/-- The larger argument, with the conventions of `least`. -/
def greatest (a b : Binary32) : Binary32 :=
  if a.isNaN then b else if b.isNaN then a else if b < a then a else b

/-- `x` moved into the interval; NaN stays NaN. -/
def clamp (x low high : Binary32) : Binary32 :=
  let x := if x < low then low else x
  if high < x then high else x

/-! ## Integers

Integers are rounded to the nearest float.  Floats are cut towards zero and stop at the ends of the
integers' range; NaN is zero. -/

def ofUInt32 (n : UInt32) : Binary32 := ofFloat32 n.toFloat32

def ofInt32 (n : Int32) : Binary32 := ofFloat32 n.toFloat32

def ofUInt64 (n : UInt64) : Binary32 := ofFloat32 n.toFloat32

def toUInt32 (x : Binary32) : UInt32 := x.toFloat32.toUInt32

def toInt32 (x : Binary32) : Int32 := x.toFloat32.toInt32

/-! ## Special functions

These are taken in double precision and rounded once, which gives the nearest 32-bit value of the
mathematical result in all but contrived cases. -/

def pi : Binary32 := 3.14159265358979

def toRadians (degrees : Binary32) : Binary32 := degrees * (pi / 180.0)

def toDegrees (radians : Binary32) : Binary32 := radians * 57.2957795130823

def sin : Binary32 → Binary32 := lift fun x => x.toFloat.sin.toFloat32

def cos : Binary32 → Binary32 := lift fun x => x.toFloat.cos.toFloat32

def asin : Binary32 → Binary32 := lift fun x => x.toFloat.asin.toFloat32

def atan2 (y x : Binary32) : Binary32 :=
  lift₂ (fun x y => (Float.atan2 y.toFloat x.toFloat).toFloat32) x y

def ln : Binary32 → Binary32 := lift fun x => x.toFloat.log.toFloat32

def pow : Binary32 → Binary32 → Binary32 :=
  lift₂ fun x y => (Float.pow x.toFloat y.toFloat).toFloat32

end Binary32
end SignalGraph
