import SignalGraph.Number.Binary32

/-!
# Shortest decimals

The decimal with the fewest digits that reads back to a given 32-bit float, in exact arithmetic on
the float's bits.  A finite float stands for an interval of reals that round to it; for one digit,
two digits and so on the two neighbours of the value on that decimal grid are tried, and the first
grid with a point in the interval is taken.
-/

namespace SignalGraph

/-- The number `digits * 10 ^ exponent`. -/
structure Decimal where
  digits : Nat
  exponent : Int
  deriving DecidableEq, Repr

namespace Decimal

def width : (fuel : Nat) → Nat → Nat
  | 0, _ => 0
  | fuel + 1, n => if n = 0 then 0 else width fuel (n / 10) + 1

def trim : (fuel : Nat) → Decimal → Decimal
  | 0, d => d
  | fuel + 1, d =>
    if d.digits ≠ 0 ∧ d.digits % 10 = 0 then
      trim fuel { digits := d.digits / 10, exponent := d.exponent + 1 }
    else d

/-- The exponent `e` with `10 ^ (e - 1) ≤ d < 10 ^ e`. -/
def magnitude (d : Decimal) : Int := width (d.digits + 1) d.digits + d.exponent

end Decimal

/-- Which of two decimals to take that are equally short and equally near. -/
inductive Tie where
  | upper
  /-- The one whose last digit is even. -/
  | even
  deriving DecidableEq, Repr

namespace Shortest

/-- Whether the lower of two neighbours is taken, with the digits `k`, for a value that is `rest`
of `step` above it. -/
def preferLower (tie : Tie) (k rest step : Nat) : Bool :=
  rest * 2 < step || (rest * 2 == step && tie = .even && k % 2 == 0)

/-- The reals that round to one float: `value` lies between `low` and `high`, all three over
`unit`, and the ends belong to the interval if `closed`. -/
structure Span where
  low : Nat
  value : Nat
  high : Nat
  unit : Nat
  closed : Bool

/-- The interval of the positive float with these bits.  Below a power of two the neighbours are
half as far apart, so the lower end is nearer there. -/
def span (bits : UInt32) : Span :=
  let field := ((bits >>> 23) &&& 0xff).toNat
  let fraction := (bits &&& 0x7fffff).toNat
  let mantissa := if field = 0 then fraction else fraction + 0x800000
  let shift := if field = 0 then 0 else field - 1
  let below := if fraction = 0 ∧ 1 < field then 1 else 2
  { low := (4 * mantissa - below) <<< shift
    value := (4 * mantissa) <<< shift
    high := (4 * mantissa + 2) <<< shift
    unit := 1 <<< 151
    closed := mantissa % 2 = 0 }

def leadingZeros : (fuel : Nat) → (value unit : Nat) → Nat
  | 0, _, _ => 0
  | fuel + 1, value, unit =>
    if unit ≤ value * 10 then 0 else leadingZeros fuel (value * 10) unit + 1

/-- The exponent `e` with `10 ^ (e - 1) ≤ value < 10 ^ e`. -/
def Span.magnitude (s : Span) : Int :=
  if s.unit ≤ s.value then Decimal.width 64 (s.value / s.unit)
  else -(leadingZeros 64 s.value s.unit : Int)

def Span.holds (s : Span) (scale step k : Nat) : Bool :=
  if s.closed then s.low * scale ≤ k * step ∧ k * step ≤ s.high * scale
  else s.low * scale < k * step ∧ k * step < s.high * scale

/-- The point with `count` digits that reads back, if one of the value's two neighbours on that
grid does, and the nearer one if both do. -/
def Span.onGrid (tie : Tie) (s : Span) (count : Nat) : Option Decimal :=
  let exponent := s.magnitude - count
  let scale := Nat.pow 10 (-exponent).toNat
  let step := s.unit * Nat.pow 10 exponent.toNat
  let k := s.value * scale / step
  let rest := s.value * scale % step
  let lower := s.holds scale step k
  let upper := s.holds scale step (k + 1)
  if lower && (!upper || preferLower tie k rest step) then
    some { digits := k, exponent := exponent }
  else if upper then some { digits := k + 1, exponent := exponent }
  else none

/-- Tries grids of `count`, `count + 1`, … digits. -/
def search (tie : Tie) (s : Span) : (fuel : Nat) → (count : Nat) → Decimal
  | 0, _ => { digits := 0, exponent := 0 }
  | fuel + 1, count => (s.onGrid tie count).getD (search tie s fuel (count + 1))

end Shortest

/-- The shortest decimal that reads back to the magnitude of a finite float.  Nine digits tell all
floats apart, so the search ends. -/
def Decimal.ofBinary32 (tie : Tie) (x : Binary32) : Decimal :=
  let bits := x.unsigned
  if bits = 0 then { digits := 0, exponent := 0 }
  else Decimal.trim 10 (Shortest.search tie (Shortest.span bits) 9 1)

end SignalGraph
