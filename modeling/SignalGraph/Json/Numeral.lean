import SignalGraph.Number.Binary32

/-!
# Numerals

A JSON number as it is written, and the number it stands for.  Integers that fit 64 bits are exact.
Everything else is a double made of a 64-bit significand and one power of ten: digits beyond the
significand only move the exponent, so the last bit may differ from the nearest double.
-/

namespace SignalGraph

/-- The parts of a written number: its sign, the digits before and after the point, and the sign
and digits of its exponent. -/
structure Numeral where
  negative : Bool
  whole : List Nat
  fraction : Option (List Nat)
  exponent : Option (Bool × List Nat)
  deriving DecidableEq, Repr

namespace Numeral

/-- What a numeral stands for.  `-0` is not an integer: it is the negative zero. -/
inductive Value where
  | integer (n : Int)
  | real (x : Float)
  | outOfRange

/-- Significands and whole numbers fit 64 bits. -/
def significandLimit : Nat := 18446744073709551616

/-- Appends digits to a significand while it stays below the limit; returns the digits left. -/
def absorb : Nat → List Nat → Nat × List Nat
  | s, [] => (s, [])
  | s, d :: ds => if s * 10 + d < significandLimit then absorb (s * 10 + d) ds else (s, d :: ds)

def digitsValue (ds : List Nat) : Nat := ds.foldl (fun n d => n * 10 + d) 0

/-- Exponents are 32-bit and stop at their ends. -/
def saturate (e : Int) : Int := max (-2147483648) (min 2147483647 e)

/-- Divides by `10 ^ 308` until the remaining exponent has a power of ten among the doubles. -/
def scaleDown : (fuel : Nat) → Float → Int → Float
  | 0, x, _ => x
  | fuel + 1, x, e =>
    if -308 ≤ e then x / Float.ofScientific 1 false (-e).toNat
    else if x == 0.0 then x
    else scaleDown fuel (x / 1e308) (e + 308)

/-- `significand * 10 ^ e` as a double, or nothing if it is too large for one. -/
def scale (significand : Nat) (e : Int) : Option Float :=
  let x := significand.toUInt64.toFloat
  if e < 0 then some (scaleDown 8 x e)
  else if 308 < e then (if x == 0.0 then some x else none)
  else
    let y := x * Float.ofScientific 1 false e.toNat
    if y.isInf then none else some y

def magnitude (n : Numeral) : Option Float :=
  let (s, dropped) := absorb 0 n.whole
  let fraction := n.fraction.getD []
  let (s, unread) := absorb s fraction
  let e : Int := dropped.length - (fraction.length - unread.length : Nat)
  match n.exponent with
  | none => scale s e
  | some (down, ds) =>
    if digitsValue ds ≤ 2147483647 then
      scale s (saturate (if down then e - digitsValue ds else e + digitsValue ds))
    else if s = 0 ∨ down then some 0.0
    else none

def isWhole (n : Numeral) : Bool := n.fraction.isNone && n.exponent.isNone

def value (n : Numeral) : Value :=
  let v := digitsValue n.whole
  if n.isWhole ∧ !n.negative ∧ v < significandLimit then .integer v
  else if n.isWhole ∧ n.negative ∧ v ≠ 0 ∧ v ≤ 9223372036854775808 then .integer (-v)
  else match n.magnitude with
    | none => .outOfRange
    | some x => .real (if n.negative then -x else x)

/-- The integer a numeral stands for, if it is written as one and fits 64 bits. -/
def integer? (n : Numeral) : Option Int :=
  match n.value with
  | .integer i => some i
  | _ => none

/-- The nearest single-precision value.  Integers are rounded once, other numerals by way of the
double. -/
def float32? (n : Numeral) : Option Binary32 :=
  match n.value with
  | .integer i =>
    let magnitude := Binary32.ofUInt64 i.natAbs.toUInt64
    some (if i < 0 then -magnitude else magnitude)
  | .real x => some (.ofFloat x)
  | .outOfRange => none

def float64? (n : Numeral) : Option Float :=
  match n.value with
  | .integer i =>
    some (if i < 0 then -(i.natAbs.toUInt64.toFloat) else i.natAbs.toUInt64.toFloat)
  | .real x => some x
  | .outOfRange => none

end Numeral
end SignalGraph
