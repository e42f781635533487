import SignalGraph.Number.Shortest

/-!
# Decimal text

How the digits of a float are laid out.  A style holds every decision of one output format, so that
the selection of digits knows none of them.
-/

namespace SignalGraph

/-- A way to write floats.  A value `v` with `10 ^ (e - 1) ≤ v < 10 ^ e` is written positionally,
with at least one digit after the point, for `least < e ≤ greatest`, and otherwise as one digit, the
rest after a point, and an exponent. -/
structure FloatStyle where
  least : Int
  greatest : Int
  tie : Tie
  nan : String
  infinity : String
  negativeInfinity : String

namespace FloatStyle

def positional (digits : String) (e : Int) : String :=
  let length : Int := digits.length
  if e ≤ 0 then "0." ++ String.ofList (List.replicate (-e).toNat '0') ++ digits
  else if length ≤ e then digits ++ String.ofList (List.replicate (e - length).toNat '0') ++ ".0"
  else (digits.take e.toNat).toString ++ "." ++ (digits.drop e.toNat).toString

def scientific (digits : String) (e : Int) : String :=
  let point := if digits.length = 1 then "" else "."
  (digits.take 1).toString ++ point ++ (digits.drop 1).toString ++ "e" ++ toString (e - 1)

def magnitude (style : FloatStyle) (d : Decimal) : String :=
  let digits := toString d.digits
  if d.digits = 0 then "0.0"
  else if style.least < d.magnitude ∧ d.magnitude ≤ style.greatest then
    positional digits d.magnitude
  else scientific digits d.magnitude

def render (style : FloatStyle) (x : Binary32) : String :=
  if x.isNaN then style.nan
  else if x.isInf then (if x < 0 then style.negativeInfinity else style.infinity)
  else (if x.signBit then "-" else "") ++ style.magnitude (Decimal.ofBinary32 style.tie x)

end FloatStyle
end SignalGraph
