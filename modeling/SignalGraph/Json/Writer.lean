import SignalGraph.Json.Basic
import SignalGraph.Number.Style
import SignalGraph.Text.Quoted

namespace SignalGraph

/-- Numbers of documents: positional from 0.000001 up to `10 ^ 13`.  Ties go to the even digit,
and JSON has no infinities. -/
def documentStyle : FloatStyle :=
  { least := -6, greatest := 13, tie := .even
    nan := "null", infinity := "null", negativeInfinity := "null" }

namespace Json
namespace Write

def controlDigits (c : Char) : String :=
  (if c.toNat < 16 then "0" else "") ++ Text.hex c.toNat

def escape (c : Char) : String :=
  match c with
  | '"' => "\\\""
  | '\\' => "\\\\"
  | '\x08' => "\\b"
  | '\x0c' => "\\f"
  | '\n' => "\\n"
  | '\r' => "\\r"
  | '\t' => "\\t"
  | c => if c.toNat < 0x20 then "\\u00" ++ controlDigits c else c.toString

def string (s : String) : String := "\"" ++ String.join (s.toList.map escape) ++ "\""

def float (x : Binary32) : String := documentStyle.render x

def bool (b : Bool) : String := if b then "true" else "false"

def array (items : List String) : String := "[" ++ String.intercalate "," items ++ "]"

def object (fields : List (String × String)) : String :=
  let field := fun (name, item) => string name ++ ":" ++ item
  "\x7b" ++ String.intercalate "," (fields.map field) ++ "\x7d"

def digits (ds : List Nat) : String := String.join (ds.map toString)

/-- A number as it was read. -/
def numeral (n : Numeral) : String :=
  let fraction := match n.fraction with
    | some ds => "." ++ digits ds
    | none => ""
  let exponent := match n.exponent with
    | some (down, ds) => (if down then "e-" else "e") ++ digits ds
    | none => ""
  (if n.negative then "-" else "") ++ digits n.whole ++ fraction ++ exponent

end Write

open Write

mutual

/-- Any JSON value.  An absent string is written as the empty one. -/
def write : Json → String
  | .null => "null"
  | .bool b => Write.bool b
  | .number n => Write.numeral n
  | .string text => Write.string (text.getD "")
  | .array items => Write.array (writeItems items)
  | .object fields => Write.object (writeFields fields)

def writeItems : List Json → List String
  | [] => []
  | j :: rest => write j :: writeItems rest

def writeFields : List (Option String × Json) → List (String × String)
  | [] => []
  | (key, j) :: rest => (key.getD "", write j) :: writeFields rest

end

end Json
end SignalGraph
