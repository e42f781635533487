import SignalGraph.Text.Printable

namespace SignalGraph
namespace Text

/-- Lower-case hexadecimal digits without leading zeros. -/
def hex (n : Nat) : String := String.ofList (Nat.toDigits 16 n)

/-- The written form of one character.  A single quote needs no escape between double quotes. -/
def escape (c : Char) : String :=
  match c with
  | '\t' => "\\t"
  | '\n' => "\\n"
  | '\r' => "\\r"
  | '"' => "\\\""
  | '\\' => "\\\\"
  | '\x00' => "\\0"
  | c => if isPrintable c then c.toString else "\\u\x7b" ++ hex c.toNat ++ "\x7d"

def quoted (s : String) : String := "\"" ++ String.join (s.toList.map escape) ++ "\""

/-- A path between double quotes.  Here single quotes are escaped as well. -/
def quotedPath (s : String) : String :=
  let escape := fun c => if c = '\x27' then "\\'" else escape c
  "\"" ++ String.join (s.toList.map escape) ++ "\""

end Text
end SignalGraph
