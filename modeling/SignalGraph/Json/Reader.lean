import SignalGraph.Json.Basic

/-!
# Reading JSON

A strict reader: one value with blanks around it, no comments, no trailing commas, no leading
zeros, no bare control characters in strings.
-/

namespace SignalGraph
namespace Json

/-- Part of a string: a character, or a 16-bit unit given by number. -/
inductive Piece where
  | char (c : Char)
  | unit (n : Nat)

def isBlank (c : Char) : Bool := c == ' ' || c == '\t' || c == '\n' || c == '\r'

def skipBlanks (cs : List Char) : List Char := cs.dropWhile isBlank

def hexDigit? (c : Char) : Option Nat :=
  if '0' ≤ c ∧ c ≤ '9' then some (c.toNat - 48)
  else if 'a' ≤ c ∧ c ≤ 'f' then some (c.toNat - 87)
  else if 'A' ≤ c ∧ c ≤ 'F' then some (c.toNat - 55)
  else none

def hexUnit? (a b c d : Char) : Option Nat := do
  return ((((← hexDigit? a) * 16 + (← hexDigit? b)) * 16 + (← hexDigit? c)) * 16 + (← hexDigit? d))

def simpleEscape? : Char → Option Char
  | '"' => some '"'
  | '\\' => some '\\'
  | '/' => some '/'
  | 'b' => some '\x08'
  | 'f' => some '\x0c'
  | 'n' => some '\n'
  | 'r' => some '\r'
  | 't' => some '\t'
  | _ => none

def pieces (acc : List Piece) : List Char → Option (List Piece × List Char)
  | [] => none
  | '"' :: rest => some (acc.reverse, rest)
  | '\\' :: 'u' :: a :: b :: c :: d :: rest =>
    match hexUnit? a b c d with
    | some n => pieces (.unit n :: acc) rest
    | none => none
  | '\\' :: c :: rest =>
    match simpleEscape? c with
    | some e => pieces (.char e :: acc) rest
    | none => none
  | c :: rest => if c.toNat < 0x20 then none else pieces (.char c :: acc) rest

/-- The characters of a string, unless a surrogate lacks its partner. -/
def characters (acc : List Char) : List Piece → Option (List Char)
  | [] => some acc.reverse
  | .char c :: rest => characters (c :: acc) rest
  | .unit n :: rest =>
    if n < 0xd800 ∨ 0xdfff < n then characters (Char.ofNat n :: acc) rest
    else if n < 0xdc00 then
      match rest with
      | .unit m :: rest =>
        if 0xdc00 ≤ m ∧ m ≤ 0xdfff then
          characters (Char.ofNat (0x10000 + (n - 0xd800) * 0x400 + (m - 0xdc00)) :: acc) rest
        else none
      | _ => none
    else none

def stringBody (cs : List Char) : Option (Option String × List Char) :=
  (pieces [] cs).map fun (ps, rest) => ((characters [] ps).map String.ofList, rest)

def digit? (c : Char) : Option Nat :=
  if '0' ≤ c ∧ c ≤ '9' then some (c.toNat - 48) else none

def digits (acc : List Nat) : List Char → List Nat × List Char
  | [] => (acc.reverse, [])
  | c :: rest =>
    match digit? c with
    | some d => digits (d :: acc) rest
    | none => (acc.reverse, c :: rest)

/-- The digits before the point: a zero alone, or digits that do not start with one. -/
def wholePart (cs : List Char) : Option (List Nat × List Char) :=
  match digits [] cs with
  | ([], _) => none
  | ([0], rest) => some ([0], rest)
  | (0 :: _, _) => none
  | found => some found

def fractionPart : List Char → Option (Option (List Nat) × List Char)
  | '.' :: rest =>
    match digits [] rest with
    | ([], _) => none
    | (ds, rest) => some (some ds, rest)
  | cs => some (none, cs)

def exponentDigits (down : Bool) (cs : List Char) : Option (Option (Bool × List Nat) × List Char) :=
  match digits [] cs with
  | ([], _) => none
  | (ds, rest) => some (some (down, ds), rest)

def exponentPart : List Char → Option (Option (Bool × List Nat) × List Char)
  | c :: rest =>
    if c == 'e' || c == 'E' then
      match rest with
      | '+' :: rest => exponentDigits false rest
      | '-' :: rest => exponentDigits true rest
      | rest => exponentDigits false rest
    else some (none, c :: rest)
  | [] => some (none, [])

def unsigned (negative : Bool) (cs : List Char) : Option (Numeral × List Char) := do
  let (whole, rest) ← wholePart cs
  let (fraction, rest) ← fractionPart rest
  let (exponent, rest) ← exponentPart rest
  return ({ negative, whole, fraction, exponent }, rest)

def numeral : List Char → Option (Numeral × List Char)
  | '-' :: rest => unsigned true rest
  | cs => unsigned false cs

def word (w : List Char) (cs : List Char) : Option (List Char) :=
  if w.isPrefixOf cs then some (cs.drop w.length) else none

mutual

/-- One value at the front.  Every step of the three readers takes at least one character, so the
length of the text bounds their depth. -/
def value : (fuel : Nat) → List Char → Option (Json × List Char)
  | 0, _ => none
  | fuel + 1, cs =>
    match skipBlanks cs with
    | '"' :: rest => (stringBody rest).map fun (s, rest) => (.string s, rest)
    | '[' :: rest =>
      match skipBlanks rest with
      | ']' :: rest => some (.array [], rest)
      | rest => items fuel [] rest
    | '{' :: rest =>
      match skipBlanks rest with
      | '}' :: rest => some (.object [], rest)
      | rest => fields fuel [] rest
    | 't' :: rest => (word ['r', 'u', 'e'] rest).map fun rest => (.bool true, rest)
    | 'f' :: rest => (word ['a', 'l', 's', 'e'] rest).map fun rest => (.bool false, rest)
    | 'n' :: rest => (word ['u', 'l', 'l'] rest).map fun rest => (.null, rest)
    | rest => (numeral rest).map fun (n, rest) => (.number n, rest)

def items : (fuel : Nat) → List Json → List Char → Option (Json × List Char)
  | 0, _, _ => none
  | fuel + 1, acc, cs =>
    match value fuel cs with
    | none => none
    | some (item, rest) =>
      match skipBlanks rest with
      | ',' :: rest => items fuel (item :: acc) rest
      | ']' :: rest => some (.array (item :: acc).reverse, rest)
      | _ => none

def fields : (fuel : Nat) → List (Option String × Json) → List Char → Option (Json × List Char)
  | 0, _, _ => none
  | fuel + 1, acc, cs =>
    match skipBlanks cs with
    | '"' :: rest =>
      match stringBody rest with
      | none => none
      | some (key, rest) =>
        match skipBlanks rest with
        | ':' :: rest =>
          match value fuel rest with
          | none => none
          | some (item, rest) =>
            match skipBlanks rest with
            | ',' :: rest => fields fuel ((key, item) :: acc) rest
            | '}' :: rest => some (.object ((key, item) :: acc).reverse, rest)
            | _ => none
        | _ => none
    | _ => none

end

def parse? (text : String) : Option Json :=
  let cs := text.toList
  match value (cs.length + 1) cs with
  | some (v, rest) => if (skipBlanks rest).isEmpty then some v else none
  | none => none

end Json
end SignalGraph
