import SignalGraph.Json.Basic

/-!
# Reading records

Decoders of the shapes that documents are made of.  Nothing is converted: an integer must be written
as one, and null stands only for an absent option.
-/

namespace SignalGraph

abbrev Decoder (α : Type) := Json → Option α

namespace Json

variable {α : Type}

def string? : Decoder String
  | .string text => text
  | _ => none

def bool? : Decoder Bool
  | .bool b => some b
  | _ => none

def integer? (low high : Int) : Decoder Int
  | .number n => n.integer?.filter fun i => low ≤ i ∧ i ≤ high
  | _ => none

def uint16? : Decoder UInt16 := fun j => (integer? 0 65535 j).map fun i => i.toNat.toUInt16

def uint32? : Decoder UInt32 := fun j => (integer? 0 4294967295 j).map fun i => i.toNat.toUInt32

def uint64? : Decoder UInt64 :=
  fun j => (integer? 0 18446744073709551615 j).map fun i => i.toNat.toUInt64

def index? : Decoder Int := integer? (-2147483648) 2147483647

def float32? : Decoder Binary32
  | .number n => n.float32?
  | _ => none

def list? (item : Decoder α) : Decoder (List α)
  | .array items => items.mapM item
  | _ => none

def triple? (item : Decoder α) : Decoder (α × α × α)
  | .array [a, b, c] => do return (← item a, ← item b, ← item c)
  | _ => none

def pair? (item : Decoder α) : Decoder (α × α)
  | .array [a, b] => do return (← item a, ← item b)
  | _ => none

def option? (item : Decoder α) : Decoder (Option α)
  | .null => some none
  | j => (item j).map some

/-- One of a set of names, either as text or as the one field of an object that holds null. -/
def variant? (ofTag? : String → Option α) : Decoder α
  | .string (some tag) => ofTag? tag
  | .object [(some tag, .null)] => ofTag? tag
  | _ => none

/-- The fields of a record that are given.  A record is an object, with other fields ignored, or an
array of its first fields in order.  No field may come twice. -/
def record? (names : List String) : Json → Option (List (String × Json))
  | .object fields => do
    let fields ← fields.mapM fun (key, item) => key.map (·, item)
    let known := fields.filter fun field => names.contains field.1
    if (known.map Prod.fst).Nodup then some known else none
  | .array items => if items.length ≤ names.length then some (names.zip items) else none
  | _ => none

def required (fields : List (String × Json)) (name : String) (item : Decoder α) : Option α :=
  fields.lookup name >>= item

def optional (fields : List (String × Json)) (name : String) (item : Decoder α) (absent : α) :
    Option α :=
  match fields.lookup name with
  | none => some absent
  | some j => item j

end Json
end SignalGraph
