import SignalGraph.Json.Numeral

/-!
# JSON values

A JSON text as a tree.  Numbers stay as they are written and objects keep their fields in order
with repetitions, since a reader of documents tells `1` from `1.0` and refuses repeated fields.
-/

namespace SignalGraph

/-- A JSON value.  A string is absent if its escapes leave a surrogate without its partner: such a
text has the right form, but no reader of strings accepts it. -/
inductive Json where
  | null
  | bool (b : Bool)
  | number (n : Numeral)
  | string (text : Option String)
  | array (items : List Json)
  | object (fields : List (Option String × Json))
  deriving Inhabited

namespace Json

def field? (name : String) : Json → Option Json
  | object fields => (fields.find? fun f => f.1 == some name).map (·.2)
  | _ => none

end Json
end SignalGraph
