import SignalGraph.Program.Basic

/-!
# Stores

The variables and the state of a running program.  Every variable is a list that grows when it is
written past its end; a variable that is no list has its value at index zero.
-/

namespace SignalGraph

structure Cell where
  decl : Variable
  values : Array Value
  deriving DecidableEq

structure VariableStore where
  cells : Array Cell
  deriving DecidableEq

/-- The elements of a variable that outlives a session. -/
structure SavedVariable where
  name : String
  type : WireType
  values : Array Value
  deriving DecidableEq

namespace VariableStore

/-- Elements from this index on are never written. -/
def capacity : Nat := 65536

/-- The position of an element.  Negative indices have none. -/
def position? (index : Int32) : Option Nat :=
  if 0 ≤ index.toInt then some index.toInt.toNat else none

def ofVariables (vars : List Variable) : VariableStore :=
  { cells := (vars.map fun v => { decl := v, values := #[] }).toArray }

def empty (p : Program) : VariableStore := ofVariables p.vars

/-- The element that a pointer leads to.  Elements that were never written have the default of the
variable's type.  A list taken over from elsewhere may be longer than its capacity. -/
def get (s : VariableStore) (p : Pointer) : Value :=
  match s.cells[p.var]? with
  | none => .void
  | some cell => (position? p.index >>= fun i => cell.values[i]?).getD cell.decl.type.default

/-- Writes an element of a list, which grows up to it if needed. -/
def write (values : Array Value) (i : Nat) (fill v : Value) : Array Value :=
  if i < values.size then values.setIfInBounds i v
  else (values ++ Array.replicate (i - values.size) fill).push v

/-- Writes the element that a pointer leads to, if there can be one. -/
def set (s : VariableStore) (p : Pointer) (v : Value) : VariableStore :=
  match position? p.index with
  | none => s
  | some i =>
    if i < capacity then
      { cells := s.cells.modify p.var fun cell =>
          { cell with values := write cell.values i cell.decl.type.default v } }
    else s

def values (s : VariableStore) (id : VarId) : Array Value :=
  match s.cells[id]? with
  | some cell => cell.values
  | none => #[]

def size (s : VariableStore) (id : VarId) : Nat := (s.values id).size

def saved (s : VariableStore) : List SavedVariable :=
  (s.cells.toList.filter (·.decl.scope = .saved)).map fun cell =>
    { name := cell.decl.name, type := .value cell.decl.type, values := cell.values }

def Matches (entry : SavedVariable) (cell : Cell) : Prop :=
  cell.decl.scope = .saved ∧ cell.decl.name = entry.name ∧
    .value cell.decl.type = entry.type

instance (entry : SavedVariable) (cell : Cell) : Decidable (Matches entry cell) :=
  inferInstanceAs (Decidable (_ ∧ _ ∧ _))

/-- Gives the first variable that an entry belongs to the values of the entry. -/
def restoreEntry (s : VariableStore) (entry : SavedVariable) : VariableStore :=
  match s.cells.findIdx? fun cell => decide (Matches entry cell) with
  | none => s
  | some i => { cells := s.cells.modify i fun cell => { cell with values := entry.values } }

/-- Takes over what an earlier session kept.  Entries of no variable are skipped. -/
def restore (s : VariableStore) (entries : List SavedVariable) : VariableStore :=
  entries.foldl restoreEntry s

end VariableStore

structure SlotStore where
  values : Array Value
  deriving DecidableEq

namespace SlotStore

def ofTypes (types : List Base) : SlotStore := { values := (types.map Base.default).toArray }

def empty (p : Program) : SlotStore := ofTypes (p.slots.map (·.type))

def get (s : SlotStore) (id : SlotId) : Value := s.values.getD id .void

def set (s : SlotStore) (id : SlotId) (v : Value) : SlotStore :=
  { values := s.values.setIfInBounds id v }

end SlotStore
end SignalGraph
