import SignalGraph.Block.Catalog

/-!
# Registration

Calls that register blocks one after the other.  A call works on the catalog in place: it writes to
both of its tables, and what it has written before it fails would stay written.
-/

namespace SignalGraph

inductive Registration where
  | builtin (id : KindId) (kind : Kind)
  | custom (decl : CustomBlock)

namespace Registration

def id : Registration → KindId
  | builtin id _ => id
  | custom decl => decl.id

def kind? : Registration → Option Kind
  | builtin _ kind => some kind
  | custom _ => none

/-- The terminals of the block in place, or why they cannot be placed. -/
def terminals : Registration → Except Fault (List Terminal)
  | builtin _ kind =>
    let shape := kind.shape
    layout shape.name shape.footprint
      (shape.inputs.map (fun pin => { type := pin.type, dir := .input, name := some pin.name }) ++
        shape.outputs.map fun pin => { type := pin.type, dir := .output, name := some pin.name })
      shape.active
  | custom decl => layout decl.name decl.footprint decl.terminals decl.active

def block : Registration → Except Fault Block
  | builtin id kind => Block.ofKind id kind
  | custom decl => Block.ofCustom decl

end Registration

def Stock.registrations : List Registration := Stock.all.map fun (id, kind) => .builtin id kind

namespace Catalog

def add (c : Catalog) : Registration → Except Fault Catalog
  | .builtin id kind => c.addBuiltin id kind
  | .custom decl => c.addCustom decl

/-- Work on a catalog in place.  A failure leaves the catalog as it was when the failure arose. -/
abbrev InPlace := ExceptT Fault (StateM Catalog)

def enter (b : Block) : InPlace Unit := do
  if ((← get).find? b.id).isSome then throw (.duplicateKind b.id)
  modify fun c => { c with blocks := b :: c.blocks }

def register (r : Registration) : InPlace Unit := do
  enter (← r.block)
  if let some kind := r.kind? then
    modify fun c => { c with numbers := (kind, r.id) :: c.numbers }

/-- One call after the other, whether or not they fail, with the answer of each. -/
def registerAll (rs : List Registration) : StateM Catalog (List (Except Fault Unit)) :=
  rs.mapM fun r => (register r).run

end Catalog
end SignalGraph
