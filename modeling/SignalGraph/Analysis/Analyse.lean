import SignalGraph.Analysis.Expand
import SignalGraph.Analysis.Nodes
import SignalGraph.Analysis.Order
import SignalGraph.Analysis.Sharing
import SignalGraph.Analysis.Wiring
import SignalGraph.Library.Load

namespace SignalGraph
namespace Program

/-- The program of a document whose blocks are all in the catalog. -/
def analyse (c : Catalog) (d : Document) : Except Fault Program := do
  let x ← Expansion.ofDocument c d
  Wiring.check x
  let vars := Nodes.vars x
  let built ← Nodes.all x vars
  let nodes := Nodes.nameInspected vars (built.map (·.1))
  Order.checkControl nodes.toArray
  let volatile ← Order.volatileNodes nodes.toArray
  let memoPoints := Sharing.memoPoints nodes volatile
  return {
    vars, memoPoints
    environments := x.scopes.map (·.environment)
    nodes := (Sharing.assignSlots 0 (Sharing.tag memoPoints nodes)).toArray
    entryPoints := (built.zipIdx.filter (·.1.2)).map (·.2)
    slots := Sharing.slots nodes }

/-- The program of a document with the blocks of a library at hand. -/
def load (c : Catalog) (d : Document) (library : List LibraryFile) : Except Fault Program := do
  let d := d.withLibrary library
  analyse (← d.blocks.foldlM Catalog.addCustom c) d

end Program
end SignalGraph
