import SignalGraph.Analysis.Analyse
import SignalGraph.Block.Registration

/-!
# Loading in place

Whoever loads a program keeps the catalog: the blocks of the document and of the library are
registered on a copy of it, which the analysis then works with.
-/

namespace SignalGraph
namespace Program

/-- The catalog of the caller, and the one that blocks are added to. -/
structure Catalogs where
  given : Catalog
  copy : Catalog

abbrev Loading := ExceptT Fault (StateM Catalogs)

def onCopy (work : Catalog.InPlace Unit) : Loading Unit :=
  show StateM Catalogs (Except Fault Unit) from do
    let s ← get
    let (answer, copy) := work.run.run s.copy
    set { s with copy }
    return answer

def loading (d : Document) (library : List LibraryFile) : Loading Program := do
  let d := d.withLibrary library
  modify fun s => { s with copy := s.given }
  d.blocks.forM fun block => onCopy (Catalog.register (.custom block))
  analyse (← get).copy d

end Program
end SignalGraph
