import SignalGraph.Analysis.Scope

/-!
# Expansion

Every custom block becomes an environment of its own: first the main graph, then the blocks of each
graph in their order, each with all it contains before the next.  A graph that contains itself would
expand for ever and is refused, so the nesting is no deeper than there are graphs.
-/

namespace SignalGraph

/-- The graph of that number; of several the last one declared. -/
def Document.graph? (d : Document) (id : GraphId) : Option Graph :=
  (d.blocks.reverse.find? (·.graph.id = id)).map (·.graph)

namespace Expansion

/-- The nodes of a graph with their blocks.  `enclosing` holds the graph and those around it, and
`seen` the positions that are taken. -/
def members (c : Catalog) (d : Document) (graph : GraphId) (enclosing : List GraphId) :
    NodeId → List Pos → List NodeDecl → Except Fault (List Member)
  | _, _, [] => .ok []
  | id, seen, decl :: rest => do
    let some block := c.find? decl.kind | throw (.unknownKind decl.kind decl.pos)
    let m : Member := { decl, block, id }
    if let some inner := m.graph? then
      if (d.graph? inner).isNone then throw (.unknownGraph inner)
      if enclosing.contains inner then throw (.breach (.selfInstance inner))
    if seen.contains decl.pos then throw (.breach (.sharedPosition decl.pos graph))
    let next := if m.isBuiltin then id + 1 else id
    return m :: (← members c d graph enclosing next (decl.pos :: seen) rest)

/-- Adds the environment of a graph and those of the custom blocks in it. -/
def expandGraph (c : Catalog) (d : Document) : (depth : Nat) → (enclosing : List GraphId) →
    List Scope → Graph → Option (EnvId × Pos) → Except Fault (List Scope)
  | 0, _, _, graph, _ => .error (.breach (.selfInstance graph.id))
  | depth + 1, enclosing, scopes, graph, parent => do
    let enclosing := graph.id :: enclosing
    let members ← members c d graph.id enclosing (builtinCount scopes) [] graph.nodes
    let env := scopes.length
    let copy := scopes.countP fun s => s.environment.graph = graph.id
    let scope : Scope :=
      { environment := { graph := graph.id, copy, parent }, members,
        connections := graph.connections }
    members.foldlM (fun scopes m =>
      match m.graph? >>= d.graph? with
      | some inner => expandGraph c d depth enclosing scopes inner (some (env, m.decl.pos))
      | none => .ok scopes) (scopes ++ [scope])

def ofDocument (c : Catalog) (d : Document) : Except Fault Expansion := do
  return { scopes := ← expandGraph c d (d.blocks.length + 2) [] [] d.main none }

end Expansion
end SignalGraph
