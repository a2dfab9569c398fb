import SchemaGraph.ImportGraph

/-!
Import graphs as text in the DOT language: a node per unit in the order of discovery, then an edge
per import.
-/

namespace SchemaGraph.ImportGraph

def labelChar (c : Char) : List Char :=
  if c = '\\' then ['\\', '\\'] else if c = '"' then ['\\', '"'] else [c]

def label (id : SourceId) : String :=
  String.ofList (id.toList.flatMap labelChar)

def dotHeader : String :=
  "digraph ImportGraph \x7b\n" ++
  "  rankdir=LR;\n" ++
  "  node [shape=box, style=\"rounded\", fontname=\"Helvetica\", fontsize=10];\n" ++
  "  edge [fontname=\"Helvetica\", fontsize=8];\n\n"

def dotNode (id : SourceId) (i : Nat) : String :=
  s!"  n{i} [label=\"" ++ label id ++ "\"];\n"

def dotEdge (e : Nat × Nat) : String :=
  s!"  n{e.1} -> n{e.2};\n"

def edges (g : ImportGraph) : List (Nat × Nat) :=
  g.indices.flatMap fun i => (g.targets i).map fun j => (i, j)

def toDot (g : ImportGraph) : String :=
  dotHeader ++ String.join (g.units.mapIdx fun i id => dotNode id i) ++
    (if g.importCount = 0 then "" else "\n") ++
    String.join (g.edges.map dotEdge) ++ "\x7d\n"

end SchemaGraph.ImportGraph
