import SchemaGraph.DepthFirst
import SchemaGraph.Error
import SchemaGraph.ImportGraph

/-!
The order of compilation: every unit after the units it imports.

Units whose imports are all placed wait in a queue. Placing one lowers the count of missing imports
of each unit that imports it; a unit whose count reaches nothing joins the queue. Units that are
never placed are on a cycle of imports or behind one.
-/

namespace SchemaGraph.ImportGraph

structure Placement where
  /-- For each unit the number of its imports that are not placed. -/
  missing : List Nat
  ready : List Nat
  placed : List Nat

namespace Placement

/-- All units that import nothing are ready. -/
def start (g : ImportGraph) : Placement where
  missing := g.indices.map fun i => (g.targets i).length
  ready := g.indices.filter fun i => (g.targets i).length = 0
  placed := []

/-- One import of `importer` has been placed. -/
def release (p : Placement) (importer : Nat) : Placement :=
  let left := p.missing.getD importer 0 - 1
  { p with
    missing := p.missing.set importer left
    ready := if left = 0 then p.ready ++ [importer] else p.ready }

/-- Places the first unit of the queue. -/
def step (g : ImportGraph) (p : Placement) : Placement :=
  match p.ready with
  | [] => p
  | i :: rest =>
    (g.importers i).foldl release { p with ready := rest, placed := p.placed ++ [i] }

def run (g : ImportGraph) : Nat → Placement → Placement
  | 0, p => p
  | n + 1, p => run g n (p.step g)

end Placement

/-- The units that can be placed, in the order of placing. No unit is placed twice, so as many steps
as there are units place them all. -/
def placed (g : ImportGraph) : List Nat :=
  (Placement.run g g.unitCount (Placement.start g)).placed

/-- The units that can be reached from a unit through imports, itself included. -/
def reachable (g : ImportGraph) (i : Nat) : List Nat :=
  DepthFirst.reached g.targets g.indices [i]

/-- The units that a unit reaches and that reach it. -/
def component (g : ImportGraph) (i : Nat) : List Nat :=
  g.indices.filter fun j => j ∈ g.reachable i ∧ i ∈ g.reachable j

def leftover (g : ImportGraph) : List Nat :=
  g.indices.filter fun i => i ∉ g.placed

/-- The units of the first cycle of two or more units; all units left over if there is none. -/
def cycleMembers (g : ImportGraph) : List Nat :=
  ((g.leftover.map g.component).find? fun c => 1 < c.length).getD g.leftover

/-- The sources in an order in which each follows what it imports. -/
def sequence (g : ImportGraph) : Except CompileError (List SourceId) :=
  if g.placed.length < g.unitCount then
    .error (.importCycle (g.sourcesAt g.cycleMembers))
  else .ok (g.sourcesAt g.placed)

end SchemaGraph.ImportGraph
