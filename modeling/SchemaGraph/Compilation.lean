import SchemaGraph.Drafting
import SchemaGraph.Hierarchy
import SchemaGraph.ImportGraph.Sequence
import SchemaGraph.Resolution
import SchemaGraph.SourceReader

/-!
Loading roots into a workspace: discover what they need, put the units in order, and compile each
one that is not published yet. A unit is declared, resolved, finished and published; if any step
fails, all that the call has published is withdrawn.
-/

namespace SchemaGraph

inductive Failure where
  | refused (error : CompileError)
  /-- A reference of the unit was read before it was resolved. -/
  | readTooEarly
  deriving DecidableEq, Inhabited

def Draft.finish (w : Workspace) (d : Draft) : Except Failure Schema :=
  match d.link with
  | .error _ => .error .readTooEarly
  | .ok u => (u.finish w).mapError .refused

inductive UnitEvent where
  /-- A unit is declared, and its references are about to be resolved. -/
  | fixupStarted (unit : SourceId)
  /-- A unit is published; `pending` counts the references of its draft that were left open. -/
  | published (schema : Schema) (pending : Nat)

/-- The workspace while units are compiled, and the events so far. -/
structure Progress where
  workspace : Workspace
  events : List UnitEvent := []

namespace Progress

def note (p : Progress) (e : UnitEvent) : Progress :=
  { p with events := p.events ++ [e] }

def publish (p : Progress) (d : Draft) : Progress × Except Failure Unit :=
  let (d, resolution) := d.resolve p.workspace
  let finished : Except Failure (Schema × Workspace) := do
    resolution.mapError .refused
    let s ← d.finish p.workspace
    let w ← (p.workspace.register s).mapError .refused
    return (s, w)
  match finished with
  | .error f => (p, .error f)
  | .ok (s, w) => ({ p with workspace := w }.note (.published s d.pendingCount), .ok ())

/-- Compiles a unit, unless it is published already. -/
def compileUnit (reader : SourceReader) (p : Progress) (unit : SourceId) :
    Progress × Except Failure Unit :=
  if (p.workspace.bySource? unit).isSome then (p, .ok ())
  else
    match (reader.read unit).bind (Draft.ofDeclaration p.workspace unit) with
    | .error e => (p, .error (.refused e))
    | .ok d => (p.note (.fixupStarted unit)).publish d

def compileUnits (reader : SourceReader) (p : Progress) :
    List SourceId → Progress × Except Failure Unit
  | [] => (p, .ok ())
  | unit :: units =>
    match compileUnit reader p unit with
    | (p, .error f) => (p, .error f)
    | (p, .ok ()) => compileUnits reader p units

end Progress

/-- What a call has left behind and what it returned: the units in the order of compilation. -/
structure Loading extends Progress where
  result : Except Failure (List SourceId)

/-- Compiles the roots and everything they import. After a failure the workspace holds what it held
before. -/
def Workspace.load (w : Workspace) (reader : SourceReader) (roots : List SourceId) : Loading :=
  match (reader.graph roots).bind ImportGraph.sequence with
  | .error e => { workspace := w, result := .error (.refused e) }
  | .ok order =>
    match Progress.compileUnits reader { workspace := w } order with
    | (p, .ok ()) => { p with result := .ok order }
    | (p, .error f) =>
      { workspace := p.workspace.truncate w.schemas.length, events := p.events, result := .error f }

end SchemaGraph
