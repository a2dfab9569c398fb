import SchemaGraph.Emission.Report
import SchemaGraph.Workspace

/-!
Backends turn published schemas into code: one call for each type, and one for the schema as a
whole. A type without code does not keep its siblings from theirs.
-/

namespace SchemaGraph

/-- A published schema and everything that it can see. -/
structure SchemaView where
  workspace : Workspace
  schema : Schema

namespace SchemaView

/-- The imported schemas under their aliases; an import of itself is left out. -/
def imports (v : SchemaView) : List (String × Schema) :=
  v.schema.imports.filterMap fun i =>
    if i.2 = v.schema.key then none else v.workspace.schemas[i.2]?.map fun s => (i.1, s)

def failure (v : SchemaView) (type message : String) : CompileError :=
  .generation v.schema.source type message

end SchemaView

structure Backend where
  language : String
  /-- The extension of generated files, without the dot. -/
  extension : String
  emitType : SchemaView → TypeRef → LinkedType → Except CompileError Emitted
  /-- The aggregate of a schema, if it needs one. -/
  emitSchema : SchemaView → Except CompileError (Option Emitted)

namespace Backend

/-- A message with its notes. -/
def withNotes (message : String) (notes : List Note) : String :=
  message ++ String.join (notes.map fun n => "; " ++ n.text)

/-- Fills in what came of a call: the code with its notes, or the error. -/
def settle (blank : EmissionResult) : Except CompileError Emitted → EmissionResult
  | .ok e =>
    { blank with
      severity := e.severity, message := withNotes blank.message e.notes, code := some e.code }
  | .error e => { blank with severity := .error, message := e.message, code := none }

def typeResult (b : Backend) (v : SchemaView) (r : TypeRef) (t : LinkedType) : EmissionResult :=
  settle
    { severity := .success, message := s!"Generated {t.kind.name} {t.fullName}", kind := t.kind,
      schemaName := v.schema.name, typeName := t.name, «namespace» := t.namespace, code := none }
    (b.emitType v r t)

def schemaResult? (b : Backend) (v : SchemaView) : Option EmissionResult :=
  let blank : EmissionResult :=
    { severity := .success, message := s!"Generated aggregate for schema {v.schema.name}",
      kind := none, schemaName := v.schema.name, typeName := v.schema.name,
      «namespace» := v.schema.namespace, code := none }
  match b.emitSchema v with
  | .ok none => none
  | .ok (some e) => some (settle blank (.ok e))
  | .error e => some (settle blank (.error e))

/-- The results for one schema: its types in declaration order, then the aggregate. -/
def schemaResults (b : Backend) (v : SchemaView) : List EmissionResult :=
  (v.schema.types.mapIdx fun i t => b.typeResult v ⟨v.schema.key, i⟩ t) ++
    (b.schemaResult? v).toList

/-- Emits the given units in order; units that are not published are passed over. -/
def emit (b : Backend) (w : Workspace) (units : List SourceId) : Report where
  language := b.language
  results := units.flatMap fun u =>
    match w.bySource? u with
    | some s => b.schemaResults ⟨w, s⟩
    | none => []

def emitAll (b : Backend) (w : Workspace) : Report :=
  b.emit w (w.schemas.map fun s => s.source)

end Backend

end SchemaGraph
