import SchemaGraph.Emission.Backend

/-!
A backend that writes an outline: one line for each type, and one for each schema.
-/

namespace SchemaGraph

/-- What the aggregate of a schema comes to. -/
inductive Outline.Aggregate where
  | line
  | absent
  | refused
  deriving DecidableEq, Inhabited

structure Outline where
  refused : List String := []
  odd : List String := []
  noted : List String := []
  aggregate : Outline.Aggregate := .line
  deriving DecidableEq, Inhabited

namespace Outline

def typeLine (v : SchemaView) (r : TypeRef) (t : LinkedType) : String :=
  let properties := String.intercalate ", " ((v.workspace.effectiveProperties r).map fun p =>
    p.name ++ ": " ++ v.workspace.typeName p.type)
  let key := String.intercalate ","
    (((v.workspace.primaryKey? r).map fun l => l.components.map KeyComponent.name).getD [])
  s!"{t.kind.name} {t.name} [{properties}] key({key})"

def schemaLine (v : SchemaView) : String :=
  let imports := String.intercalate "," (v.imports.map fun i => i.1 ++ "=" ++ i.2.name)
  let types := String.intercalate "," v.schema.typeNames
  s!"schema {v.schema.name} ns({v.schema.namespace}) imports({imports}) types({types})"

def notes (o : Outline) (name : String) : List Note :=
  (if name ∈ o.odd then [⟨.warning, "odd name"⟩] else []) ++
    if name ∈ o.noted then [⟨.info, "noted"⟩] else []

def backend (o : Outline) : Backend where
  language := "probe"
  extension := "txt"
  emitType v r t :=
    if t.name ∈ o.refused then .error (v.failure t.name "refused")
    else .ok { code := typeLine v r t, notes := o.notes t.name }
  emitSchema v :=
    match o.aggregate with
    | .line => .ok (some { code := schemaLine v })
    | .absent => .ok none
    | .refused => .error (v.failure v.schema.name "no aggregate")

end Outline

end SchemaGraph
