import SchemaGraph.Text.Identifier
import SchemaGraph.Workspace

/-!
From a declaration to a draft. Everything that can be judged without looking at other types is
judged here: names, repetitions, key arity, enum values and the form of type expressions.
-/

namespace SchemaGraph.Drafting

open Text

variable {α β ε : Type}

/-- Draws up each item in turn, with the items before it at hand. -/
def inOrder (draw : List β → α → Except ε β) (as : List α) : Except ε (List β) :=
  as.foldlM (fun done a => do return done ++ [← draw done a]) []

variable (w : Workspace) (unit : SourceId)

/-- A name without the white space around it; it must be an identifier that is not reserved. -/
def properName (role : NameRole) (owner : String) : Option String → Except CompileError String
  | none => .error (.missingAttribute unit owner "name")
  | some text =>
    let name := trim text
    if isIdentifier name && !w.isReserved name then .ok name
    else .error (.invalidIdentifier unit role name)

/-- A namespace has no reserved segment. -/
def properNamespace (text : Option String) : Except CompileError String :=
  let name := trim (text.getD "")
  if isNamespace name && !(segments name).any w.isReserved then .ok name
  else .error (.invalidIdentifier unit .scope name)

/-- A type without a namespace of its own has that of its schema. -/
def typeNamespace (schemaNamespace : String) (text : Option String) : Except CompileError String :=
  if trim (text.getD "") = "" then .ok schemaNamespace else properNamespace w unit text

def require (owner field : String) : Option α → Except CompileError α
  | some a => .ok a
  | none => .error (.missingAttribute unit owner field)

/-- The path of a base or interface clause. -/
def clausePath (type clause text : String) : Except CompileError TypePath :=
  (TypePath.parse text).mapError (.malformedTypeExpr unit type clause text)

/-! ### Imports -/

/-- The schema that an import stands for and the name that it has; a unit may import itself. -/
def importTarget (schema : String) (i : Declaration.Import) :
    Except CompileError (String × SchemaKey) :=
  if i.source = unit then .ok (schema, w.nextKey)
  else
    match w.bySource? i.source with
    | some target => .ok (target.name, target.key)
    | none => .error (.sourceNotFound i.source)

def draftImport (schema : String) (done : List (String × SchemaKey)) (i : Declaration.Import) :
    Except CompileError (String × SchemaKey) := do
  let (ownName, key) ← importTarget w unit schema i
  let written := i.localName.getD ownName
  let name ← properName w unit .importAlias written (some written)
  if name ∈ done.map Prod.fst then .error (.duplicateImportAlias unit name)
  return (name, key)

/-! ### Composite types -/

def draftProperty (type : String) (done : List (Property TypeBinding)) (p : Declaration.Property) :
    Except CompileError (Property TypeBinding) := do
  let name ← properName w unit .property s!"{type}.property #{done.length + 1}" p.name
  if name ∈ done.map Property.name then .error (.duplicateProperty unit type name)
  let text ← require unit s!"{type}.{name}" "type" p.typeText
  let expr ← (TypeExpr.parse w.containers text p.key p.value).mapError
    (.malformedTypeExpr unit type name text)
  return { name, role := p.role, type := .pending expr, default := p.default,
           metadata := p.metadata }

def draftProperties (type : String) (ps : List Declaration.Property) :
    Except CompileError (List (Property TypeBinding)) :=
  inOrder (draftProperty w unit type) ps

/-- The names of the properties with the role of a key component. -/
def keyComponents (ps : List (Property TypeBinding)) : List String :=
  (ps.filter fun p => p.role = .primaryKey).map Property.name

/-- Key components belong to entities without a base, which have one to seven of them. -/
def checkKeyComponents (kind : TypeKind) (type : String) (hasBase : Bool) :
    List String → Except CompileError Unit
  | [] =>
    if kind = .entity ∧ ¬hasBase then .error (.primaryKeyArity unit type 0) else .ok ()
  | c :: cs =>
    if kind ≠ .entity then .error (.misplacedPrimaryKey unit type c)
    else if hasBase then .error (.derivedEntityPrimaryKey unit type c)
    else if maxKeyArity < (c :: cs).length then
      .error (.primaryKeyArity unit type (c :: cs).length)
    else .ok ()

def draftComposite (schemaNamespace name : String) (kind : TypeKind)
    (d : Declaration.Composite) : Except CompileError DraftType := do
  let base ← d.base.mapM (clausePath unit name "extends")
  let interfaces ← d.interfaces.mapM (clausePath unit name "implements")
  let properties ← draftProperties w unit name d.properties
  checkKeyComponents unit kind name base.isSome (keyComponents properties)
  let ns ← typeNamespace w unit schemaNamespace d.namespace
  return { name, «namespace» := ns, kind, metadata := d.metadata,
           body := .composite
             { isAbstract := d.isAbstract, base := .pending base,
               interfaces := .pending interfaces, properties } }

def draftInterface (schemaNamespace name : String) (d : Declaration.Interface) :
    Except CompileError DraftType := do
  let parents ← d.parents.mapM (clausePath unit name "extends")
  let properties ← draftProperties w unit name d.properties
  checkKeyComponents unit .interface name false (keyComponents properties)
  let ns ← typeNamespace w unit schemaNamespace d.namespace
  return { name, «namespace» := ns, kind := .interface, metadata := d.metadata,
           body := .composite
             { isAbstract := true, base := .pending none, interfaces := .pending parents,
               properties } }

/-! ### Enums -/

/-- The underlying primitive of an enum and its range; it must be an integer type. -/
def enumUnderlying (name : String) (text : Option String) :
    Except CompileError (PrimitiveId × Int × Int) :=
  let id := match text with
    | some t => w.primitives.lookup? (trim t)
    | none => w.enumDefault
  match id.bind fun id => (w.primitives[id]?.bind fun p => p.kind.range?).map fun r => (id, r) with
  | some found => .ok found
  | none => .error (.invalidEnumUnderlying unit name (text.getD ""))

def draftElement (type : String) (low high : Int) (done : List EnumElement)
    (e : Declaration.Element) : Except CompileError EnumElement := do
  let name ← properName w unit .enumElement s!"{type}.element #{done.length + 1}" e.name
  if name ∈ done.map EnumElement.name then .error (.duplicateEnumElement unit type name)
  let written ← require unit s!"{type}.{name}" "value" e.value
  match written.toInt? with
  | none => .error (.invalidEnumValue unit type name written.render)
  | some value =>
    if value < low ∨ high < value then
      .error (.enumValueOutOfRange unit type name value low high)
    else return { name, value, metadata := e.metadata }

def draftEnum (schemaNamespace name : String) (d : Declaration.Enum) :
    Except CompileError DraftType := do
  let (underlying, low, high) ← enumUnderlying w unit name d.underlying
  let elements ← inOrder (draftElement w unit name low high) d.elements
  let ns ← typeNamespace w unit schemaNamespace d.namespace
  return { name, «namespace» := ns, kind := .enum, metadata := d.metadata,
           body := .enum { underlying, elements } }

/-! ### Schemas -/

def draftBody (schemaNamespace name : String) :
    Declaration.TypeDecl → Except CompileError DraftType
  | .entity d => draftComposite w unit schemaNamespace name .entity d
  | .struct d => draftComposite w unit schemaNamespace name .struct d
  | .interface d => draftInterface w unit schemaNamespace name d
  | .enum d => draftEnum w unit schemaNamespace name d

def draftType (schemaNamespace : String) (done : List DraftType) (t : Declaration.TypeDecl) :
    Except CompileError DraftType := do
  let name ← properName w unit .type s!"type #{done.length + 1}" t.name
  if name ∈ done.map UserType.name then .error (.duplicateType unit name)
  draftBody w unit schemaNamespace name t

end Drafting

/-- The draft of a unit, with the key that the next published schema gets. What it imports has to
be published. -/
def Draft.ofDeclaration (w : Workspace) (unit : SourceId) (d : Declaration) :
    Except CompileError Draft := do
  let name ← Drafting.properName w unit .schema unit d.name
  let ns ← Drafting.properNamespace w unit d.namespace
  let imports ← Drafting.inOrder (Drafting.draftImport w unit name) d.imports
  let types ← Drafting.inOrder (Drafting.draftType w unit ns) d.types
  return { key := w.nextKey, source := unit, name, «namespace» := ns, imports, types,
           metadata := d.metadata }

end SchemaGraph
