import SchemaGraph.Chain
import SchemaGraph.DepthFirst
import SchemaGraph.Emission.Backend
import SchemaGraph.Emission.RustItem

/-!
Schemas as Rust source.

Entities and structs become structs over their effective properties, interfaces become traits with a
getter for each of their properties, enums become enums with integer discriminants. An entity has an
alias for its key as well, and a schema with entities a registry. The code of a schema is meant for
a module of its own; other schemas are reached through `super`.

A foreign key is stored as the key of its target. A value that would hold itself is boxed.
-/

namespace SchemaGraph.RustSource

open RustNames

variable (v : SchemaView)

/-! ### Types -/

def intType? : PrimitiveKind → Option String
  | .uint8 => some "u8"
  | .uint16 => some "u16"
  | .uint32 => some "u32"
  | .uint64 => some "u64"
  | .int8 => some "i8"
  | .int16 => some "i16"
  | .int32 => some "i32"
  | .int64 => some "i64"
  | _ => none

/-- The path of a custom primitive: its namespace is a path of modules. -/
def customPath (p : Primitive) : Except RustFault RustPath := do
  let name ← typeName p.name
  if p.namespace.isEmpty then return [name]
  else return (← (Text.segments p.namespace).mapM fieldName) ++ [name]

def primitivePath (p : Primitive) : Except RustFault RustPath :=
  match intType? p.kind, p.kind with
  | some t, _ => .ok [t]
  | none, .float => .ok ["f32"]
  | none, .double => .ok ["f64"]
  | none, .bool => .ok ["bool"]
  | none, .string => .ok ["String"]
  | none, _ => customPath p

def primitiveType (id : PrimitiveId) : Except RustFault RustType :=
  .path <$> primitivePath (v.workspace.primitives[id]?.getD default)

/-- Whether a primitive can be hashed; floating point numbers cannot. -/
def isHashable (id : PrimitiveId) : Bool :=
  !(v.workspace.primitives[id]?.any fun p => p.kind.isFloating)

/-- An identifier of the schema of `r`, as seen from the schema that is emitted. -/
def pathTo (r : TypeRef) (id : String) : Except RustFault RustPath := do
  if r.schema = v.schema.key then return [id]
  else
    let schema := (v.workspace.schemas[r.schema]?.map fun s => s.name).getD ""
    return ["super", ← moduleName schema, id]

def nameOf : TypeRef → String :=
  TypeLookup.typeName v.workspace.type?

/-- The alias for the key of an entity. -/
def keyAlias (entity : String) : String :=
  entity ++ "Key"

def typePath (r : TypeRef) : Except RustFault RustPath := do
  pathTo v r (← typeName (nameOf v r))

/-! ### Values stored in place -/

/-- The composite type that a property stores in place, directly or as an optional. -/
def inlineTarget? (p : LinkedProperty) : Option TypeRef :=
  let leaf := match p.type with
    | .container .optional _ value => value
    | t => t
  match leaf with
  | .struct r => some r
  | .entity r => if p.role = .foreignKey then none else some r
  | _ => none

/-- The composite types that a type stores in place. -/
def inlineTargets (w : Workspace) (r : TypeRef) : List TypeRef :=
  (w.effectiveProperties r).filterMap inlineTarget?

/-- Whether `source` stores `target` in place, directly or within other values. -/
def inlines (w : Workspace) (source target : TypeRef) : Bool :=
  (DepthFirst.reached (inlineTargets w) w.refs [source]).any fun r => target ∈ inlineTargets w r

/-! ### Properties -/

/-- The type of a value of a property; `inPlace` says that the owner stores it directly or as an
optional. -/
def leafType (owner : TypeRef) (p : LinkedProperty) (inPlace : Bool) (t : DataType) :
    Except RustFault RustType :=
  let reference (r : TypeRef) : Except RustFault RustType := do
    let path := RustType.path (← typePath v r)
    if inPlace ∧ (r = owner ∨ inlines v.workspace r owner) then return .boxed path else return path
  match t with
  | .primitive id => primitiveType v id
  | .entity r =>
    if p.role = .foreignKey then .path <$> pathTo v r (keyAlias (nameOf v r)) else reference r
  | .struct r | .enum r => reference r
  | .interface r => .error (.interfaceTyped p.name (nameOf v r))
  | .void | .generic _ | .container .. =>
    .error (.unsupportedType p.name (v.workspace.typeName t))

def propertyType (owner : TypeRef) (p : LinkedProperty) : Except RustFault RustType :=
  match p.type with
  | .container shape key value => do
    let leaf ← leafType v owner p (shape = .optional) value
    match shape with
    | .list => return .vec leaf
    | .optional => return .option leaf
    | .set => return .hashSet leaf
    | .map =>
      match key with
      | none => .error (.mapWithoutKey p.name)
      | some id => return .hashMap (← primitiveType v id) leaf
  | t => leafType v owner p true t

def propertyNotes (p : LinkedProperty) : List Note :=
  match p.type with
  | .container .set _ (.primitive id) =>
    if isHashable v id then []
    else [⟨.warning, s!"set '{p.name}' holds floating point values"⟩]
  | .container .map (some id) _ =>
    if isHashable v id then []
    else [⟨.warning, s!"map '{p.name}' is keyed by a floating point value"⟩]
  | _ => []

/-! ### Documentation -/

def annotation (entry : String × String) : String :=
  "`" ++ entry.1 ++ "`: " ++ entry.2

def capitalized : TypeKind → String
  | .entity => "Entity"
  | .struct => "Struct"
  | .interface => "Interface"
  | .enum => "Enum"

def typeDocs (t : LinkedType) : List String :=
  (capitalized t.kind ++ " `" ++ t.fullName ++ "`") ::
    t.metadata.flatMap fun entry => ["", annotation entry]

def baseDocs : Option TypeRef → List String
  | none => []
  | some r => ["", "Extends `" ++ ((v.workspace.type? r).map UserType.fullName).getD "" ++ "`."]

def roleDocs : PropertyRole → List String
  | .plain => []
  | .primaryKey => ["Primary key component."]
  | .foreignKey => ["Foreign key."]

def propertyDocs (p : LinkedProperty) : List String :=
  roleDocs p.role ++ (p.default.map fun d => "Default: `" ++ d ++ "`.").toList ++
    p.metadata.map annotation

/-! ### Structs -/

/-- The field of a property, which must not be one of those before it. -/
def structField (owner : TypeRef) (done : List RustMember) (p : LinkedProperty) :
    Except RustFault RustMember := do
  let name ← fieldName p.name
  if name ∈ done.map RustMember.name then .error (.fieldTaken p.name name)
  return { docs := propertyDocs p, name, type := ← propertyType v owner p }

def structFields (owner : TypeRef) (ps : List LinkedProperty) :
    Except RustFault (List RustMember) :=
  ps.foldlM (fun done p => do return done ++ [← structField v owner done p]) []

/-- The alias for the key of an entity, and the method that gives the key. -/
def keyItems (r : TypeRef) (t : LinkedType) (name : String) : Except RustFault (List RustItem) :=
  match v.workspace.primaryKey? r with
  | none => .error (.noPrimaryKey t.name)
  | some layout => do
    let components ← layout.components.mapM fun c => do
      let type ← primitiveType v c.primitive
      return (type, ← fieldName c.name)
    return [.tupleAlias ["Primary key of [`" ++ name ++ "`]"] (keyAlias t.name)
              (components.map Prod.fst),
            .keyAccessor name (keyAlias t.name) (components.map Prod.snd)]

def keyNotes (r : TypeRef) : List Note :=
  ((v.workspace.primaryKey? r).map KeyLayout.components).getD [] |>.flatMap fun c =>
    if c.kind.isFloating then
      [⟨.warning, s!"key component '{c.name}' is floating point; the key tuple is not hashable"⟩]
    else []

def interfacesOf : TypeRef → List TypeRef :=
  TypeLookup.interfacesOf v.workspace.type?

def base? : TypeRef → Option TypeRef :=
  TypeLookup.base? v.workspace.type?

/-- The interfaces of a type and its bases with everything they extend, extended ones first. -/
def implementedInterfaces (r : TypeRef) : List TypeRef :=
  let refs := v.workspace.refs
  DepthFirst.postorder (interfacesOf v) refs
    ((chain (base? v) refs.length r).flatMap (interfacesOf v)) []

def interfaceProperties : TypeRef → List LinkedProperty :=
  TypeLookup.properties v.workspace.type?

def interfaceImpl (owner : TypeRef) (name : String) (i : TypeRef) : Except RustFault RustItem := do
  let path ← typePath v i
  let getters ← (interfaceProperties v i).mapM fun p => do
    let field ← fieldName p.name
    return ({ name := field, type := ← propertyType v owner p } : RustMember)
  return .traitImpl path name getters

def compositeItems (derives : List String) (r : TypeRef) (t : LinkedType) (c : LinkedComposite) :
    Except RustFault (List RustItem) := do
  let name ← typeName t.name
  let fields ← structFields v r (v.workspace.effectiveProperties r)
  let key ← if t.kind = .entity then keyItems v r t name else pure []
  let impls ← (implementedInterfaces v r).mapM (interfaceImpl v r name)
  return .struct (typeDocs t ++ baseDocs v c.base) derives name fields :: key ++ impls

def compositeNotes (r : TypeRef) (t : LinkedType) : List Note :=
  (if t.composite?.any Composite.isAbstract then
      [⟨.info, "abstract type emitted as a concrete struct"⟩]
    else []) ++
    (v.workspace.effectiveProperties r).flatMap (propertyNotes v) ++
    (if t.kind = .entity then keyNotes v r else []) ++
    (implementedInterfaces v r).flatMap fun i => (interfaceProperties v i).flatMap (propertyNotes v)

/-! ### Traits -/

def interfaceItems (r : TypeRef) (t : LinkedType) (c : LinkedComposite) :
    Except RustFault (List RustItem) := do
  let name ← typeName t.name
  let supertraits ← c.interfaces.mapM (typePath v)
  let getters ← c.properties.mapM fun p => do
    let type ← propertyType v r p
    return ({ docs := propertyDocs p, name := ← fieldName p.name, type } : RustMember)
  return [.trait (typeDocs t) name supertraits getters]

def interfaceNotes (t : LinkedType) : List Note :=
  t.properties.flatMap (propertyNotes v)

/-! ### Enums -/

/-- The first element whose value an earlier one has. -/
def repeatedElement? (before : List Int) : List EnumElement → Option EnumElement
  | [] => none
  | e :: es => if e.value ∈ before then some e else repeatedElement? (e.value :: before) es

def enumDerives : List String :=
  ["Debug", "Clone", "Copy", "PartialEq", "Eq", "Hash"]

def enumItems (t : LinkedType) (e : EnumBody) : Except RustFault (List RustItem) := do
  let name ← typeName t.name
  match intType? (v.workspace.primitives[e.underlying]?.getD default).kind with
  | none => .error .underlyingNotInteger
  | some repr =>
    if let some x := repeatedElement? [] e.elements then
      .error (.valueRepeated x.name x.value)
    let variants ← e.elements.mapM fun x => do
      return ({ docs := x.metadata.map annotation, name := ← typeName x.name, value := x.value } :
        RustVariant)
    if e.elements.isEmpty then return [.enum (typeDocs t) enumDerives none name variants]
    else return [.enum (typeDocs t) enumDerives (some repr) name variants, .valueAccessor name repr]

def enumNotes (t : LinkedType) : List Note :=
  if t.enum?.any fun e => e.elements.isEmpty then
    [⟨.warning, "enum has no elements and cannot carry a repr"⟩]
  else []

/-! ### Registries -/

def isConcreteEntity (t : LinkedType) : Bool :=
  t.kind = .entity && t.composite?.any fun c => !c.isAbstract

def concreteEntities (s : Schema) : List (TypeRef × LinkedType) :=
  (s.refs.zip s.types).filter fun e => isConcreteEntity e.2

/-- The schemas that a published schema imports, by key; an import of itself is left out. -/
def importKeys (w : Workspace) (key : SchemaKey) : List SchemaKey :=
  match w.schemas[key]? with
  | some s => (s.imports.map Prod.snd).filter (· ≠ key)
  | none => []

/-- Whether a schema or one that it reaches through imports has entities that are not abstract. -/
def hasRegistry (w : Workspace) (key : SchemaKey) : Bool :=
  (DepthFirst.reached (importKeys w) (List.range w.schemas.length) [key]).any fun k =>
    w.schemas[k]?.any fun s => s.types.any isConcreteEntity

def registryName (schema : String) : String :=
  schema ++ "Registry"

/-- Adds a field to those of a registry, which must not have one of its name. -/
def addField (done : List RustMember) (name : String) (type : Except RustFault RustType) :
    Except RustFault (List RustMember) := do
  if name ∈ done.map RustMember.name then .error (.registryFieldTaken name)
  return done ++ [{ name, type := ← type }]

/-- The map of an entity, from keys to values. -/
def addEntity (done : List RustMember) (e : TypeRef × LinkedType) :
    Except RustFault (List RustMember) := do
  addField done (← fieldName e.2.name) do
    return .hashMap (.path [keyAlias e.2.name]) (.path [← typeName e.2.name])

/-- The registry of an imported schema, under the alias. -/
def addImport (done : List RustMember) (i : String × Schema) :
    Except RustFault (List RustMember) := do
  addField done (← fieldName i.1) do
    return .path ["super", ← moduleName i.2.name, registryName i.2.name]

/-- The imports whose schemas have a registry. -/
def registryImports : List (String × Schema) :=
  v.imports.filter fun i => hasRegistry v.workspace i.2.key

def registryItems? : Except RustFault (Option (List RustItem)) := do
  let entities := concreteEntities v.schema
  let imports := registryImports v
  if entities.isEmpty ∧ imports.isEmpty then return none
  else
    let name ← typeName (registryName v.schema.name)
    let fields ← imports.foldlM addImport (← entities.foldlM addEntity [])
    let maps ← entities.mapM fun e => do
      let type ← typeName e.2.name
      return (← fieldName e.2.name, type)
    let docs := ["Repositories for the entities of schema `" ++ v.schema.name ++ "`"]
    let registry := RustItem.struct docs ["Default"] name fields
    return some (if maps.isEmpty then [registry] else [registry, .inserters name maps])

def registryNotes : List Note :=
  (concreteEntities v.schema).flatMap fun e =>
    if ((v.workspace.primaryKey? e.1).map KeyLayout.components).getD [] |>.any fun c =>
        c.kind.isFloating then
      [⟨.warning, s!"'{e.2.name}' is keyed by a floating point value"⟩]
    else []

/-! ### The backend -/

/-- What is made of the body that the kind of a type asks for. A name without an identifier is
reported before a body that is missing. -/
def ofBody {α : Type} (t : LinkedType) (missing : RustFault)
    (make : α → Except RustFault (List RustItem)) : Option α → Except RustFault (List RustItem)
  | some body => make body
  | none => do
    let _ ← typeName t.name
    .error missing

def typeItems (derives : List String) (r : TypeRef) (t : LinkedType) :
    Except RustFault (List RustItem) :=
  match t.kind with
  | .entity | .struct => ofBody t .noCompositeBody (compositeItems v derives r t) t.composite?
  | .interface => ofBody t .noInterfaceBody (interfaceItems v r t) t.composite?
  | .enum => ofBody t .noEnumBody (enumItems v t) t.enum?

def typeNotes (r : TypeRef) (t : LinkedType) : List Note :=
  match t.kind with
  | .entity | .struct => compositeNotes v r t
  | .interface => interfaceNotes v t
  | .enum => enumNotes t

def file (items : List RustItem) (notes : List Note) : Emitted where
  code := RustItem.renderFile v.schema.name items
  notes := notes

/-- The backend for Rust; generated structs derive the given traits. -/
def backend (derives : List String) : Backend where
  language := "rust"
  extension := "rs"
  emitType v r t :=
    match typeItems v derives r t with
    | .ok items => .ok (file v items (typeNotes v r t))
    | .error f => .error (v.failure t.name f.message)
  emitSchema v :=
    match registryItems? v with
    | .ok items => .ok (items.map fun is => file v is (registryNotes v))
    | .error f => .error (v.failure (registryName v.schema.name) f.message)

end SchemaGraph.RustSource
