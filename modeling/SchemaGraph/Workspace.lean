import SchemaGraph.Error
import SchemaGraph.SchemaIndex
import SchemaGraph.TypeLookup

/-!
The workspace: primitives, container names and the published schemas. Schemas are added at the end
and withdrawn from there, and a schema's key is its position. Two indices lead from sources and from
names to keys.
-/

namespace SchemaGraph

structure Workspace where
  primitives : PrimitiveTable
  containers : ContainerCatalog := {}
  /-- The underlying type of enums that name none. -/
  enumDefault : Option PrimitiveId := none
  schemas : List Schema := []
  /-- The keys of the published schemas by their sources. -/
  sources : SchemaIndex := []
  /-- The keys of the published schemas by their names. -/
  names : SchemaIndex := []

namespace Workspace

/-- Names that no declaration may introduce. -/
def reserved (w : Workspace) : List String :=
  voidName :: w.primitives.names ++ w.containers.names

def isReserved (w : Workspace) (name : String) : Bool :=
  w.reserved.contains name

def nextKey (w : Workspace) : SchemaKey :=
  w.schemas.length

def bySource? (w : Workspace) (source : SourceId) : Option Schema :=
  (w.sources.key? source).bind fun key => w.schemas[key]?

def byName? (w : Workspace) (name : String) : Option Schema :=
  (w.names.key? name).bind fun key => w.schemas[key]?

/-- Adds a schema at the end and enters it under its source and its name. -/
def publish (w : Workspace) (s : Schema) : Workspace :=
  { w with
    schemas := w.schemas ++ [s]
    sources := w.sources.insert s.source w.nextKey
    names := w.names.insert s.name w.nextKey }

/-- Publishes a schema, if its source and its name are new. -/
def register (w : Workspace) (s : Schema) : Except CompileError Workspace :=
  if (w.sources.key? s.source).isSome then .error (.duplicateSchemaSource s.source)
  else
    match w.names.key? s.name with
    | some key =>
      let first := (w.schemas[key]?.map fun s => s.source).getD ""
      .error (.duplicateSchemaName s.name first s.source)
    | none => .ok (w.publish s)

theorem register_eq_ok {w w' : Workspace} {s : Schema} :
    w.register s = .ok w' ↔
      w.sources.key? s.source = none ∧ w.names.key? s.name = none ∧ w' = w.publish s := by
  rw [register]
  cases hsource : w.sources.key? s.source with
  | some key => simp
  | none =>
      cases hname : w.names.key? s.name with
      | some key => simp
      | none => simp [eq_comm]

/-- Takes the entries of a schema out of the indices. -/
def forget (w : Workspace) (s : Schema) : Workspace :=
  { w with sources := w.sources.remove s.source, names := w.names.remove s.name }

/-- Withdraws every schema but the first `count`. -/
def truncate (w : Workspace) (count : Nat) : Workspace :=
  (w.schemas.drop count).foldl forget { w with schemas := w.schemas.take count }

def type? (w : Workspace) (r : TypeRef) : Option LinkedType :=
  w.schemas[r.schema]?.bind fun s => s.types[r.index]?

def property? (w : Workspace) : PropertyRef → Option LinkedProperty :=
  TypeLookup.property? w.type?

/-- The derived facts of a type; none for a handle outside the workspace. -/
def derivedOf (w : Workspace) (r : TypeRef) : Derived :=
  ((w.schemas[r.schema]?).map fun s => s.derivedOf r.index).getD {}

/-- The inherited and own properties of a type. -/
def effectiveProperties (w : Workspace) (r : TypeRef) : List LinkedProperty :=
  (w.derivedOf r).effective.filterMap w.property?

/-- The key of an entity, found at the entity that owns it. -/
def primaryKey? (w : Workspace) (r : TypeRef) : Option KeyLayout := do
  let owner ← (w.derivedOf r).keyOwner
  (w.derivedOf owner).keyLayout

def refs (w : Workspace) : List TypeRef :=
  w.schemas.flatMap fun s => s.refs

end Workspace

/-! ### Type names -/

/-- A resolved type in compact notation. -/
def DataType.render (primitives : PrimitiveTable) (containers : ContainerCatalog)
    (typeName : TypeRef → String) : DataType → String
  | .primitive id => primitives.nameOf id
  | .generic shape => containers.name shape
  | .container shape key value =>
    let v := value.render primitives containers typeName
    match shape with
    | .list => v ++ "[]"
    | .set => v ++ "\x7b\x7d"
    | .optional => v ++ "?"
    | .map => (key.map primitives.nameOf).getD "" ++ "->" ++ v
  | .void => voidName
  | .entity r | .struct r | .interface r | .enum r => typeName r

/-- A type in compact notation, user-defined ones by their own name. -/
def Workspace.typeName (w : Workspace) (d : DataType) : String :=
  d.render w.primitives w.containers (TypeLookup.typeName w.type?)

end SchemaGraph
