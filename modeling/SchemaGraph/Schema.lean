import SchemaGraph.Binding
import SchemaGraph.Declaration
import SchemaGraph.Key
import SchemaGraph.TypeExpr

/-!
Schemas in their three states. A `Draft` has its references as bindings; a `Linked` unit has every
reference resolved; a `Schema` has the facts derived from its hierarchy as well and is what gets
published. The three share one shape and differ in what stands for a base (`β`), a list of
interfaces (`ι`) and the type of a property (`τ`).
-/

namespace SchemaGraph

structure Property (τ : Type) where
  name : String
  role : PropertyRole
  type : τ
  default : Option String
  metadata : Metadata

/-- What entities, structs and interfaces have in common. -/
structure Composite (β ι τ : Type) where
  isAbstract : Bool
  base : β
  /-- The interfaces that a type implements or, itself an interface, extends. -/
  interfaces : ι
  /-- The properties that the type declares itself. -/
  properties : List (Property τ)

structure EnumElement where
  name : String
  value : Int
  metadata : Metadata
  deriving DecidableEq, Inhabited

structure EnumBody where
  underlying : PrimitiveId
  elements : List EnumElement
  deriving DecidableEq, Inhabited

inductive TypeBody (β ι τ : Type) where
  | composite (body : Composite β ι τ)
  | enum (body : EnumBody)

structure UserType (β ι τ : Type) where
  name : String
  «namespace» : String
  /-- What the type was declared as. Nothing here ties the body to it. -/
  kind : TypeKind
  body : TypeBody β ι τ
  metadata : Metadata

namespace UserType

variable {β ι τ : Type}

def composite? (t : UserType β ι τ) : Option (Composite β ι τ) :=
  match t.body with
  | .composite c => some c
  | .enum _ => none

def enum? (t : UserType β ι τ) : Option EnumBody :=
  match t.body with
  | .composite _ => none
  | .enum e => some e

def properties (t : UserType β ι τ) : List (Property τ) :=
  (t.composite?.map Composite.properties).getD []

/-- The name with its namespace in front, if it has one. -/
def fullName (t : UserType β ι τ) : String :=
  if t.namespace.isEmpty then t.name else t.namespace ++ "." ++ t.name

end UserType

structure SchemaOf (β ι τ : Type) where
  key : SchemaKey
  source : SourceId
  name : String
  «namespace» : String
  /-- Aliases and the schemas they stand for, in declaration order. -/
  imports : List (String × SchemaKey)
  types : List (UserType β ι τ)
  metadata : Metadata

namespace SchemaOf

variable {β ι τ : Type}

def typeIndex? (s : SchemaOf β ι τ) (name : String) : Option Nat :=
  s.types.findIdx? fun t => t.name = name

def import? (s : SchemaOf β ι τ) (name : String) : Option SchemaKey :=
  (s.imports.find? fun i => i.1 = name).map Prod.snd

/-- The handles of the types, in declaration order. -/
def refs (s : SchemaOf β ι τ) : List TypeRef :=
  (List.range s.types.length).map fun i => ⟨s.key, i⟩

def typeNames (s : SchemaOf β ι τ) : List String :=
  s.types.map UserType.name

end SchemaOf

/-! ### Drafts -/

abbrev BaseBinding := Binding (Option TypePath) (Option TypeRef)

abbrev InterfacesBinding := Binding (List TypePath) (List TypeRef)

abbrev TypeBinding := Binding TypeExpr DataType

abbrev DraftType := UserType BaseBinding InterfacesBinding TypeBinding

/-- A declared schema whose references wait to be resolved. -/
abbrev Draft := SchemaOf BaseBinding InterfacesBinding TypeBinding

/-- One for a binding that is pending. -/
def Binding.pendingCount {R T : Type} (b : Binding R T) : Nat :=
  if b.isResolved then 0 else 1

def DraftType.pendingCount (t : DraftType) : Nat :=
  match t.composite? with
  | none => 0
  | some c =>
    c.base.pendingCount + c.interfaces.pendingCount +
      c.properties.foldr (fun p n => p.type.pendingCount + n) 0

/-- How many references are still pending. -/
def Draft.pendingCount (d : Draft) : Nat :=
  d.types.foldr (fun t n => DraftType.pendingCount t + n) 0

/-! ### Linked units -/

abbrev LinkedProperty := Property DataType

abbrev LinkedComposite := Composite (Option TypeRef) (List TypeRef) DataType

abbrev LinkedType := UserType (Option TypeRef) (List TypeRef) DataType

/-- A schema whose references are all resolved. -/
abbrev Linked := SchemaOf (Option TypeRef) (List TypeRef) DataType

/-- Reads the resolved type of a property. -/
def Property.link (p : Property TypeBinding) : Except ReadTooEarly LinkedProperty := do
  return { name := p.name, role := p.role, type := ← p.type.get, default := p.default,
           metadata := p.metadata }

def Composite.link (c : Composite BaseBinding InterfacesBinding TypeBinding) :
    Except ReadTooEarly LinkedComposite := do
  return { isAbstract := c.isAbstract, base := ← c.base.get, interfaces := ← c.interfaces.get,
           properties := ← c.properties.mapM Property.link }

def TypeBody.link : TypeBody BaseBinding InterfacesBinding TypeBinding →
    Except ReadTooEarly (TypeBody (Option TypeRef) (List TypeRef) DataType)
  | .composite c => .composite <$> c.link
  | .enum e => .ok (.enum e)

def DraftType.link (t : DraftType) : Except ReadTooEarly LinkedType := do
  return { name := t.name, «namespace» := t.namespace, kind := t.kind, body := ← t.body.link,
           metadata := t.metadata }

/-- Reads every binding of a draft; each must have been resolved. -/
def Draft.link (d : Draft) : Except ReadTooEarly Linked := do
  return { key := d.key, source := d.source, name := d.name, «namespace» := d.namespace,
           imports := d.imports, types := ← d.types.mapM DraftType.link, metadata := d.metadata }

/-! ### Published schemas -/

/-- What the hierarchy says about one type. -/
structure Derived where
  /-- Inherited and own properties of a composite type, supertypes first. -/
  effective : List PropertyRef := []
  /-- The entity whose key this entity has: its last base, or itself. -/
  keyOwner : Option TypeRef := none
  /-- The key of an entity without a base. -/
  keyLayout : Option KeyLayout := none
  deriving DecidableEq, Inhabited

structure Schema extends SchemaOf (Option TypeRef) (List TypeRef) DataType where
  /-- One entry for each type, in declaration order. -/
  derived : List Derived

namespace Schema

def derivedOf (s : Schema) (index : Nat) : Derived :=
  (s.derived[index]?).getD {}

end Schema

end SchemaGraph
