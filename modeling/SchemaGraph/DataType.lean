import SchemaGraph.Container
import SchemaGraph.Primitive

/-!
Resolved types. A user-defined type is named by a handle: the position of its schema in the
workspace and its own position in that schema.
-/

namespace SchemaGraph

/-- The position of a schema among the published ones. -/
abbrev SchemaKey := Nat

structure TypeRef where
  schema : SchemaKey
  index : Nat
  deriving DecidableEq, Inhabited

/-- A property that a type declares itself. -/
structure PropertyRef where
  owner : TypeRef
  index : Nat
  deriving DecidableEq, Inhabited

inductive DataType where
  | primitive (id : PrimitiveId)
  /-- A container shape without its parts. -/
  | generic (shape : Shape)
  | container (shape : Shape) (key : Option PrimitiveId) (value : DataType)
  | void
  | entity (type : TypeRef)
  | struct (type : TypeRef)
  | interface (type : TypeRef)
  | enum (type : TypeRef)
  deriving DecidableEq, Inhabited

inductive TypeKind where
  | entity
  | struct
  | interface
  | enum
  deriving DecidableEq, Inhabited

namespace TypeKind

def name : TypeKind → String
  | entity => "entity"
  | struct => "struct"
  | interface => "interface"
  | enum => "enum"

/-- The kind with its article, for messages. -/
def phrase : TypeKind → String
  | entity => "an entity"
  | struct => "a struct"
  | interface => "an interface"
  | enum => "an enum"

/-- The type that a handle to a type of this kind stands for. -/
def dataType (k : TypeKind) (r : TypeRef) : DataType :=
  match k with
  | entity => .entity r
  | struct => .struct r
  | interface => .interface r
  | enum => .enum r

end TypeKind

namespace DataType

/-- What a type is, for messages. -/
def phrase : DataType → String
  | primitive _ => "a primitive"
  | generic _ => "a generic container"
  | container .. => "a container"
  | void => "void"
  | entity _ => TypeKind.entity.phrase
  | struct _ => TypeKind.struct.phrase
  | interface _ => TypeKind.interface.phrase
  | enum _ => TypeKind.enum.phrase

def userType? : DataType → Option TypeRef
  | entity r | struct r | interface r | enum r => some r
  | _ => none

def isEntity : DataType → Bool
  | entity _ => true
  | _ => false

/-- The container of a shape; only a map keeps the key. -/
def instantiate (shape : Shape) (key : Option PrimitiveId) (value : DataType) : DataType :=
  .container shape (if shape.hasKey then key else none) value

end DataType

def voidName : String := "void"

end SchemaGraph
