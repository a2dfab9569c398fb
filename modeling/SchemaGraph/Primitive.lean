/-!
Scalar types. A table holds the primitives under distinct names; a primitive is known by its
position.
-/

namespace SchemaGraph

inductive PrimitiveKind where
  | uint8
  | uint16
  | uint32
  | uint64
  | int8
  | int16
  | int32
  | int64
  | float
  | double
  | bool
  | string
  /-- A scalar that the configuration adds; its representation is opaque. -/
  | custom
  deriving DecidableEq, Inhabited

namespace PrimitiveKind

/-- The kinds that every workspace has, in the order of their registration. -/
def builtin : List PrimitiveKind :=
  [uint8, uint16, uint32, uint64, int8, int16, int32, int64, float, double, bool, string]

/-- The name of a kind unless the configuration gives another. -/
def defaultName : PrimitiveKind → String
  | uint8 => "uint8"
  | uint16 => "uint16"
  | uint32 => "uint32"
  | uint64 => "uint64"
  | int8 => "int8"
  | int16 => "int16"
  | int32 => "int32"
  | int64 => "int64"
  | float => "float"
  | double => "double"
  | bool => "bool"
  | string => "string"
  | custom => "custom"

def range? : PrimitiveKind → Option (Int × Int)
  | uint8 => some (0, 255)
  | uint16 => some (0, 65535)
  | uint32 => some (0, 4294967295)
  | uint64 => some (0, 18446744073709551615)
  | int8 => some (-128, 127)
  | int16 => some (-32768, 32767)
  | int32 => some (-2147483648, 2147483647)
  | int64 => some (-9223372036854775808, 9223372036854775807)
  | _ => none

def isInteger (k : PrimitiveKind) : Bool :=
  k.range?.isSome

def isFloating (k : PrimitiveKind) : Bool :=
  k = float || k = double

end PrimitiveKind

structure Primitive where
  name : String
  «namespace» : String
  kind : PrimitiveKind
  /-- Whether keys of entities and maps may have this type. -/
  canBeKey : Bool
  deriving DecidableEq, Inhabited

namespace Primitive

def builtin (name : String) (kind : PrimitiveKind) : Primitive :=
  { name, «namespace» := "", kind, canBeKey := true }

def custom (name ns : String) (canBeKey : Bool) : Primitive :=
  { name, «namespace» := ns, kind := .custom, canBeKey }

end Primitive

/-- The position of a primitive in its table. -/
abbrev PrimitiveId := Nat

abbrev PrimitiveTable := List Primitive

namespace PrimitiveTable

def names (t : PrimitiveTable) : List String :=
  t.map Primitive.name

def lookup? (t : PrimitiveTable) (name : String) : Option PrimitiveId :=
  t.findIdx? fun p => p.name = name

def ofKind? (t : PrimitiveTable) (kind : PrimitiveKind) : Option PrimitiveId :=
  t.findIdx? fun p => p.kind = kind

/-- Adds a primitive at the end, unless its name is taken. -/
def register? (t : PrimitiveTable) (p : Primitive) : Option PrimitiveTable :=
  if (t.lookup? p.name).isSome then none else some (t ++ [p])

def builtins : PrimitiveTable :=
  PrimitiveKind.builtin.map fun k => .builtin k.defaultName k

/-- The name of a primitive, or nothing for a position outside the table. -/
def nameOf (t : PrimitiveTable) (id : PrimitiveId) : String :=
  (t[id]?.map Primitive.name).getD ""

end PrimitiveTable

end SchemaGraph
