import SchemaGraph.Container
import SchemaGraph.Primitive

/-!
Settings of the program: where sources are, what types are called, where output goes and what the
generated code derives.
-/

namespace SchemaGraph

structure SourceSettings where
  /-- Search directories; the first that has a source wins. -/
  dirs : List String := ["."]
  /-- What follows the source id in a file name, after a dot. -/
  extension : String := "schema.json"
  deriving DecidableEq, Inhabited

structure CustomPrimitive where
  name : String
  «namespace» : String := ""
  canBeKey : Bool := false
  deriving DecidableEq, Inhabited

structure TypeSettings where
  /-- The name of each built-in primitive, in the order of `PrimitiveKind.builtin`. -/
  primitives : List String := PrimitiveKind.builtin.map PrimitiveKind.defaultName
  containers : ContainerCatalog := {}
  /-- The underlying type of enums that name none; 32-bit integers if unset. -/
  enumDefault : Option String := none
  custom : List CustomPrimitive := []
  deriving DecidableEq, Inhabited

structure OutputSettings where
  dir : String := "generated"
  /-- Whether an existing output directory is refused rather than emptied. -/
  requireEmpty : Bool := false
  /-- Whether code is written for imported units as well as for roots. -/
  emitImported : Bool := true
  deriving DecidableEq, Inhabited

structure CodeSettings where
  /-- Traits that generated structs derive. -/
  derives : List String := ["Debug", "Clone", "PartialEq"]
  deriving DecidableEq, Inhabited

structure Settings where
  sources : SourceSettings := {}
  types : TypeSettings := {}
  output : OutputSettings := {}
  code : CodeSettings := {}
  deriving DecidableEq, Inhabited

end SchemaGraph
