import SchemaGraph.Settings
import SchemaGraph.Toml.Printer

/-!
Settings as configuration values. A record that is there but lacks a field takes the field's own
default, which for search directories is none at all; a record that is missing altogether takes its
default as a whole. Unknown fields do not count.
-/

namespace SchemaGraph

open Config (fieldOr)

/-! ### Reading -/

def SourceSettings.ofConfig? (v : Config) : Option SourceSettings := do
  let field ← v.record? ["dirs", "extension"]
  return {
    dirs := ← fieldOr [] Config.asTexts? (field "dirs")
    extension := ← fieldOr ({} : SourceSettings).extension Config.asText? (field "extension") }

/-- The keys of the built-in primitives, in their order. -/
def TypeSettings.primitiveKeys : List String :=
  PrimitiveKind.builtin.map PrimitiveKind.defaultName

def TypeSettings.primitivesOfConfig? (v : Config) : Option (List String) := do
  let field ← v.record? primitiveKeys
  primitiveKeys.mapM fun key => fieldOr key Config.asText? (field key)

def ContainerCatalog.ofConfig? (v : Config) : Option ContainerCatalog := do
  let field ← v.record? ["list", "set", "map", "optional"]
  let usual : ContainerCatalog := {}
  return {
    list := ← fieldOr usual.list Config.asText? (field "list")
    set := ← fieldOr usual.set Config.asText? (field "set")
    map := ← fieldOr usual.map Config.asText? (field "map")
    optional := ← fieldOr usual.optional Config.asText? (field "optional") }

/-- A primitive must have a name. -/
def CustomPrimitive.ofConfig? (v : Config) : Option CustomPrimitive := do
  let field ← v.record? ["name", "namespace", "can_be_key"]
  return {
    name := ← (field "name").bind Config.asText?
    «namespace» := ← fieldOr "" Config.asText? (field "namespace")
    canBeKey := ← fieldOr false Config.asBool? (field "can_be_key") }

def CustomPrimitive.listOfConfig? : Config → Option (List CustomPrimitive)
  | .list items => items.mapM ofConfig?
  | _ => none

def TypeSettings.ofConfig? (v : Config) : Option TypeSettings := do
  let field ← v.record? ["primitives", "containers", "default_enum_underlying", "custom"]
  let usual : TypeSettings := {}
  return {
    primitives := ← fieldOr usual.primitives primitivesOfConfig? (field "primitives")
    containers := ← fieldOr usual.containers ContainerCatalog.ofConfig? (field "containers")
    enumDefault := ←
      fieldOr none (Config.optionally Config.asText?) (field "default_enum_underlying")
    custom := ← fieldOr [] CustomPrimitive.listOfConfig? (field "custom") }

def OutputSettings.ofConfig? (v : Config) : Option OutputSettings := do
  let field ← v.record? ["dir", "require_empty", "emit_imported"]
  let usual : OutputSettings := {}
  return {
    dir := ← fieldOr usual.dir Config.asText? (field "dir")
    requireEmpty := ← fieldOr usual.requireEmpty Config.asBool? (field "require_empty")
    emitImported := ← fieldOr usual.emitImported Config.asBool? (field "emit_imported") }

def CodeSettings.ofConfig? (v : Config) : Option CodeSettings := do
  let field ← v.record? ["derives"]
  return { derives := ← fieldOr ({} : CodeSettings).derives Config.asTexts? (field "derives") }

def Settings.ofConfig? (v : Config) : Option Settings := do
  let field ← v.record? ["sources", "types", "output", "codegen"]
  return {
    sources := ← fieldOr {} SourceSettings.ofConfig? (field "sources")
    types := ← fieldOr {} TypeSettings.ofConfig? (field "types")
    output := ← fieldOr {} OutputSettings.ofConfig? (field "output")
    code := ← fieldOr {} CodeSettings.ofConfig? (field "codegen") }

/-! ### Writing -/

def SourceSettings.toConfig (s : SourceSettings) : Config :=
  .table [("dirs", .list (s.dirs.map .text)), ("extension", .text s.extension)]

def ContainerCatalog.toConfig (c : ContainerCatalog) : Config :=
  .table
    [("list", .text c.list), ("set", .text c.set), ("map", .text c.map),
      ("optional", .text c.optional)]

def CustomPrimitive.toConfig (p : CustomPrimitive) : Config :=
  .table
    [("name", .text p.name), ("namespace", .text p.namespace), ("can_be_key", .bool p.canBeKey)]

/-- The field of the enum default, if it is set. -/
def TypeSettings.enumDefaultField (s : TypeSettings) : List (String × Config) :=
  match s.enumDefault with
  | some name => [("default_enum_underlying", .text name)]
  | none => []

def TypeSettings.toConfig (s : TypeSettings) : Config :=
  .table
    ([("primitives", .table (primitiveKeys.zip (s.primitives.map .text))),
      ("containers", s.containers.toConfig)] ++
      s.enumDefaultField ++ [("custom", .list (s.custom.map CustomPrimitive.toConfig))])

def OutputSettings.toConfig (s : OutputSettings) : Config :=
  .table
    [("dir", .text s.dir), ("require_empty", .bool s.requireEmpty),
      ("emit_imported", .bool s.emitImported)]

def CodeSettings.toConfig (s : CodeSettings) : Config :=
  .table [("derives", .list (s.derives.map .text))]

def Settings.toFields (s : Settings) : List (String × Config) :=
  [("sources", s.sources.toConfig), ("types", s.types.toConfig), ("output", s.output.toConfig),
    ("codegen", s.code.toConfig)]

def Settings.text (s : Settings) : String :=
  Toml.documentText s.toFields

end SchemaGraph
