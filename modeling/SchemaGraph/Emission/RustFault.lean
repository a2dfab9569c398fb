/-!
Why a type or schema has no Rust source.
-/

namespace SchemaGraph

inductive RustFault where
  /-- No Rust identifier is spelled like this, not even a raw one. -/
  | inexpressible (name : String)
  | fieldTaken (property field : String)
  | registryFieldTaken (field : String)
  /-- A value of an interface type has no size of its own. -/
  | interfaceTyped (property interface : String)
  | valueRepeated (element : String) (value : Int)
  | underlyingNotInteger
  | noPrimaryKey (entity : String)
  | mapWithoutKey (property : String)
  | unsupportedType (property type : String)
  /-- The body of the type is not of its kind. -/
  | noCompositeBody
  | noInterfaceBody
  | noEnumBody
  deriving DecidableEq, Inhabited

def RustFault.message : RustFault → String
  | inexpressible name => s!"'{name}' cannot be used as a Rust identifier"
  | fieldTaken property field =>
    s!"property '{property}' maps to field '{field}', which is already taken"
  | registryFieldTaken field => s!"registry field '{field}' is declared twice"
  | interfaceTyped property interface =>
    s!"property '{property}' is typed by interface '{interface}', " ++
      "which has no concrete Rust representation"
  | valueRepeated element value =>
    s!"element '{element}' repeats value {value}; Rust discriminants must be distinct"
  | underlyingNotInteger => "enum underlying type is not an integer"
  | noPrimaryKey entity => s!"entity '{entity}' has no primary key"
  | mapWithoutKey property => s!"map '{property}' has no key type"
  | unsupportedType property type => s!"property '{property}' has unsupported type '{type}'"
  | noCompositeBody => "composite type without a composite body"
  | noInterfaceBody => "interface without a composite body"
  | noEnumBody => "enum without an enum body"

end SchemaGraph
