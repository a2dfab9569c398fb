import SchemaGraph.Declaration
import SchemaGraph.Json

/-!
Declarations as JSON. Every field is written; an absent one is `null`.
-/

namespace SchemaGraph.Declaration

open Json (text list record bool)

def optionalText : Option String → Json
  | none => .null
  | some s => .text s

def encodeMetadata (m : Metadata) : Json :=
  .list (m.map fun entry => .record [("key", .text entry.1), ("value", .text entry.2)])

def Import.encode (i : Import) : Json :=
  .record [("source", .text i.source), ("alias", optionalText i.localName)]

def Property.encode (p : Property) : Json :=
  .record
    [("name", optionalText p.name), ("type", optionalText p.typeText),
      ("role", .text p.role.name), ("key", optionalText p.key), ("value", optionalText p.value),
      ("default", optionalText p.default), ("metadata", encodeMetadata p.metadata)]

def encodeTexts (ss : List String) : Json :=
  .list (ss.map .text)

def Composite.fields (c : Composite) : List (String × Json) :=
  [("name", optionalText c.name), ("namespace", optionalText c.namespace),
    ("extends", optionalText c.base), ("implements", encodeTexts c.interfaces),
    ("abstract", .bool c.isAbstract), ("properties", .list (c.properties.map Property.encode)),
    ("metadata", encodeMetadata c.metadata)]

def Interface.fields (i : Interface) : List (String × Json) :=
  [("name", optionalText i.name), ("namespace", optionalText i.namespace),
    ("extends", encodeTexts i.parents), ("properties", .list (i.properties.map Property.encode)),
    ("metadata", encodeMetadata i.metadata)]

def EnumValue.encode : EnumValue → Json
  | .signed v => .number (.int v)
  | .unsigned v => .number (.int v)
  | .text s => .text s

def Element.encode (e : Element) : Json :=
  .record
    [("name", optionalText e.name),
      ("value", match e.value with
        | none => .null
        | some v => v.encode),
      ("metadata", encodeMetadata e.metadata)]

def Enum.fields (e : Enum) : List (String × Json) :=
  [("name", optionalText e.name), ("namespace", optionalText e.namespace),
    ("underlying", optionalText e.underlying), ("elements", .list (e.elements.map Element.encode)),
    ("metadata", encodeMetadata e.metadata)]

/-- The kind stands beside the fields of the type. -/
def TypeDecl.encode (t : TypeDecl) : Json :=
  let fields := match t with
    | .entity d | .struct d => d.fields
    | .interface d => d.fields
    | .enum d => d.fields
  .record (("kind", .text t.kindName) :: fields)

def encode (d : Declaration) : Json :=
  .record
    [("name", optionalText d.name), ("namespace", optionalText d.namespace),
      ("imports", .list (d.imports.map Import.encode)), ("metadata", encodeMetadata d.metadata),
      ("types", .list (d.types.map TypeDecl.encode))]

end SchemaGraph.Declaration
