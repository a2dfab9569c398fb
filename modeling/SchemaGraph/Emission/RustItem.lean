import SchemaGraph.Emission.RustNames

/-!
Rust items as terms, and their text. Only the documentation of an item holds annotations; all else
is made of identifiers, paths and types.
-/

namespace SchemaGraph

abbrev RustPath := List String

def RustPath.render (p : RustPath) : String :=
  String.intercalate "::" p

inductive RustType where
  | path (path : RustPath)
  | boxed (value : RustType)
  | vec (value : RustType)
  | option (value : RustType)
  | hashSet (value : RustType)
  | hashMap (key value : RustType)
  deriving DecidableEq, Inhabited

namespace RustType

def render : RustType → String
  | .path p => p.render
  | .boxed t => "Box<" ++ t.render ++ ">"
  | .vec t => "Vec<" ++ t.render ++ ">"
  | .option t => "Option<" ++ t.render ++ ">"
  | .hashSet t => "std::collections::HashSet<" ++ t.render ++ ">"
  | .hashMap k t => "std::collections::HashMap<" ++ k.render ++ ", " ++ t.render ++ ">"

def unboxed : RustType → RustType
  | .path p => .path p
  | .boxed t => t.unboxed
  | .vec t => .vec t.unboxed
  | .option t => .option t.unboxed
  | .hashSet t => .hashSet t.unboxed
  | .hashMap k t => .hashMap k.unboxed t.unboxed

end RustType

/-- A field of a struct, or a getter of a trait. -/
structure RustMember where
  docs : List String := []
  name : String
  type : RustType
  deriving DecidableEq, Inhabited

structure RustVariant where
  docs : List String := []
  name : String
  value : Int
  deriving DecidableEq, Inhabited

inductive RustItem where
  | struct (docs derives : List String) (name : String) (fields : List RustMember)
  /-- A name for a tuple of types. -/
  | tupleAlias (docs : List String) (name : String) (types : List RustType)
  /-- A method `key` that gives a tuple of fields. -/
  | keyAccessor (type keyType : String) (fields : List String)
  | trait (docs : List String) (name : String) (supertraits : List RustPath)
      (getters : List RustMember)
  /-- A trait whose getters give the fields of the same names. -/
  | traitImpl (implemented : RustPath) (type : String) (getters : List RustMember)
  | enum (docs derives : List String) (repr : Option String) (name : String)
      (variants : List RustVariant)
  /-- A method `value` that gives the discriminant. -/
  | valueAccessor (type repr : String)
  /-- A method for each map of a registry, given by its field and the type of its values. -/
  | inserters (type : String) (maps : List (String × String))
  deriving DecidableEq, Inhabited

namespace RustItem

def docLine (indent line : String) : String :=
  if line = "" then indent ++ "///\n" else indent ++ "/// " ++ line ++ "\n"

def docLines (indent : String) (docs : List String) : String :=
  String.join (docs.map (docLine indent))

def deriveLine (derives : List String) : String :=
  if derives = [] then "" else "#[derive(" ++ String.intercalate ", " derives ++ ")]\n"

/-- A tuple of one has a comma too. -/
def tuple : List String → String
  | [item] => "(" ++ item ++ ",)"
  | items => "(" ++ String.intercalate ", " items ++ ")"

def block (indent head body : String) : String :=
  indent ++ head ++ " \x7b\n" ++ body ++ indent ++ "\x7d\n"

def inner : String := "    "

def innermost : String := "        "

def fieldText (f : RustMember) : String :=
  docLines inner f.docs ++ inner ++ "pub " ++ f.name ++ ": " ++ f.type.render ++ ",\n"

def signature (g : RustMember) : String :=
  "fn " ++ g.name ++ "(&self) -> &" ++ g.type.render

def getterText (g : RustMember) : String :=
  docLines inner g.docs ++ inner ++ signature g ++ ";\n"

def getterImpl (g : RustMember) : String :=
  block inner (signature g) (innermost ++ "&self." ++ g.name ++ "\n")

def variantText (v : RustVariant) : String :=
  docLines inner v.docs ++ inner ++ v.name ++ " = " ++ toString v.value ++ ",\n"

def inserterName (field : String) : String :=
  "insert_" ++ RustNames.withoutRawMark field

def inserterHead (map : String × String) : String :=
  "pub fn " ++ inserterName map.1 ++ "(&mut self, value: " ++ map.2 ++
    ") -> Option<" ++ map.2 ++ ">"

def inserterText (map : String × String) : String :=
  block inner (inserterHead map)
    (innermost ++ "self." ++ map.1 ++ ".insert(value.key(), value)\n")

def supertraitList (ps : List RustPath) : String :=
  if ps = [] then "" else ": " ++ String.intercalate " + " (ps.map RustPath.render)

def render : RustItem → String
  | .struct docs derives name fields =>
    docLines "" docs ++ deriveLine derives ++
      block "" ("pub struct " ++ name) (String.join (fields.map fieldText))
  | .tupleAlias docs name types =>
    docLines "" docs ++ "pub type " ++ name ++ " = " ++ tuple (types.map RustType.render) ++ ";\n"
  | .keyAccessor type keyType fields =>
    block "" ("impl " ++ type)
      (block inner ("pub fn key(&self) -> " ++ keyType)
        (innermost ++ tuple (fields.map fun f => "self." ++ f ++ ".clone()") ++ "\n"))
  | .trait docs name supertraits getters =>
    docLines "" docs ++
      block "" ("pub trait " ++ name ++ supertraitList supertraits)
        (String.join (getters.map getterText))
  | .traitImpl implemented type getters =>
    block "" ("impl " ++ implemented.render ++ " for " ++ type)
      (String.join (getters.map getterImpl))
  | .enum docs derives repr name variants =>
    docLines "" docs ++ deriveLine derives ++
      (match repr with
        | some r => "#[repr(" ++ r ++ ")]\n"
        | none => "") ++
      block "" ("pub enum " ++ name) (String.join (variants.map variantText))
  | .valueAccessor type repr =>
    block "" ("impl " ++ type)
      (block inner ("pub const fn value(self) -> " ++ repr)
        (innermost ++ "self as " ++ repr ++ "\n"))
  | .inserters type maps =>
    block "" ("impl " ++ type) (String.intercalate "\n" (maps.map inserterText))

/-- A source file: a remark on where it comes from, then the items with blank lines between them. -/
def renderFile (schema : String) (items : List RustItem) : String :=
  "// Generated by schemac from schema `" ++ schema ++ "`. Do not edit.\n\n" ++
    String.intercalate "\n" (items.map render)

end RustItem

end SchemaGraph
