import SchemaGraph.Emission.RustFault

/-!
Schema names as Rust identifiers. Types keep their spelling, fields and modules are in snake case,
and a keyword becomes a raw identifier if it can.
-/

namespace SchemaGraph.RustNames

/-- Whether an upper-case letter between these two characters begins a word. -/
def beginsWord (before after : Option Char) : Bool :=
  match before with
  | none => false
  | some p => p.isLower || p.isDigit || (p.isUpper && after.any Char.isLower)

/-- Snake case of the characters after `before`. -/
def snakeFrom (before : Option Char) : List Char → List Char
  | [] => []
  | c :: cs =>
    if c.isUpper then
      if beginsWord before cs.head? then '_' :: c.toLower :: snakeFrom (some c) cs
      else c.toLower :: snakeFrom (some c) cs
    else c :: snakeFrom (some c) cs

/-- A name in lower case with an underscore before each word; runs of upper-case letters stay
together. -/
def snakeCase (name : String) : String :=
  String.ofList (snakeFrom none name.toList)

/-- Words that need the raw form to be identifiers. -/
def keywords : List String :=
  ["as", "async", "await", "break", "const", "continue", "dyn", "else", "enum", "extern", "false",
    "fn", "for", "if", "impl", "in", "let", "loop", "match", "mod", "move", "mut", "pub", "ref",
    "return", "static", "struct", "trait", "true", "type", "unsafe", "use", "where", "while",
    "abstract", "become", "box", "do", "final", "gen", "macro", "override", "priv", "try", "typeof",
    "unsized", "virtual", "yield"]

/-- Words that no identifier can be spelled like. -/
def forbidden : List String :=
  ["Self", "self", "super", "crate", "_"]

def rawMark : String := "r#"

def identifier (name : String) : Except RustFault String :=
  if name ∈ forbidden then .error (.inexpressible name)
  else if name ∈ keywords then .ok (rawMark ++ name)
  else .ok name

def typeName (name : String) : Except RustFault String :=
  identifier name

def fieldName (name : String) : Except RustFault String :=
  identifier (snakeCase name)

def moduleName (schema : String) : Except RustFault String :=
  identifier (snakeCase schema)

def withoutRawMark (id : String) : String :=
  match id.toList with
  | 'r' :: '#' :: rest => String.ofList rest
  | _ => id

end SchemaGraph.RustNames
