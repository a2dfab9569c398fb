import SchemaGraph.Text.Pieces

/-!
Identifiers and namespaces of the schema language. Both are made of ASCII characters only.
-/

namespace SchemaGraph.Text

def isIdentifierStart (c : Char) : Bool :=
  c.isAlpha || c == '_'

def isIdentifierPart (c : Char) : Bool :=
  c.isAlphanum || c == '_'

/-- A letter or underscore, then letters, digits and underscores. -/
def isIdentifierChars : List Char → Bool
  | [] => false
  | c :: cs => isIdentifierStart c && cs.all isIdentifierPart

def isIdentifier (text : String) : Bool :=
  isIdentifierChars text.toList

def segments (text : String) : List String :=
  (pieces '.' text.toList).map String.ofList

/-- Identifiers with dots between them, or nothing at all. -/
def isNamespace (text : String) : Bool :=
  text.isEmpty || (pieces '.' text.toList).all isIdentifierChars

end SchemaGraph.Text
