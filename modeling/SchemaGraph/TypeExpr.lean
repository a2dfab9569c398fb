import SchemaGraph.Container
import SchemaGraph.Text.Blank
import SchemaGraph.Text.Identifier

/-!
Type expressions as authors write them: a path, or a container of paths, in compact notation
(`T[]`, `T{}`, `K->V`, `T?`) or as the name of a container with its key and value given apart.
-/

namespace SchemaGraph

/-- `Name` or `Alias.Name`. -/
structure TypePath where
  /-- The alias of an import. -/
  qualifier : Option String := none
  name : String
  deriving DecidableEq, Inhabited

inductive TypeExpr where
  | named (path : TypePath)
  | container (shape : Shape) (key : Option TypePath) (value : TypePath)
  deriving DecidableEq, Inhabited

inductive TypeExpr.Problem where
  | empty
  | nested
  | notAName (text : String)
  /-- A key or value was given for a type that is not the name of a container. -/
  | strayAttributes
  | manyArrows
  | missingValue
  | missingKey
  /-- A key was given for a container other than a map. -/
  | strayKey
  deriving DecidableEq, Inhabited

def TypeExpr.Problem.message : TypeExpr.Problem → String
  | empty => "type is empty"
  | nested => "nested containers are not supported"
  | notAName text => "'" ++ text ++ "' is not a type name"
  | strayAttributes => "key/value attributes are only valid with a container type"
  | manyArrows => "map notation takes exactly one '->'"
  | missingValue => "container is missing its value type"
  | missingKey => "map is missing its key type"
  | strayKey => "only maps take a key type"

open Text

def arrowPieces (s : List Char) : List (List Char) :=
  piecesAtPair '-' '>' s

namespace TypePath

def render (p : TypePath) : String :=
  match p.qualifier with
  | some a => a ++ "." ++ p.name
  | none => p.name

/-- Whether a text that is no path has a container mark in it. -/
def looksNested (s : List Char) : Bool :=
  match s.reverse with
  | ']' :: '[' :: _ | '\x7d' :: '\x7b' :: _ | '?' :: _ => true
  | _ => 1 < (arrowPieces s).length

/-- One or two identifiers with a dot between them, with white space around them. -/
def parseChars (s : List Char) : Except TypeExpr.Problem TypePath :=
  let s := trimChars s
  let refuse : Except TypeExpr.Problem TypePath :=
    .error (if looksNested s then .nested else .notAName (String.ofList s))
  match pieces '.' s with
  | [n] => if isIdentifierChars n then .ok ⟨none, String.ofList n⟩ else refuse
  | [a, n] =>
    if isIdentifierChars a ∧ isIdentifierChars n then
      .ok ⟨some (String.ofList a), String.ofList n⟩
    else refuse
  | _ => refuse

def parse (text : String) : Except TypeExpr.Problem TypePath :=
  parseChars text.toList

end TypePath

namespace TypeExpr

def render : TypeExpr → String
  | .named p => p.render
  | .container .list _ v => v.render ++ "[]"
  | .container .set _ v => v.render ++ "\x7b\x7d"
  | .container .optional _ v => v.render ++ "?"
  | .container .map (some k) v => k.render ++ "->" ++ v.render
  | .container .map none v => "?->" ++ v.render

/-- A text without the white space at its ends, if anything is left. -/
def nonblank (text : Option String) : Option (List Char) :=
  (text.map fun t => trimChars t.toList).filter (· ≠ [])

/-- The container of a shape whose key and value are given apart. -/
def parseLong (shape : Shape) (key value : Option String) : Except Problem TypeExpr := do
  let value ← match nonblank value with
    | some v => TypePath.parseChars v
    | none => .error .missingValue
  match shape.hasKey, key with
  | true, key =>
    match nonblank key with
    | some k => return .container shape (some (← TypePath.parseChars k)) value
    | none => .error .missingKey
  | false, some _ => .error .strayKey
  | false, none => return .container shape none value

/-- A path with at most one container mark. -/
def parseCompact (s : List Char) : Except Problem TypeExpr :=
  match s.reverse with
  | ']' :: '[' :: r => .container .list none <$> TypePath.parseChars r.reverse
  | '\x7d' :: '\x7b' :: r => .container .set none <$> TypePath.parseChars r.reverse
  | '?' :: r => .container .optional none <$> TypePath.parseChars r.reverse
  | _ =>
    match arrowPieces s with
    | [k, v] => do
      let key ← TypePath.parseChars k
      return .container .map (some key) (← TypePath.parseChars v)
    | _ :: _ :: _ => .error .manyArrows
    | _ => .named <$> TypePath.parseChars s

/-- Reads a property type. The name of a container takes its key and value from the attributes;
any other text must not have them. -/
def parse (catalog : ContainerCatalog) (text : String) (key value : Option String) :
    Except Problem TypeExpr :=
  match trimChars text.toList with
  | [] => .error .empty
  | s =>
    match catalog.shape? (String.ofList s) with
    | some shape => parseLong shape key value
    | none =>
      if key.isSome ∨ value.isSome then .error .strayAttributes else parseCompact s

end TypeExpr

end SchemaGraph
