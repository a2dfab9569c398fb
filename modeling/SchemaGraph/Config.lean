import SchemaGraph.Decimal.FloatReader
import SchemaGraph.Decimal.FloatText

/-!
Values in configuration files, whatever language the files are in, and what they are read as. The
types of scalars do not have to match: a number is a text too, and some words are truth values.
-/

namespace SchemaGraph

inductive Config where
  | null
  | bool (value : Bool)
  | integer (value : Int)
  | float (value : Decimal.Binary64)
  | text (value : String)
  | list (items : List Config)
  | table (fields : List (String × Config))
  deriving Inhabited

namespace Config

def empty : Config := .table []

/-- The fields of a table. Nothing else has any. -/
def fields : Config → List (String × Config)
  | .table fs => fs
  | _ => []

/-- The items of a list. Nothing else has any. -/
def items : Config → List Config
  | .list vs => vs
  | _ => []

def isTable : Config → Bool
  | .table _ => true
  | _ => false

def field? (key : String) (v : Config) : Option Config :=
  (v.fields.find? fun f => f.1 = key).map Prod.snd

/-- The fields with another value for one key, which keeps its position. -/
def withField (key : String) (value : Config) : List (String × Config) → List (String × Config)
  | [] => [(key, value)]
  | (k, v) :: fs => if k = key then (key, value) :: fs else (k, v) :: withField key value fs

/-- Sets a field. What is not a table becomes one. -/
def setField (v : Config) (key : String) (value : Config) : Config :=
  .table (withField key value v.fields)

/-- The items with another value at one position, after as many nulls as it takes to get there. -/
def withItem (value : Config) : Nat → List Config → List Config
  | 0, vs => value :: vs.tail
  | n + 1, vs => vs.headD .null :: withItem value n vs.tail

/-- A table in which a later field takes the place of an earlier one with the same key. -/
def ofFields (fs : List (String × Config)) : Config :=
  .table (fs.foldl (fun found f => withField f.1 f.2 found) [])

/-- A decimal number: an integer, which has to fit, if there is neither point nor exponent. -/
def ofNumber? (s : List Char) : Option Config :=
  match Decimal.readInt? s with
  | some i => if Decimal.isInt64 i then some (.integer i) else none
  | none => if s.any Char.isDigit then (Decimal.readFloat? s).map .float else none

/-! ### Readings of a value -/

def asText? : Config → Option String
  | .text s => some s
  | .integer i => some (toString i)
  | .float x => some (Decimal.plainFloat.render x)
  | .bool b => some (if b then "true" else "false")
  | .null | .list _ | .table _ => none

/-- Scalars as truth values: numbers other than zero are true, and so are some words. -/
def asBool? : Config → Option Bool
  | .bool b => some b
  | .integer i => some (i ≠ 0)
  | .float x => some !x.isZero
  | .text s =>
    let word := s.toLower
    if ["1", "true", "on", "yes"].contains word then some true
    else if ["0", "false", "off", "no"].contains word then some false
    else none
  | .null | .list _ | .table _ => none

def asTexts? : Config → Option (List String)
  | .list vs => vs.mapM asText?
  | _ => none

/-- Null as nothing, and all else as `read` has it. -/
def optionally {α : Type} (read : Config → Option α) : Config → Option (Option α)
  | .null => some none
  | v => (read v).map some

/-- Looks up the fields of a record: by name in a table, by position in a list. -/
def record? (names : List String) : Config → Option (String → Option Config)
  | .table fs => some fun name => (Config.table fs).field? name
  | .list vs => some fun name => vs[names.idxOf name]?
  | _ => none

/-- Reads a field, or takes `default` if it is missing. -/
def fieldOr {α : Type} (default : α) (read : Config → Option α) : Option Config → Option α
  | none => some default
  | some v => read v

end Config

end SchemaGraph
