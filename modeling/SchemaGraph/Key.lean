import SchemaGraph.DataType
import SchemaGraph.Json

/-!
Primary keys. A layout lists the key components of an entity; a key is a value for each of them,
taken from a record or given directly.
-/

namespace SchemaGraph

structure KeyComponent where
  property : PropertyRef
  name : String
  primitive : PrimitiveId
  kind : PrimitiveKind
  deriving DecidableEq, Inhabited

/-- The key components of an entity without a base, in declaration order. -/
structure KeyLayout where
  entity : TypeRef
  components : List KeyComponent
  deriving DecidableEq, Inhabited

def maxKeyArity : Nat := 7

inductive KeyValue where
  | integer (value : Int)
  | float (value : Decimal.Binary64)
  | bool (value : Bool)
  | string (value : String)
  /-- A scalar of a custom primitive, by its text. -/
  | custom (text : String)
  deriving DecidableEq, Inhabited

structure Key where
  entity : TypeRef
  values : List KeyValue
  deriving DecidableEq, Inhabited

inductive KeyError where
  | missingField (field : String)
  | typeMismatch (field : String) (kind : PrimitiveKind) (found : String)
  | arity (expected found : Nat)
  deriving DecidableEq, Inhabited

namespace KeyError

/-- What a component of a kind takes, for messages. -/
def expectation (k : PrimitiveKind) : String :=
  if k.isInteger then "an integer in range"
  else if k.isFloating then "a number"
  else if k = .bool then "a bool"
  else if k = .string then "a string"
  else "a scalar"

def message : KeyError → String
  | missingField field => "record is missing key field '" ++ field ++ "'"
  | typeMismatch field kind found =>
    "key field '" ++ field ++ "' expects " ++ expectation kind ++ ", got " ++ found
  | arity expected found =>
    "key expects " ++ toString expected ++ " components, got " ++ toString found

end KeyError

namespace KeyValue

def describe : KeyValue → String
  | integer v => "integer " ++ toString v
  | float v => "float " ++ Decimal.plainFloat.render v
  | bool v => "bool " ++ (if v then "true" else "false")
  | string s => "string " ++ Text.quoted s
  | custom s => "custom " ++ Text.quoted s

/-- Equality of values; floating point numbers compare as numbers. -/
def same : KeyValue → KeyValue → Bool
  | integer a, integer b => a = b
  | float a, float b => a.same b
  | bool a, bool b => a = b
  | string a, string b => a = b
  | custom a, custom b => a = b
  | _, _ => false

/-- Whether a value belongs to a component of a kind. -/
def fits (k : PrimitiveKind) : KeyValue → Bool
  | integer v =>
    match k.range? with
    | some (low, high) => low ≤ v && v ≤ high
    | none => false
  | float _ => k.isFloating
  | bool _ => k = .bool
  | string _ => k = .string
  | custom _ => k = .custom

end KeyValue

namespace Key

/-- Keys are the same if they are of one entity and their values are the same. -/
def same (a b : Key) : Bool :=
  a.entity = b.entity && a.values.length = b.values.length &&
    (a.values.zip b.values).all fun v => v.1.same v.2

end Key

namespace KeyComponent

def check (c : KeyComponent) (v : KeyValue) : Except KeyError Unit :=
  if v.fits c.kind then .ok () else .error (.typeMismatch c.name c.kind v.describe)

/-- The value of a kind that a JSON value stands for, whatever its range. -/
def valueOf? (k : PrimitiveKind) (j : Json) : Option KeyValue :=
  if k.isInteger then
    match j with
    | .number (.int i) => some (.integer i)
    | _ => none
  else if k.isFloating then
    match j with
    | .number n => some (.float n.toBinary64)
    | _ => none
  else if k = .bool then
    match j with
    | .bool b => some (.bool b)
    | _ => none
  else if k = .string then
    match j with
    | .text s => some (.string s)
    | _ => none
  else
    match j with
    | .text s => some (.custom s)
    | j => some (.custom j.sorted.render)

def read (c : KeyComponent) (j : Json) : Except KeyError KeyValue :=
  match valueOf? c.kind j with
  | none => .error (.typeMismatch c.name c.kind j.sorted.render)
  | some v => do
    c.check v
    return v

end KeyComponent

namespace KeyLayout

def arity (l : KeyLayout) : Nat := l.components.length

def keyOf (l : KeyLayout) (record : Json) : Except KeyError Key := do
  let values ← l.components.mapM fun c =>
    match record.field? c.name with
    | none => .error (.missingField c.name)
    | some j => c.read j
  return ⟨l.entity, values⟩

/-- The key with the given values, in the order of the layout. -/
def compose (l : KeyLayout) (values : List KeyValue) : Except KeyError Key := do
  if values.length ≠ l.arity then .error (.arity l.arity values.length)
  (l.components.zip values).forM fun cv => cv.1.check cv.2
  return ⟨l.entity, values⟩

end KeyLayout

end SchemaGraph
