import SchemaGraph.Decimal.FloatText
import SchemaGraph.Text.Quoted

/-!
JSON values and their compact text. Integers and doubles are kept apart: `1` is an integer and `1.0`
is not.
-/

namespace SchemaGraph

inductive Json.Number where
  | int (value : Int)
  | float (value : Decimal.Binary64)
  deriving DecidableEq, Inhabited

inductive Json where
  | null
  | bool (value : Bool)
  | number (value : Json.Number)
  | text (value : String)
  | list (items : List Json)
  | record (fields : List (String × Json))
  deriving Inhabited

namespace Json

/-- Doubles between `0.00001` and ten to the sixteenth are positional and keep a point; the
exponent of a greater one has a plus sign. -/
def floatFormat : Decimal.FloatFormat :=
  { tie := .even, positionalBelow := some 16, positionalFrom := some (-5), integralSuffix := ".0",
    exponentPlus := "+" }

def Number.render : Number → String
  | .int i => toString i
  | .float x => floatFormat.render x

def Number.toBinary64 : Number → Decimal.Binary64
  | .int i => Decimal.Binary64.ofInt i
  | .float x => x

/-- A character inside a JSON string: short escapes where they exist, `\u00` and two digits for the
other control characters, all else as it is. -/
def escapeChar (c : Char) : List Char :=
  if c = '"' then ['\\', '"']
  else if c = '\\' then ['\\', '\\']
  else if c = '\n' then ['\\', 'n']
  else if c = '\t' then ['\\', 't']
  else if c = '\r' then ['\\', 'r']
  else if c = '\x08' then ['\\', 'b']
  else if c = '\x0c' then ['\\', 'f']
  else if c.toNat < 0x20 then
    ['\\', 'u', '0', '0', Nat.digitChar (c.toNat / 16), Nat.digitChar (c.toNat % 16)]
  else [c]

def quote (s : String) : String :=
  String.ofList ('"' :: s.toList.flatMap escapeChar ++ ['"'])

mutual

/-- The compact text of a value, fields in the order they are in. -/
def render : Json → String
  | .null => "null"
  | .bool b => if b then "true" else "false"
  | .number n => n.render
  | .text s => quote s
  | .list items => "[" ++ String.intercalate "," (renderItems items) ++ "]"
  | .record fields => "\x7b" ++ String.intercalate "," (renderFields fields) ++ "\x7d"

def renderItems : List Json → List String
  | [] => []
  | j :: js => j.render :: renderItems js

def renderFields : List (String × Json) → List String
  | [] => []
  | (k, j) :: fs => (quote k ++ ":" ++ j.render) :: renderFields fs

end

/-- Puts a field where its key belongs in a list sorted by key, in place of an equal key. -/
def insertField (key : String) (value : Json) : List (String × Json) → List (String × Json)
  | [] => [(key, value)]
  | (k, v) :: fs =>
    if key = k then (key, value) :: fs
    else if key < k then (key, value) :: (k, v) :: fs
    else (k, v) :: insertField key value fs

mutual

/-- The same value with every record sorted by key; of equal keys the last counts. -/
def sorted : Json → Json
  | .list items => .list (sortedItems items)
  | .record fields => .record (sortedFields [] fields)
  | j => j

def sortedItems : List Json → List Json
  | [] => []
  | j :: js => j.sorted :: sortedItems js

def sortedFields (acc : List (String × Json)) : List (String × Json) → List (String × Json)
  | [] => acc
  | (k, j) :: fs => sortedFields (insertField k j.sorted acc) fs

end

/-- The value of the last field with the given key. -/
def field? (key : String) : Json → Option Json
  | .record fields => (fields.reverse.find? fun f => f.1 = key).map Prod.snd
  | _ => none

def items : Json → List Json
  | .list js => js
  | _ => []

end Json

end SchemaGraph
