import SchemaGraph.Config
import SchemaGraph.Json.Reader

/-!
JSON documents as configurations. Integers beyond 64 bits with a sign become floats.
-/

namespace SchemaGraph.Config

def ofJsonNumber : Json.Number → Config
  | .int i => if Decimal.isInt64 i then .integer i else .float (Decimal.Binary64.ofInt i)
  | .float x => .float x

mutual

def ofJson : Json → Config
  | .null => .null
  | .bool b => .bool b
  | .number n => ofJsonNumber n
  | .text s => .text s
  | .list js => .list (ofJsonItems js)
  | .record fs => ofFields (ofJsonFields fs)

def ofJsonItems : List Json → List Config
  | [] => []
  | j :: js => ofJson j :: ofJsonItems js

def ofJsonFields : List (String × Json) → List (String × Config)
  | [] => []
  | (k, j) :: fs => (k, ofJson j) :: ofJsonFields fs

end

def ofJsonText (text : String) : Option Config :=
  (Json.parse text).toOption.map ofJson

end SchemaGraph.Config
