import SchemaGraph.Decimal.Integer
import SchemaGraph.Text.Blank

/-!
What the author of one schema source declares: imports, annotations and types, with every reference
still as it was written.
-/

namespace SchemaGraph

/-- The address of a schema source. -/
abbrev SourceId := String

/-- Ordered annotations, each a key and a value. -/
abbrev Metadata := List (String × String)

namespace Metadata

/-- The first value given for a key. -/
def get? (m : Metadata) (key : String) : Option String :=
  (m.find? fun entry => entry.1 = key).map Prod.snd

end Metadata

inductive PropertyRole where
  | plain
  | primaryKey
  | foreignKey
  deriving DecidableEq, Inhabited

namespace PropertyRole

def name : PropertyRole → String
  | .plain => "plain"
  | .primaryKey => "primary_key"
  | .foreignKey => "foreign_key"

def ofName? (text : String) : Option PropertyRole :=
  [plain, primaryKey, foreignKey].find? fun r => r.name = text

end PropertyRole

namespace Declaration

structure Import where
  source : SourceId := ""
  /-- The alias; without one the imported schema goes by its own name. -/
  localName : Option String := none
  deriving DecidableEq, Inhabited

structure Property where
  name : Option String := none
  typeText : Option String := none
  role : PropertyRole := .plain
  /-- The key type of a map written in the long form. -/
  key : Option String := none
  /-- The value type of a container written in the long form. -/
  value : Option String := none
  default : Option String := none
  metadata : Metadata := []
  deriving DecidableEq, Inhabited

structure Composite where
  name : Option String := none
  «namespace» : Option String := none
  base : Option String := none
  interfaces : List String := []
  isAbstract : Bool := false
  properties : List Property := []
  metadata : Metadata := []
  deriving DecidableEq, Inhabited

structure Interface where
  name : Option String := none
  «namespace» : Option String := none
  parents : List String := []
  properties : List Property := []
  metadata : Metadata := []
  deriving DecidableEq, Inhabited

/-- An enum value: a 64-bit integer, signed if it can be, or a text that may spell a larger one. -/
inductive EnumValue where
  | signed (value : Int)
  | unsigned (value : Nat)
  | text (value : String)
  deriving DecidableEq, Inhabited

structure Element where
  name : Option String := none
  value : Option EnumValue := none
  metadata : Metadata := []
  deriving DecidableEq, Inhabited

structure Enum where
  name : Option String := none
  «namespace» : Option String := none
  underlying : Option String := none
  elements : List Element := []
  metadata : Metadata := []
  deriving DecidableEq, Inhabited

inductive TypeDecl where
  | entity (declaration : Composite)
  | struct (declaration : Composite)
  | interface (declaration : Interface)
  | enum (declaration : Enum)
  deriving DecidableEq, Inhabited

def TypeDecl.name : TypeDecl → Option String
  | .entity d | .struct d => d.name
  | .interface d => d.name
  | .enum d => d.name

/-- The word that says which kind of type is declared. -/
def TypeDecl.kindName : TypeDecl → String
  | .entity _ => "entity"
  | .struct _ => "struct"
  | .interface _ => "interface"
  | .enum _ => "enum"

/-- The least and greatest integers of 128 bits. -/
def minWide : Int := -170141183460469231731687303715884105728

def maxWide : Int := 170141183460469231731687303715884105727

/-- The integer that an enum value stands for, if it fits in 128 bits. -/
def EnumValue.toInt? : EnumValue → Option Int
  | .signed v => some v
  | .unsigned v => some v
  | .text s =>
    (Decimal.readInt? (Text.trimChars s.toList)).filter fun i => minWide ≤ i ∧ i ≤ maxWide

def EnumValue.render : EnumValue → String
  | .signed v => toString v
  | .unsigned v => toString v
  | .text s => s

end Declaration

structure Declaration where
  name : Option String := none
  «namespace» : Option String := none
  imports : List Declaration.Import := []
  metadata : Metadata := []
  types : List Declaration.TypeDecl := []
  deriving DecidableEq, Inhabited

end SchemaGraph
