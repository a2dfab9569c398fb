import SchemaGraph.DataType
import SchemaGraph.Declaration
import SchemaGraph.Json.Document
import SchemaGraph.TypeExpr

/-!
Everything that can go wrong, by its cause. The wording is in `CompileError.message` alone.
-/

namespace SchemaGraph

inductive ErrorPhase where
  /-- Finding or reading a source. -/
  | source
  /-- A declaration that is wrong by itself. -/
  | structural
  /-- A reference that cannot be resolved, or a hierarchy that is not sound. -/
  | resolution
  /-- The imports, or a name that is published already. -/
  | graph
  /-- Code that cannot be emitted. -/
  | generation
  | config
  deriving DecidableEq, Inhabited

inductive FileError where
  | notFound
  | alreadyExists
  /-- A directory that has to be new is there. -/
  | notNew
  | notADirectory
  | isADirectory
  | invalidPath
  | nameTooLong
  /-- A directory that can be emptied but not removed. -/
  | notRemovable
  /-- The content is not UTF-8 text. -/
  | notText
  deriving DecidableEq, Inhabited

def FileError.message : FileError → String
  | notFound => "No such file or directory (os error 2)"
  | alreadyExists => "File exists (os error 17)"
  | notNew => "output directory already exists"
  | notADirectory => "Not a directory (os error 20)"
  | isADirectory => "Is a directory (os error 21)"
  | invalidPath => "file name contained an unexpected NUL byte"
  | nameTooLong => "File name too long (os error 36)"
  | notRemovable => "Invalid argument (os error 22)"
  | notText => "stream did not contain valid UTF-8"

inductive NameRole where
  | schema
  | scope
  | importAlias
  | type
  | property
  | enumElement
  deriving DecidableEq, Inhabited

def NameRole.phrase : NameRole → String
  | schema => "schema"
  | scope => "namespace"
  | importAlias => "import alias"
  | type => "type"
  | property => "property"
  | enumElement => "enum element"

/-- Where a type has to be capable of being a key. -/
inductive KeyUsage where
  | mapKey
  | primaryKey
  deriving DecidableEq, Inhabited

def KeyUsage.phrase : KeyUsage → String
  | mapKey => "map key"
  | primaryKey => "primary key component"

inductive ConfigProblem where
  /-- The type that enums fall back to is not a primitive. -/
  | unknownEnumUnderlying (name : String)
  | unreadable
  deriving DecidableEq, Inhabited

def ConfigProblem.message : ConfigProblem → String
  | unknownEnumUnderlying name =>
    "default enum underlying type '" ++ name ++ "' is not a registered primitive"
  | unreadable => "invalid configuration"

inductive CompileError where
  | sourceNotFound (unit : SourceId)
  | file (path : String) (cause : FileError)
  | json (unit : SourceId) (fault : Json.Fault)
  | invalidIdentifier (unit : SourceId) (role : NameRole) (name : String)
  | missingAttribute (unit : SourceId) (owner field : String)
  | duplicateType (unit : SourceId) (type : String)
  | duplicateProperty (unit : SourceId) (type property : String)
  | duplicateImportAlias (unit : SourceId) (name : String)
  | primaryKeyArity (unit : SourceId) (type : String) (count : Nat)
  | derivedEntityPrimaryKey (unit : SourceId) (type property : String)
  | misplacedPrimaryKey (unit : SourceId) (type property : String)
  | malformedTypeExpr (unit : SourceId) (type property text : String) (problem : TypeExpr.Problem)
  | invalidEnumUnderlying (unit : SourceId) (type underlying : String)
  | enumValueOutOfRange (unit : SourceId) (type element : String) (value low high : Int)
  | invalidEnumValue (unit : SourceId) (type element value : String)
  | duplicateEnumElement (unit : SourceId) (type element : String)
  | unknownImportAlias (unit : SourceId) (owner name : String)
  | unresolvedType (unit : SourceId) (owner reference : String) (suggestion : Option String)
  | kindMismatch (unit : SourceId) (owner reference : String) (expected : TypeKind)
      (found : DataType)
  | roleMismatch (unit : SourceId) (type property : String) (role : PropertyRole)
      (reference : String) (found : DataType)
  | keyNotCapable (unit : SourceId) (type property found : String) (usage : KeyUsage)
  | voidProperty (unit : SourceId) (type property : String)
  | propertyCollision (unit : SourceId) (type property : String)
  | inheritanceCycle (unit : SourceId) (type : String)
  | importCycle (members : List SourceId)
  | duplicateSchemaName (name : String) (first second : SourceId)
  | duplicateSchemaSource (unit : SourceId)
  | duplicatePrimitive (name : String)
  | generation (unit : SourceId) (type message : String)
  | config (problem : ConfigProblem)
  deriving DecidableEq, Inhabited

namespace CompileError

def phase : CompileError → ErrorPhase
  | sourceNotFound .. | file .. | json .. => .source
  | invalidIdentifier .. | missingAttribute .. | duplicateType .. | duplicateProperty ..
  | duplicateImportAlias .. | primaryKeyArity .. | derivedEntityPrimaryKey ..
  | misplacedPrimaryKey .. | malformedTypeExpr .. | invalidEnumUnderlying ..
  | enumValueOutOfRange .. | invalidEnumValue .. | duplicateEnumElement .. => .structural
  | unknownImportAlias .. | unresolvedType .. | kindMismatch .. | roleMismatch ..
  | keyNotCapable .. | voidProperty .. | propertyCollision .. | inheritanceCycle .. => .resolution
  | importCycle .. | duplicateSchemaName .. | duplicateSchemaSource ..
  | duplicatePrimitive .. => .graph
  | generation .. => .generation
  | config .. => .config

/-- What the reader of a message is offered in place of an unknown name. -/
def suggestionNote : Option String → String
  | none => ""
  | some s => s!" (did you mean '{s}'?)"

def message : CompileError → String
  | sourceNotFound unit => s!"Schema source not found: {unit}"
  | file path cause => s!"Failed to read {path}: {cause.message}"
  | json unit fault => s!"Invalid schema source {unit}: {fault.name}"
  | invalidIdentifier unit role name => s!"{unit}: invalid {role.phrase} identifier '{name}'"
  | missingAttribute unit owner field =>
    s!"{unit}: '{owner}' is missing required attribute '{field}'"
  | duplicateType unit type => s!"{unit}: duplicate type name '{type}'"
  | duplicateProperty unit type property =>
    s!"{unit}: duplicate property '{property}' declared on '{type}'"
  | duplicateImportAlias unit name => s!"{unit}: duplicate import alias '{name}'"
  | primaryKeyArity unit type count =>
    s!"{unit}: entity '{type}' declares {count} primary key components (expected 1 to 7)"
  | derivedEntityPrimaryKey unit type property =>
    s!"{unit}: derived entity '{type}' must not declare primary key component '{property}'"
  | misplacedPrimaryKey unit type property =>
    s!"{unit}: primary key component '{property}' declared on non-entity '{type}'"
  | malformedTypeExpr unit type property text problem =>
    s!"{unit}: malformed type '{text}' on {type}.{property}: {problem.message}"
  | invalidEnumUnderlying unit type underlying =>
    s!"{unit}: enum '{type}' cannot use '{underlying}' as underlying type " ++
      "(integer primitive required)"
  | enumValueOutOfRange unit type element value low high =>
    s!"{unit}: value {value} of {type}.{element} is outside [{low}, {high}]"
  | invalidEnumValue unit type element value =>
    s!"{unit}: invalid value '{value}' for {type}.{element}"
  | duplicateEnumElement unit type element =>
    s!"{unit}: duplicate element '{element}' in enum '{type}'"
  | unknownImportAlias unit owner name =>
    s!"{unit}: unknown import alias '{name}' referenced from '{owner}'"
  | unresolvedType unit owner reference suggestion =>
    s!"{unit}: cannot resolve type '{reference}' referenced from '{owner}'" ++
      suggestionNote suggestion
  | kindMismatch unit owner reference expected found =>
    s!"{unit}: '{reference}' referenced from '{owner}' is {found.phrase}, " ++
      s!"expected {expected.phrase}"
  | roleMismatch unit type property role reference found =>
    s!"{unit}: {type}.{property} has role {role.name} but its type '{reference}' is {found.phrase}"
  | keyNotCapable unit type property found usage =>
    s!"{unit}: {type}.{property} uses '{found}' as {usage.phrase}, which is not key-capable"
  | voidProperty unit type property => s!"{unit}: {type}.{property} cannot have type void"
  | propertyCollision unit type property =>
    s!"{unit}: property name '{property}' collides on '{type}' after interface flattening"
  | inheritanceCycle unit type => s!"{unit}: inheritance cycle through '{type}'"
  | importCycle members =>
    "Schema sources have a circular import: " ++ String.intercalate " -> " members
  | duplicateSchemaName name first second =>
    s!"Schema name '{name}' registered by both {first} and {second}"
  | duplicateSchemaSource unit => s!"Schema {unit} is already registered"
  | duplicatePrimitive name => s!"Primitive type '{name}' is already registered"
  | generation unit type message => s!"{unit}: failed to generate '{type}': {message}"
  | config problem => s!"Configuration error: {problem.message}"

/-- The text of the error that lies beneath, if there is one. -/
def cause? : CompileError → Option String
  | file _ cause => some cause.message
  | json _ fault => some fault.name
  | config problem => some problem.message
  | _ => none

end CompileError

end SchemaGraph
