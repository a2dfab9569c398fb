import SchemaGraph.Config.KeyPath
import SchemaGraph.Decimal.FloatReader
import SchemaGraph.FileTree
import SchemaGraph.Settings.Codec
import SchemaGraph.Settings.Format

/-!
Settings from several places. Each place gives a layer, and a later layer wins over an earlier one
key by key: three files in the working directory, the user's own file, a file that is asked for, and
last the environment variables whose names begin with `SCHEMAC__`.
-/

namespace SchemaGraph

structure Environment where
  assigned : List (String × String) := []

namespace Environment

def value? (env : Environment) (name : String) : Option String :=
  (env.assigned.find? fun v => v.1 = name).map Prod.snd

/-- Where the settings of the user are: below the directory that one variable names by an absolute
path, or else below the home directory. -/
def userFile? (env : Environment) : Option String :=
  let dir? := match (env.value? "XDG_CONFIG_HOME").filter fun d => d.startsWith "/" with
    | some dir => some dir
    | none => ((env.value? "HOME").filter (· ≠ "")).map fun home => FileTree.join home ".config"
  dir?.map fun dir => FileTree.join dir "schemac/schemac.toml"

end Environment

/-- Values by the paths that they are for. -/
abbrev Layer := List (KeyPath × Config)

namespace Layer

/-- A document as a layer. -/
def ofConfig (v : Config) : Layer :=
  v.fields.map fun f => (.ofText f.1, f.2)

/-! ### Environment variables -/

def variableStart : List Char := "schemac__".toList

/-- The text with dots for pairs of underscores. -/
def dotted (s : List Char) : List Char :=
  ['.'].intercalate (Text.piecesAtPair '_' '_' s)

/-- The path that a variable is for. Case does not count. -/
def variablePath? (name : String) : Option KeyPath :=
  let s := (KeyPath.fold name).toList
  if variableStart.isPrefixOf s then
    some (.ofText (String.ofList (dotted (s.drop variableStart.length))))
  else none

/-- The value of a variable: a truth value, an integer, a number or else text. -/
def variableValue (text : String) : Config :=
  let s := text.toList
  let integer? := (Decimal.readInt? s).filter Decimal.isInt64
  match text.toLower, integer?, Decimal.readFloat? s with
  | "true", _, _ => .bool true
  | "false", _, _ => .bool false
  | _, some i, _ => .integer i
  | _, none, some x => .float x
  | _, none, none => .text text

def ofVariables (assigned : List (String × String)) : Layer :=
  assigned.filterMap fun v => (variablePath? v.1).map fun path => (path, variableValue v.2)

def layOver (v : Config) (layer : Layer) : Config :=
  layer.foldl (fun v entry => entry.1.lay entry.2 v) v

end Layer

namespace Settings

/-! ### Files -/

/-- What follows the last dot of a file name, if the dot is not its first character. -/
def extensionOf (name : String) : Option String :=
  let tail := name.toList.reverse.takeWhile (· ≠ '.')
  if tail.length + 1 < name.length then some (String.ofList tail.reverse) else none

/-- A path with an extension after its last name. A path that goes back up at its end has none. -/
def withExtension? (path extension : String) : Option String :=
  let names := FileTree.wayOf path
  match names.getLast? with
  | none | some ".." => none
  | some _ => some ("/" ++ String.intercalate "/" names ++ "." ++ extension)

/-- The paths at which a settings file may be, with the formats that it can have there. The first
is the path itself, where the name of the file tells the format. -/
def candidates (t : FileTree) (path : String) : List (String × Option SettingsFormat) :=
  let path := t.absolute path
  let format? := ((FileTree.wayOf path).getLast?.bind extensionOf).bind SettingsFormat.ofExtension?
  (path, format?) :: SettingsFormat.extensions.filterMap fun e =>
    (withExtension? path e.1).map fun p => (p, some e.2)

/-- The settings file for a path: its place, and its format if it has one. -/
def file? (t : FileTree) (path : String) : Option (Place × Option SettingsFormat) :=
  (candidates t path).findSome? fun c => (t.file? c.1).map fun p => (p, c.2)

/-- The text in the settings file for a path, and the format that it should be in. -/
def fileText? (t : FileTree) (path : String) : Option (SettingsFormat × String) := do
  let (place, format?) ← file? t path
  let content ← t.content? place
  return (← format?, ← content)

/-- The layer in the file for a path. A text that can be read has to be in its format. -/
def fileLayer (t : FileTree) (path : String) : Except ConfigProblem (Option Layer) :=
  match fileText? t path with
  | none => .ok none
  | some (format, text) =>
    match format.parse text with
    | some v => .ok (some (.ofConfig v))
    | none => .error .unreadable

/-- The files that are read if they can be. That of the user has to be there by its own name. -/
def usualFiles (t : FileTree) (env : Environment) : List String :=
  ["schemac.toml", ".schemac.toml", "config/schemac.toml"] ++
    env.userFile?.toList.filter fun path => (t.existing? path).isSome

/-- The layers of all files, the first at the bottom. A file that is asked for must be readable. -/
def fileLayers (t : FileTree) (env : Environment) (explicit : Option String) :
    Except ConfigProblem (List Layer) := do
  let usual ← (usualFiles t env).mapM (fileLayer t)
  match explicit with
  | none => return usual.filterMap id
  | some path =>
    match ← fileLayer t path with
    | some layer => return usual.filterMap id ++ [layer]
    | none => .error .unreadable

/-- The settings that all layers together make. -/
def load (t : FileTree) (env : Environment) (explicit : Option String) :
    Except ConfigProblem Settings := do
  let layers ← fileLayers t env explicit
  let merged := (layers ++ [Layer.ofVariables env.assigned]).foldl Layer.layOver .empty
  match Settings.ofConfig? merged with
  | some s => return s
  | none => .error .unreadable

end Settings

end SchemaGraph
