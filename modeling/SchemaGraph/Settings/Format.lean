import SchemaGraph.Config.OfJson
import SchemaGraph.Ini
import SchemaGraph.Json5
import SchemaGraph.Ron
import SchemaGraph.Toml.Reader
import SchemaGraph.Yaml.Reader

/-!
The languages that settings files can be in. The extension of a file tells its language.
-/

namespace SchemaGraph

inductive SettingsFormat where
  | toml
  | json
  | yaml
  | ini
  | ron
  | json5
  deriving DecidableEq, Inhabited

namespace SettingsFormat

/-- Every extension, with the format that it stands for. -/
def extensions : List (String × SettingsFormat) :=
  [("toml", toml), ("json", json), ("yaml", yaml), ("yml", yaml), ("ini", ini), ("ron", ron),
    ("json5", json5)]

def ofExtension? (extension : String) : Option SettingsFormat :=
  (extensions.find? fun e => e.1 = extension).map Prod.snd

def read : SettingsFormat → String → Option Config
  | toml => Toml.parse
  | json => Config.ofJsonText
  | yaml => Yaml.parse
  | ini => Ini.parse
  | ron => Ron.parse
  | json5 => Json5.parse

def parse (f : SettingsFormat) (text : String) : Option Config :=
  (f.read text).filter Config.isTable

end SettingsFormat

end SchemaGraph
