import SchemaGraph.Text.Hex
import SchemaGraph.Text.Printable

/-!
Text in double quotes for messages: the usual short escapes, other characters without a visible
form as `\u` with their code point in braces, all else as it is.
-/

namespace SchemaGraph.Text

def quotedChar (c : Char) : String :=
  if c = '"' then "\\\""
  else if c = '\\' then "\\\\"
  else if c = '\n' then "\\n"
  else if c = '\t' then "\\t"
  else if c = '\r' then "\\r"
  else if c = '\x00' then "\\0"
  else if isPrintable c then c.toString
  else "\\u\x7b" ++ hex c.toNat ++ "\x7d"

def quoted (s : String) : String :=
  "\"" ++ String.join (s.toList.map quotedChar) ++ "\""

end SchemaGraph.Text
