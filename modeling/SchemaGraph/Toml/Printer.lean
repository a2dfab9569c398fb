import SchemaGraph.Config
import SchemaGraph.Text.Hex

/-!
TOML documents as text. A table has its own values first and then its tables, each under a header
with a blank line above it; a list of two or more items has one item to a line.
-/

namespace SchemaGraph.Toml

/-! ### Strings -/

def longestRun (q : Char) (current best : Nat) : List Char → Nat
  | [] => max current best
  | c :: cs =>
    if c = q then longestRun q (current + 1) best cs else longestRun q 0 (max current best) cs

inductive Quoting where
  | basic
  | literal
  | basicLines
  | literalLines
  deriving DecidableEq

/-- Whether a character can only be written as an escape. -/
def isControl (c : Char) : Bool :=
  (c.toNat < 0x20 && c != '\t' && c != '\n') || c.toNat == 0x7F

/-- The quotes for a string: basic ones if nothing has to be escaped, else the first kind that can
do without escapes. -/
def quotingOf (s : List Char) : Quoting :=
  let needsEscape := s.any isControl
  let hasBackslash := s.contains '\\'
  let hasBreak := s.contains '\n'
  let doubles := longestRun '"' 0 0 s
  let singles := longestRun '\'' 0 0 s
  if !needsEscape && !hasBackslash && doubles = 0 && !hasBreak then .basic
  else if !needsEscape && singles = 0 && !hasBreak then .literal
  else if !needsEscape && !hasBackslash && doubles ≤ 2 then .basicLines
  else if !needsEscape && singles ≤ 2 then .literalLines
  else if hasBreak then .basicLines
  else .basic

def hexDigitsUpper (width n : Nat) : List Char :=
  let digits := (Nat.toDigits 16 n).map Char.toUpper
  List.replicate (width - digits.length) '0' ++ digits

/-- A character between basic quotes, other than a double quote. -/
def escapeChar (keepsBreaks : Bool) (c : Char) : List Char :=
  if c = '\\' then ['\\', '\\']
  else if c = '\n' then if keepsBreaks then ['\n'] else ['\\', 'n']
  else if c = '\t' then ['\\', 't']
  else if c = '\r' then ['\\', 'r']
  else if c = '\x08' then ['\\', 'b']
  else if c = '\x0c' then ['\\', 'f']
  else if isControl c then '\\' :: 'u' :: hexDigitsUpper 4 c.toNat
  else [c]

/-- Text between basic quotes. As many double quotes in a row as `room` says need no escape. -/
def escape (keepsBreaks : Bool) (room run : Nat) : List Char → List Char
  | [] => []
  | c :: cs =>
    if c = '"' then
      if run < room then '"' :: escape keepsBreaks room (run + 1) cs
      else '\\' :: '"' :: escape keepsBreaks room 0 cs
    else escapeChar keepsBreaks c ++ escape keepsBreaks room 0 cs

def quoteChars (s : List Char) : List Char :=
  let first := if s.contains '\n' then ['\n'] else []
  match quotingOf s with
  | .basic => '"' :: escape false 0 0 s ++ ['"']
  | .literal => '\'' :: s ++ ['\'']
  | .basicLines => ['"', '"', '"'] ++ first ++ escape true 2 0 s ++ ['"', '"', '"']
  | .literalLines => ['\'', '\'', '\''] ++ first ++ s ++ ['\'', '\'', '\'']

def quote (s : String) : String :=
  String.ofList (quoteChars s.toList)

def isBareKey (s : List Char) : Bool :=
  !s.isEmpty && s.all fun c => c.isAlphanum || c == '_' || c == '-'

def keyText (key : String) : String :=
  if isBareKey key.toList then key else quote key

/-! ### Values -/

/-- Floats have no exponent and always a point. -/
def floatFormat : Decimal.FloatFormat :=
  { Decimal.plainFloat with integralSuffix := ".0" }

def floatText (x : Decimal.Binary64) : String :=
  if x.isNaN then (if x.isNegative then "-nan" else "nan") else floatFormat.render x

def listText (items : List String) : String :=
  match items with
  | [] => "[]"
  | [item] => "[" ++ item ++ "]"
  | items => "[" ++ String.join (items.map fun i => "\n    " ++ i ++ ",") ++ "\n]"

mutual

/-- The text of a value. For null, which TOML has no word for, empty text stands. -/
def valueText : Config → String
  | .null => quote ""
  | .text s => quote s
  | .integer i => toString i
  | .float x => floatText x
  | .bool b => if b then "true" else "false"
  | .list items => listText (itemTexts items)
  | .table fs => "\x7b " ++ String.intercalate ", " (pairTexts fs) ++ " \x7d"

def itemTexts : List Config → List String
  | [] => []
  | t :: ts => valueText t :: itemTexts ts

def pairTexts : List (String × Config) → List String
  | [] => []
  | (k, t) :: fs => (keyText k ++ " = " ++ valueText t) :: pairTexts fs

end

/-! ### Tables -/

/-- Whether a value has headers of its own. -/
def hasHeader : Config → Bool
  | .table _ => true
  | .list items => !items.isEmpty && items.all Config.isTable
  | _ => false

def ownLines (fs : List (String × Config)) : List String :=
  (fs.filter fun f => !hasHeader f.2).map fun f => keyText f.1 ++ " = " ++ valueText f.2 ++ "\n"

def pathText (path : List String) : String :=
  String.intercalate "." (path.map keyText)

/-- A header and the values below it. A table that holds only tables needs none. -/
def tableBlock (path : List String) (fs : List (String × Config)) : List String :=
  if (ownLines fs).isEmpty && !fs.isEmpty then []
  else ["[" ++ pathText path ++ "]\n" ++ String.join (ownLines fs)]

def itemBlock (path : List String) (fs : List (String × Config)) : String :=
  "[[" ++ pathText path ++ "]]\n" ++ String.join (ownLines fs)

mutual

/-- The blocks of a value that has headers of its own. -/
def valueBlocks (path : List String) : Config → List String
  | .table fs => tableBlock path fs ++ fieldBlocks path fs
  | .list items => if items.all Config.isTable then itemBlocks path items else []
  | _ => []

def fieldBlocks (path : List String) : List (String × Config) → List String
  | [] => []
  | (k, t) :: fs => valueBlocks (path ++ [k]) t ++ fieldBlocks path fs

def itemBlocks (path : List String) : List Config → List String
  | [] => []
  | .table fs :: rest => itemBlock path fs :: (fieldBlocks path fs ++ itemBlocks path rest)
  | _ :: rest => itemBlocks path rest

end

def documentText (fs : List (String × Config)) : String :=
  let own := ownLines fs
  let top := if own.isEmpty then [] else [String.join own]
  String.intercalate "\n" (top ++ fieldBlocks [] fs)

end SchemaGraph.Toml
