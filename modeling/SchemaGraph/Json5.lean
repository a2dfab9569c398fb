import SchemaGraph.Config
import SchemaGraph.Text.Blank
import SchemaGraph.Text.Reading

/-!
JSON with comments, bare keys, single quotes, commas after the last item, and more ways to write a
number.
-/

namespace SchemaGraph.Json5

open Text (Rest prepend prepend? scalar? after afterWord)

def isSpace (c : Char) : Bool :=
  Text.isBlank c || c == '\ufeff'

def skip (s : List Char) : Rest :=
  Text.skipComments isSpace .none s

/-! ### Strings and keys -/

def isBreak (c : Char) : Bool :=
  c == '\n' || c == '\r' || c == '\u2028' || c == '\u2029'

/-- The character that an escape stands for. -/
def unescape : Char → Char
  | 'b' => '\x08'
  | 'f' => '\x0c'
  | 'n' => '\n'
  | 'r' => '\r'
  | 't' => '\t'
  | 'v' => '\x0b'
  | '0' => '\x00'
  | c => c

/-- A string from after its opening quote. An escaped line break does not count. -/
def readString (quote : Char) : List Char → Option (List Char × Rest)
  | [] | ['\\'] => none
  | '\\' :: '\r' :: '\n' :: s => readString quote s
  | '\\' :: 'x' :: a :: b :: s => prepend? (scalar? [a, b]) (readString quote s)
  | '\\' :: 'u' :: a :: b :: c :: d :: s => prepend? (scalar? [a, b, c, d]) (readString quote s)
  | '\\' :: c :: s =>
    if isBreak c then readString quote s else prepend [unescape c] (readString quote s)
  | c :: s =>
    if c = quote then some ([], s)
    else if c = '\n' ∨ c = '\r' then none
    else prepend [c] (readString quote s)

def isKeyPart (c : Char) : Bool :=
  c.isAlphanum || c == '_' || c == '$' || 0x80 ≤ c.toNat

/-- A key, in quotes or bare. -/
def readKey (s : List Char) : Option (List Char × Rest) :=
  match s with
  | '"' :: r => readString '"' r
  | '\'' :: r => readString '\'' r
  | s =>
    match s.span isKeyPart with
    | (c :: key, r) => if c.isDigit then none else some (c :: key, r)
    | ([], _) => none

/-! ### Numbers -/

def isNumberPart (c : Char) : Bool :=
  c.isAlphanum || c == '.' || c == '+' || c == '-'

/-- A number without sign: a word for a special value, hexadecimal digits, or a decimal. -/
def magnitude? (negative : Bool) (s : List Char) : Option Config :=
  match s with
  | ['I', 'n', 'f', 'i', 'n', 'i', 't', 'y'] => some (.float (Decimal.Binary64.infinity negative))
  | ['N', 'a', 'N'] => some (.float (Decimal.nan negative))
  | '0' :: 'x' :: ds | '0' :: 'X' :: ds => do
    let n ← if ds.isEmpty then none else Text.hexNumber? ds
    let i : Int := if negative then -n else n
    if Decimal.isInt64 i then some (.integer i) else none
  | '0' :: c :: _ => if c.isDigit then none else Config.ofNumber? (if negative then '-' :: s else s)
  | s => Config.ofNumber? (if negative then '-' :: s else s)

def readNumber (s : List Char) : Option (Config × Rest) :=
  let (word, rest) := s.span isNumberPart
  let (negative, digits) := Decimal.splitSign word
  (magnitude? negative digits).map fun v => (v, rest)

/-! ### Values -/

mutual

/-- The value at the front of a text, which has no white space there. Each level of nesting, and
each item, takes one from `fuel` and at least one character from the text. -/
def readValue : Nat → List Char → Option (Config × Rest)
  | 0, _ => none
  | fuel + 1, s =>
    match s with
    | 'n' :: r => (afterWord ['u', 'l', 'l'] r).map fun r => (.null, r)
    | 't' :: r => (afterWord ['r', 'u', 'e'] r).map fun r => (.bool true, r)
    | 'f' :: r => (afterWord ['a', 'l', 's', 'e'] r).map fun r => (.bool false, r)
    | '"' :: r => (readString '"' r).map fun (cs, r) => (.text (String.ofList cs), r)
    | '\'' :: r => (readString '\'' r).map fun (cs, r) => (.text (String.ofList cs), r)
    | '[' :: r => (readItems fuel (skip r)).map fun (vs, r) => (.list vs, r)
    | '\x7b' :: r => (readMembers fuel (skip r)).map fun (fs, r) => (.ofFields fs, r)
    | s => readNumber s

def readItems : Nat → List Char → Option (List Config × Rest)
  | 0, _ => none
  | fuel + 1, s =>
    match s with
    | ']' :: r => some ([], r)
    | s => do
      let (item, r) ← readValue fuel s
      match skip r with
      | ']' :: r => return ([item], r)
      | ',' :: r =>
        let (items, r) ← readItems fuel (skip r)
        return (item :: items, r)
      | _ => none

def readMembers : Nat → List Char → Option (List (String × Config) × Rest)
  | 0, _ => none
  | fuel + 1, s =>
    match s with
    | '\x7d' :: r => some ([], r)
    | s => do
      let (key, r) ← readKey s
      let (value, r) ← readValue fuel (skip (← after ':' (skip r)))
      let member := (String.ofList key, value)
      match skip r with
      | '\x7d' :: r => return ([member], r)
      | ',' :: r =>
        let (members, r) ← readMembers fuel (skip r)
        return (member :: members, r)
      | _ => none

end

def parse (text : String) : Option Config := do
  let (v, r) ← readValue (text.length + 1) (skip text.toList)
  if (skip r).isEmpty then some v else none

end SchemaGraph.Json5
