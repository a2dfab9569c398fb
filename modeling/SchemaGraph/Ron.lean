import SchemaGraph.Config
import SchemaGraph.Text.Reading

/-!
RON, a notation for records: `(name: value)` with or without a type name, maps in braces, lists in
brackets or, without field names, in parentheses, and `Some(value)` or `None` for what may be
missing.
-/

namespace SchemaGraph.Ron

open Text (Rest prepend prepend? scalar? after afterWord)

def isSpace (c : Char) : Bool :=
  c == ' ' || c == '\n' || c == '\t' || c == '\r'

def skip (s : List Char) : Rest :=
  Text.skipComments isSpace .none s

/-! ### Scalars -/

def unescape? : Char → Option Char
  | '\'' => some '\''
  | '"' => some '"'
  | '\\' => some '\\'
  | 'n' => some '\n'
  | 'r' => some '\r'
  | 't' => some '\t'
  | '0' => some '\x00'
  | _ => none

/-- Text up to the closing quote. -/
def readQuoted (quote : Char) : List Char → Option (List Char × Rest)
  | [] => none
  | '\\' :: 'x' :: a :: b :: s => prepend? (scalar? [a, b]) (readQuoted quote s)
  | '\\' :: c :: s => prepend? (unescape? c) (readQuoted quote s)
  | c :: s => if c = quote then some ([], s) else prepend [c] (readQuoted quote s)

/-- Text without escapes, up to a quote with as many number signs as there are in front. -/
def readRaw (closing : List Char) : List Char → Option (List Char × Rest)
  | [] => none
  | c :: s =>
    match afterWord closing (c :: s) with
    | some rest => some ([], rest)
    | none => prepend [c] (readRaw closing s)

def isNameStart (c : Char) : Bool :=
  c.isAlpha || c == '_'

def isNamePart (c : Char) : Bool :=
  c.isAlphanum || c == '_'

def isNumberPart (c : Char) : Bool :=
  c.isAlphanum || c == '.' || c == '+' || c == '-' || c == '_'

/-- A number; underscores in it do not count. -/
def number? (word : List Char) : Option Config :=
  let (negative, digits) := Decimal.splitSign (word.filter (· ≠ '_'))
  match digits with
  | '0' :: 'x' :: ds => do
    let n ← if ds.isEmpty then none else Text.hexNumber? ds
    let i : Int := if negative then -n else n
    if Decimal.isInt64 i then some (.integer i) else none
  | ['i', 'n', 'f'] => some (.float (Decimal.Binary64.infinity negative))
  | ['N', 'a', 'N'] => some (.float (Decimal.nan negative))
  | ds => Config.ofNumber? (if negative then '-' :: ds else ds)

def word (name : List Char) : Config :=
  match String.ofList name with
  | "true" => .bool true
  | "false" => .bool false
  | _ => .null

/-! ### Values -/

def hasFieldName (s : List Char) : Bool :=
  match s.span isNamePart with
  | (c :: _, r) => isNameStart c && (skip r).head? == some ':'
  | ([], _) => false

mutual

/-- The value at the front of a text, which has no white space there. Each level of nesting, and
each item, takes one from `fuel` and at least one character from the text. -/
def readValue : Nat → List Char → Option (Config × Rest)
  | 0, _ => none
  | fuel + 1, s =>
    match s with
    | '"' :: r => (readQuoted '"' r).map fun (cs, r) => (.text (String.ofList cs), r)
    | '\'' :: r => (readQuoted '\'' r).map fun (cs, r) => (.text (String.ofList cs), r)
    | 'r' :: '"' :: r => (readRaw ['"'] r).map fun (cs, r) => (.text (String.ofList cs), r)
    | 'r' :: '#' :: r =>
      let (signs, r) := ('#' :: r).span (· = '#')
      match r with
      | '"' :: r => (readRaw ('"' :: signs) r).map fun (cs, r) => (.text (String.ofList cs), r)
      | _ => none
    | '[' :: r => (readItems fuel ']' (skip r)).map fun (vs, r) => (.list vs, r)
    | '\x7b' :: r => (readPairs fuel (skip r)).map fun (fs, r) => (.ofFields fs, r)
    | '(' :: r => readGroup fuel (skip r)
    | c :: _ =>
      if isNameStart c then
        let (name, r) := s.span isNamePart
        match name, skip r with
        | ['i', 'n', 'f'], _ | ['N', 'a', 'N'], _ => (number? name).map fun v => (v, r)
        | ['S', 'o', 'm', 'e'], '(' :: r => do
          let (v, r) ← readValue fuel (skip r)
          return (v, ← after ')' (skip r))
        | _, '(' :: r => readGroup fuel (skip r)
        | _, _ => some (word name, r)
      else
        let (digits, r) := s.span isNumberPart
        (number? digits).map fun v => (v, r)
    | [] => none

/-- What is in parentheses: fields, items, or nothing. -/
def readGroup : Nat → List Char → Option (Config × Rest)
  | 0, _ => none
  | fuel + 1, s =>
    match s with
    | ')' :: r => some (.null, r)
    | s =>
      if hasFieldName s then (readFields fuel s).map fun (fs, r) => (.ofFields fs, r)
      else (readItems fuel ')' s).map fun (vs, r) => (.list vs, r)

def readItems : Nat → Char → List Char → Option (List Config × Rest)
  | 0, _, _ => none
  | fuel + 1, closing, s =>
    match after closing s with
    | some r => some ([], r)
    | none => do
      let (item, r) ← readValue fuel s
      let r := skip r
      match after closing r with
      | some r => return ([item], r)
      | none =>
        let (items, r) ← readItems fuel closing (skip (← after ',' r))
        return (item :: items, r)

def readFields : Nat → List Char → Option (List (String × Config) × Rest)
  | 0, _ => none
  | fuel + 1, s =>
    match s with
    | ')' :: r => some ([], r)
    | s => do
      let (name, r) := s.span isNamePart
      let (value, r) ← readValue fuel (skip (← after ':' (skip r)))
      let field := (String.ofList name, value)
      match skip r with
      | ')' :: r => return ([field], r)
      | ',' :: r =>
        let (fields, r) ← readFields fuel (skip r)
        return (field :: fields, r)
      | _ => none

/-- Pairs up to a closing brace. Their keys have to be texts. -/
def readPairs : Nat → List Char → Option (List (String × Config) × Rest)
  | 0, _ => none
  | fuel + 1, s =>
    match s with
    | '\x7d' :: r => some ([], r)
    | s => do
      let (key, r) ← readValue fuel s
      let key ← match key with
        | .text k => some k
        | _ => none
      let (value, r) ← readValue fuel (skip (← after ':' (skip r)))
      match skip r with
      | '\x7d' :: r => return ([(key, value)], r)
      | ',' :: r =>
        let (pairs, r) ← readPairs fuel (skip r)
        return ((key, value) :: pairs, r)
      | _ => none

end

def parse (text : String) : Option Config := do
  let (v, r) ← readValue (text.length + 1) (skip text.toList)
  if (skip r).isEmpty then some v else none

end SchemaGraph.Ron
