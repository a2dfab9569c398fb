import SchemaGraph.Decimal.FloatReader
import SchemaGraph.Text.Pieces
import SchemaGraph.Toml.Moment
import SchemaGraph.Toml.Sections
import SchemaGraph.Toml.Strings

/-!
TOML documents from text. Keys and nested values have a limited depth.
-/

namespace SchemaGraph.Toml

open Text (Rest)

/-! ### Scalars -/

def isWordPart (c : Char) : Bool :=
  c.isAlphanum || c == '_' || c == '+' || c == '-' || c == '.'

/-- A run of digits in which single underscores may stand between two of them. -/
def plainDigits? (isDigit : Char → Bool) (s : List Char) : Option (List Char) :=
  let runs := Text.pieces '_' s
  if runs.all fun r => !r.isEmpty && r.all isDigit then some runs.flatten else none

def valueInBase (base : Nat) (digits : List Char) : Option Nat :=
  digits.foldlM (fun n c => (Text.hexValue? c).map (n * base + ·)) 0

/-- An integer in a base other than ten. -/
def readBase? : List Char → Option Nat
  | '0' :: 'x' :: s => (plainDigits? (fun c => (Text.hexValue? c).isSome) s).bind (valueInBase 16)
  | '0' :: 'o' :: s => (plainDigits? (fun c => '0' ≤ c && c ≤ '7') s).bind (valueInBase 8)
  | '0' :: 'b' :: s => (plainDigits? (fun c => c == '0' || c == '1') s).bind (valueInBase 2)
  | _ => none

/-- Decimal digits, the first of which is zero only if it is the only one. -/
def wholeDigits? (s : List Char) : Option (List Char) :=
  match s with
  | '0' :: _ :: _ => none
  | s => plainDigits? Char.isDigit s

def readInteger? (s : List Char) : Option Int := do
  let i : Int ← match readBase? s with
    | some n => some (n : Int)
    | none =>
      let (negative, digits) := Decimal.splitSign s
      (wholeDigits? digits).map fun ds =>
        let n : Int := Decimal.valueOfDigits 0 ds
        if negative then -n else n
  if Decimal.isInt64 i then some i else none

/-- Whether the text after the sign of a float has the right form: a whole number, then a fraction
or an exponent or both. -/
def isFloatForm (s : List Char) : Bool :=
  let isExponentMark (c : Char) : Bool := c == 'e' || c == 'E'
  let (mantissa, exponent) := s.span fun c => !isExponentMark c
  let exponentOk := match exponent with
    | [] => mantissa.contains '.'
    | _ :: e => (plainDigits? Char.isDigit (Decimal.splitSign e).2).isSome
  let mantissaOk := match Text.cutAt '.' mantissa with
    | none => (wholeDigits? mantissa).isSome
    | some (whole, fraction) =>
      (wholeDigits? whole).isSome && (plainDigits? Char.isDigit fraction).isSome
  mantissaOk && exponentOk

def readFloatWord? (s : List Char) : Option Decimal.Binary64 :=
  let (negative, magnitude) := Decimal.splitSign s
  if magnitude = ['i', 'n', 'f'] then some (Decimal.Binary64.infinity negative)
  else if magnitude = ['n', 'a', 'n'] then some (Decimal.nan negative)
  else if isFloatForm magnitude then
    (Decimal.readFloat? (s.filter (· ≠ '_'))).filter (· ≠ Decimal.Binary64.infinity false)
  else none

def readWord? (s : List Char) : Option Config :=
  if s = ['t', 'r', 'u', 'e'] then some (.bool true)
  else if s = ['f', 'a', 'l', 's', 'e'] then some (.bool false)
  else ((readInteger? s).map Config.integer).orElse fun _ => (readFloatWord? s).map Config.float

/-! ### Keys -/

def isBareKeyPart (c : Char) : Bool :=
  c.isAlphanum || c == '_' || c == '-'

def skipGap (s : List Char) : List Char :=
  s.dropWhile isGap

/-- One part of a key: bare, or a string on one line. -/
def readKeyPart (s : List Char) : Option (String × Rest) :=
  match s with
  | '"' :: r => (readBasic r).map fun (k, r) => (String.ofList k, r)
  | '\'' :: r => (readLiteral r).map fun (k, r) => (String.ofList k, r)
  | s =>
    let (k, r) := s.span isBareKeyPart
    if k.isEmpty then none else some (String.ofList k, r)

/-- How many parts a key may have, and how many lists and tables may be around a value. -/
def depthLimit : Nat := 79

/-- A key of at most `limit` parts, with dots between them: the parts before the last, and the
last. -/
def readKeyParts : Nat → List Char → Option ((List String × String) × Rest)
  | 0, _ => none
  | limit + 1, s => do
    let (part, r) ← readKeyPart (skipGap s)
    match skipGap r with
    | '.' :: r =>
      let ((path, last), r) ← readKeyParts limit r
      return ((part :: path, last), r)
    | r => return (([], part), r)

def readKey (s : List Char) : Option ((List String × String) × Rest) :=
  readKeyParts depthLimit s

/-! ### Values -/

/-- What follows a comment, which begins with `#`. -/
def skipComment : List Char → Option Rest
  | '#' :: s =>
    match s.dropWhile isPlain with
    | [] => some []
    | '\n' :: r => some ('\n' :: r)
    | '\r' :: '\n' :: r => some ('\r' :: '\n' :: r)
    | _ => none
  | s => some s

/-- Skips white space, line breaks and comments. -/
def skipLines : Nat → List Char → Option Rest
  | 0, _ => none
  | fuel + 1, s =>
    match skipGap s with
    | '\n' :: r | '\r' :: '\n' :: r => skipLines fuel r
    | '#' :: r => (skipComment ('#' :: r)).bind (skipLines fuel)
    | r => some r

mutual

/-- A value at the front of the text, with at most `levels` lists and tables around a value in it.
Each level, and each item, takes one from `fuel` and at least one character from the text. -/
def readValue : Nat → Nat → List Char → Option (Config × Rest)
  | 0, _, _ => none
  | fuel + 1, levels, s =>
    match s, levels with
    | '[' :: _, 0 | '\x7b' :: _, 0 => none
    | '[' :: r, levels + 1 => do
      let (items, r) ← readItems fuel levels r
      return (.list items, r)
    | '\x7b' :: r, levels + 1 =>
      match skipGap r with
      | '\x7d' :: r => some (.table [], r)
      | r => do
        let (entries, r) ← readPairs fuel levels [] r
        return (.table (fieldsOf entries), r)
    | '"' :: _, _ | '\'' :: _, _ => (readString s).map fun (cs, r) => (.text (String.ofList cs), r)
    | s, _ =>
      match readMoment s with
      | some (moment, r) => some (.text (String.ofList moment), r)
      | none =>
        let (word, r) := s.span isWordPart
        (readWord? word).map fun v => (v, r)

/-- The items of a list, up to its closing bracket. A comma may follow the last. -/
def readItems : Nat → Nat → List Char → Option (List Config × Rest)
  | 0, _, _ => none
  | fuel + 1, levels, s => do
    match ← skipLines (s.length + 1) s with
    | ']' :: r => return ([], r)
    | r =>
      let (item, r) ← readValue fuel levels r
      match ← skipLines (r.length + 1) r with
      | ']' :: r => return ([item], r)
      | ',' :: r =>
        let (items, r) ← readItems fuel levels r
        return (item :: items, r)
      | _ => none

/-- The pairs of an inline table, which stand on one line with commas between them. -/
def readPairs : Nat → Nat → Entries → List Char → Option (Entries × Rest)
  | 0, _, _, _ => none
  | fuel + 1, levels, entries, s => do
    let ((path, key), r) ← readKey s
    match r with
    | '=' :: r =>
      let (v, r) ← readValue fuel levels (skipGap r)
      let entries ← Entries.addDotted path key v entries
      match skipGap r with
      | '\x7d' :: r => return (entries, r)
      | ',' :: r => readPairs fuel levels entries r
      | _ => none
    | _ => none

end

/-! ### Documents -/

/-- What follows the end of a line, with nothing but white space and a comment before it. -/
def endLine (s : List Char) : Option Rest := do
  match ← skipComment (skipGap s) with
  | [] => some []
  | '\n' :: r | '\r' :: '\n' :: r => some r
  | _ => none

/-- A document up to a point: its entries, and the table that lines are added to. -/
structure Reading where
  entries : Entries := []
  current : List String := []

/-- Opens a table with `edit` and goes on there. -/
def Reading.enter (p : Reading) (edit : String → Edit) (path : List String) (key : String) :
    Option Reading := do
  let entries ← Entries.editAt .passed (edit key) path p.entries
  return { entries, current := path ++ [key] }

/-- Adds an entry to the table that is open. -/
def Reading.add (p : Reading) (path : List String) (key : String) (v : Config) :
    Option Reading := do
  let entries ← Entries.editAt .passed (Entries.addDotted path key v) p.current p.entries
  return { p with entries }

/-- One line that is not blank. -/
def readLine (p : Reading) (s : List Char) : Option (Reading × Rest) := do
  match s with
  | '[' :: '[' :: r =>
    let ((path, key), r) ← readKey r
    match r with
    | ']' :: ']' :: r => return (← p.enter Entries.openItem path key, ← endLine r)
    | _ => none
  | '[' :: r =>
    let ((path, key), r) ← readKey r
    match r with
    | ']' :: r => return (← p.enter Entries.openTable path key, ← endLine r)
    | _ => none
  | s =>
    let ((path, key), r) ← readKey s
    match r with
    | '=' :: r =>
      let (v, r) ← readValue (r.length + 1) depthLimit (skipGap r)
      return (← p.add path key v, ← endLine r)
    | _ => none

/-- All lines of a document. Each takes one from `fuel` and at least one character. -/
def readLines : Nat → Reading → List Char → Option Reading
  | 0, _, _ => none
  | fuel + 1, p, s => do
    match ← skipLines (s.length + 1) s with
    | [] => return p
    | s =>
      let (p, r) ← readLine p s
      readLines fuel p r

/-- The table that a text spells. A byte order mark in front does not count. -/
def parse (text : String) : Option Config :=
  let s := match text.toList with
    | '\ufeff' :: s => s
    | s => s
  (readLines (s.length + 1) {} s).map fun p => .table (fieldsOf p.entries)

end SchemaGraph.Toml
