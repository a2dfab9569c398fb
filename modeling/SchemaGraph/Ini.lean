import SchemaGraph.Config
import SchemaGraph.Text.Blank
import SchemaGraph.Text.Reading

/-!
INI files: sections with keys and texts. A comment has a line of its own, from its first character
on. A value ends with its line; what is in quotes in it keeps its white space and its line breaks.
-/

namespace SchemaGraph.Ini

open Text (Rest prepend prepend? scalar?)

def isSpace (c : Char) : Bool :=
  c == ' ' || c == '\n' || c == '\t' || c == '\r'

def isBreak (c : Char) : Bool :=
  c == '\n' || c == '\r'

def unescape : Char → Char
  | '0' => '\x00'
  | 'a' => '\x07'
  | 'b' => '\x08'
  | 't' => '\t'
  | 'r' => '\r'
  | 'n' => '\n'
  | c => c

/-- The text before the first character that `stops`, its escapes undone. `openEnd` says that the
text may also end. -/
def readUntil (stops : Char → Bool) (openEnd : Bool) : List Char → Option (List Char × Rest)
  | [] => if openEnd then some ([], []) else none
  | ['\\'] => if openEnd then some (['\\'], []) else none
  | '\\' :: '\n' :: s => readUntil stops openEnd s
  | '\\' :: 'x' :: a :: b :: c :: d :: s =>
    prepend? (scalar? [a, b, c, d]) (readUntil stops openEnd s)
  | '\\' :: c :: s => prepend [unescape c] (readUntil stops openEnd s)
  | c :: s => if stops c then some ([], c :: s) else prepend [c] (readUntil stops openEnd s)

/-- A value, from its first character that is not white space: parts in quotes, and then the rest of
the line, trimmed at its end and, if nothing is before it, at its front. -/
def readValue : Nat → Bool → List Char → Option (List Char × Rest)
  | 0, _, _ => none
  | fuel + 1, isFirst, s =>
    match s with
    | [] => some ([], [])
    | c :: r =>
      if c = '"' ∨ c = '\'' then do
        let (quoted, r) ← readUntil (· = c) false r
        prepend quoted (readValue fuel false r.tail)
      else do
        let (line, r) ← readUntil isBreak true s
        let line := if isFirst then line.dropWhile Text.isBlank else line
        return ((line.reverse.dropWhile Text.isBlank).reverse, r)

/-- A section that begins, or a key with its value. -/
inductive Entry where
  | section (name : String)
  | value (key text : String)

def trimmed (s : List Char) : String :=
  String.ofList (Text.trimChars s)

def readEntry (s : List Char) : Option (Entry × Rest) :=
  match s with
  | '[' :: s => do
    let (name, r) ← readUntil (· = ']') false s
    return (.section (trimmed name), r.tail)
  | s => do
    let (key, r) ← readUntil (fun c => c = '=' || c = ':') false s
    if trimmed key = "" then none
    let r := r.tail.dropWhile fun c => c = ' ' || c = '\t'
    let (value, r) ← readValue (r.length + 1) true r
    return (.value (trimmed key) (String.ofList value), r)

/-- Whether white space ends with a line break. -/
def endsLine (space : List Char) : Bool :=
  space.getLast? = some '\n'

/-- All entries. Each takes one from `fuel` and at least one character; `fresh` says that the text
is at the first character of a line. -/
def readEntries : Nat → Bool → List Char → Option (List Entry)
  | 0, _, _ => none
  | fuel + 1, fresh, s =>
    let (space, r) := s.span isSpace
    let fresh := if space.isEmpty then fresh else endsLine space
    match r with
    | [] => some []
    | ';' :: r | '#' :: r =>
      if fresh then readEntries fuel false (r.dropWhile (· ≠ '\n')) else none
    | r => do
      let (entry, r) ← readEntry r
      return entry :: (← readEntries fuel false r)

/-- Adds entries to a table. A section that comes again takes the place of the earlier one. -/
def collect (table : Config) (name : Option String) : List Entry → Config
  | [] => table
  | .section name :: es => collect (table.setField name .empty) (some name) es
  | .value key text :: es =>
    match name with
    | none => collect (table.setField key (.text text)) none es
    | some n =>
      let fields := ((table.field? n).getD .empty).setField key (.text text)
      collect (table.setField n fields) name es

def parse (text : String) : Option Config :=
  (readEntries (text.length + 1) true text.toList).map (collect .empty none)

end SchemaGraph.Ini
