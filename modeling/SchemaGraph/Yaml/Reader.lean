import SchemaGraph.Yaml.Flow

/-!
YAML documents from text: lists and maps by indentation. Anchors and tags are not read.
-/

namespace SchemaGraph.Yaml

open Text (Rest)

/-! ### Lines -/

/-- A line by its indentation and what follows it. -/
structure Line where
  indent : Nat
  body : List Char

namespace Line

def ofChars (s : List Char) : Line :=
  let s := if s.getLast? = some '\r' then s.dropLast else s
  let (indentation, body) := s.span (· = ' ')
  ⟨indentation.length, body⟩

/-- The line without the white space around it, or nothing if it is a comment. -/
def text (l : Line) : List Char :=
  if l.body.head? = some '#' then [] else trimEnd l.body

def isBlank (l : Line) : Bool :=
  l.text.isEmpty

/-- The line from a column on. -/
def contentFrom (column : Nat) (l : Line) : List Char :=
  List.replicate (l.indent - column) ' ' ++ l.body

end Line

/-- The lines of a text. A line break at its end starts no further line. -/
def linesOf (text : String) : List Line :=
  let lines := Text.pieces '\n' text.toList
  (if lines.getLast? = some [] then lines.dropLast else lines).map Line.ofChars

/-! ### Entries -/

/-- What follows the dash of a list item. -/
def item? : List Char → Option Rest
  | ['-'] => some []
  | '-' :: c :: s => if isBlank c then some (c :: s) else none
  | _ => none

/-- What follows a colon that ends a key. -/
def afterColon? : List Char → Option Rest
  | [':'] => some []
  | ':' :: c :: s => if isSpace c then some (c :: s) else none
  | _ => none

/-- A plain key and what follows its colon. -/
def plainKey? : List Char → Option (List Char × Rest)
  | [] => none
  | ' ' :: '#' :: _ => none
  | c :: s =>
    match afterColon? (c :: s) with
    | some rest => some ([], rest)
    | none => (plainKey? s).map fun (key, rest) => (c :: key, rest)

/-- The key of a map entry and what follows its colon. -/
def keyed? (s : List Char) : Option (Config × Rest) :=
  match s with
  | '"' :: r => do
    let (key, r) ← readDouble r
    return (.text (String.ofList key), ← afterColon? (skipBlank r))
  | '\'' :: r => do
    let (key, r) ← readSingle r
    return (.text (String.ofList key), ← afterColon? (skipBlank r))
  | s =>
    if startsPlain s then do
      let (key, r) ← plainKey? s
      return (← resolve (trimEnd key), r)
    else none

/-- What is left of a line behind a dash or colon; a comment does not count. -/
def remainder (s : List Char) : List Char :=
  match skipBlank s with
  | '#' :: _ => []
  | r => r

/-! ### Values that are not blocks of items or entries

Each is read from the rest of the line that it starts on and the lines below. Those that belong to
it have to be indented by `floor` at least, so `floor` is 0 at the top of a document. -/

/-- A plain scalar's lines without the comment after the last of them. -/
def plainLines : List (List Char) → Option (List (List Char))
  | [] => some []
  | s :: rest =>
    let bare := trimEnd ((withoutComment (' ' :: s)).drop 1)
    if bare = trimEnd s then (plainLines rest).map (bare :: ·)
    else if rest.all fun t => (trimEnd t).isEmpty || t.head? = some '#' then some [bare]
    else none

def readPlainLines (floor : Nat) (first : List Char) (lines : List Line) :
    Option (Config × List Line) := do
  let (below, rest) := lines.span fun l => l.isBlank || floor ≤ l.indent
  match ← plainLines (first :: below.map Line.body) with
  | [] => none
  | s :: more =>
    let text := s ++ (joinLines true false 1 more).1
    if !startsPlain text || (plainKey? text).isSome then none
    else return (← resolve text, rest)

/-- A quoted scalar, or a list or map in brackets. The lines after the first may be indented by one
less than `floor`. -/
def readFlowLines (floor : Nat) (first : List Char) (lines : List Line) :
    Option (Config × List Line) := do
  let text := first ++ lines.flatMap fun l => '\n' :: l.contentFrom 0
  let (value, r) ← readFlow (text.length + 2) text
  let (behind, below) := r.span (· ≠ '\n')
  let (taken, rest) := lines.splitAt (lines.length - below.count '\n')
  if isDone behind && taken.all fun l => l.isBlank || floor ≤ l.indent + 1 then
    some (value, rest)
  else none

/-- The column where the content of a block scalar starts: that of its first line, unless the style
gives another one. -/
def BlockStyle.column (b : BlockStyle) (floor : Nat) (lines : List Line) : Nat :=
  match b.step? with
  | some n => floor - 1 + n
  | none =>
    let (empty, rest) := lines.span fun l => l.body.isEmpty
    ((empty ++ rest.take 1).map Line.indent).foldl max (max floor 1)

def readBlockScalar (b : BlockStyle) (floor : Nat) (lines : List Line) : Config × List Line :=
  let column := b.column floor lines
  let (inside, rest) := lines.span fun l => l.body.isEmpty || column ≤ l.indent
  (.text (String.ofList (b.textOf (inside.map (Line.contentFrom column)))), rest)

def readValue (floor : Nat) (first : List Char) (lines : List Line) :
    Option (Config × List Line) :=
  match blockStyle? first with
  | some b => some (readBlockScalar b floor lines)
  | none =>
    if (first.head?.map ['"', '\'', '[', '\x7b'].contains).getD false then
      readFlowLines floor first lines
    else readPlainLines floor first lines

/-! ### Blocks -/

/-- The lines up to the next one at this indentation, and the lines from there on. A list that is
the value of a map entry need not be indented. -/
def block (indent : Nat) (holdsItems : Bool) (lines : List Line) : List Line × List Line :=
  lines.span fun l =>
    l.isBlank || indent < l.indent || (holdsItems && l.indent = indent && (item? l.text).isSome)

mutual

/-- The value of lines. Each line and each level of nesting takes one from `fuel`. -/
def readBlock : Nat → Nat → List Line → Option Config
  | 0, _, _ => none
  | fuel + 1, floor, lines =>
    match lines.dropWhile Line.isBlank with
    | [] => some .null
    | l :: rest =>
      if (item? l.text).isSome then (readItemLines fuel l.indent (l :: rest)).map .list
      else if (keyed? l.text).isSome then do
        tableOf? (← readEntryLines fuel l.indent (l :: rest))
      else do
        let (value, rest) ← readValue floor l.text rest
        if rest.all Line.isBlank then some value else none

def readItemLines : Nat → Nat → List Line → Option (List Config)
  | 0, _, _ => none
  | fuel + 1, indent, lines =>
    match lines.dropWhile Line.isBlank with
    | [] => some []
    | l :: rest => do
      if l.indent ≠ indent then none
      let behind ← item? l.text
      let r := remainder behind
      let (below, rest) := block indent false rest
      let first : Line := ⟨indent + 1 + (behind.length - r.length), r⟩
      let item ← readBlock fuel (indent + 1) (first :: below)
      return item :: (← readItemLines fuel indent rest)

def readEntryLines : Nat → Nat → List Line → Option (List (String × Config))
  | 0, _, _ => none
  | fuel + 1, indent, lines =>
    match lines.dropWhile Line.isBlank with
    | [] => some []
    | l :: rest => do
      if l.indent ≠ indent then none
      let (key, behind) ← keyed? l.text
      let key ← keyOf? key
      let r := remainder behind
      let (value, rest) ←
        if r.isEmpty then
          let (below, rest) := block indent true rest
          (readBlock fuel (indent + 1) below).map fun value => (value, rest)
        else readValue (indent + 1) r rest
      return (key, value) :: (← readEntryLines fuel indent rest)

end

/-! ### Documents -/

def isMarker (marker : String) (l : Line) : Bool :=
  l.indent = 0 && String.ofList l.text = marker

/-- The lines of a single document, without the markers around it. -/
def documentLines (lines : List Line) : Option (List Line) :=
  let lines := lines.dropWhile Line.isBlank
  let lines := if (lines.head?.map (isMarker "---")).getD false then lines.tail else lines
  let (body, rest) := lines.span fun l => !isMarker "..." l
  if body.any (isMarker "---") ∨ !rest.tail.all Line.isBlank then none else some body

/-- The value that a text spells; an empty text is an empty table. -/
def parse (text : String) : Option Config := do
  let lines ← documentLines (linesOf text)
  if lines.all Line.isBlank then some .empty
  else readBlock (2 * text.length + 4) 0 lines

end SchemaGraph.Yaml
