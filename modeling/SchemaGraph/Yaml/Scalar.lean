import SchemaGraph.Config
import SchemaGraph.Text.Pieces
import SchemaGraph.Text.Reading

/-!
Scalars in YAML: what their text stands for, and how several lines of text become one. A plain
scalar is a number, a truth value or null if it looks like one, and text otherwise.
-/

namespace SchemaGraph.Yaml

open Text (Rest prepend scalar?)

def isBlank (c : Char) : Bool :=
  c == ' ' || c == '\t'

/-- White space, line breaks among it. -/
def isSpace (c : Char) : Bool :=
  isBlank c || c == '\n'

def skipBlank (s : List Char) : Rest :=
  s.dropWhile isBlank

def trimEnd (s : List Char) : List Char :=
  (s.reverse.dropWhile isBlank).reverse

/-! ### Plain scalars -/

/-- Words for floats that no configuration can hold. -/
def unreadableWords : List String :=
  [".inf", ".Inf", ".INF", "+.inf", "+.Inf", "+.INF", "-.inf", "-.Inf", "-.INF", ".nan", ".NAN"]

/-- A number with hexadecimal or octal digits. -/
def readBase? : List Char → Option Nat
  | '0' :: 'x' :: c :: ds => Text.hexNumber? (c :: ds)
  | '0' :: 'o' :: c :: ds =>
    if (c :: ds).all fun d => '0' ≤ d && d ≤ '7' then
      some ((c :: ds).foldl (fun n d => n * 8 + Decimal.digitValue d) 0)
    else none
  | _ => none

/-- The integer or float that a plain scalar looks like. -/
def number? (s : List Char) : Option Config :=
  let integer? := ((readBase? s).map Int.ofNat).orElse fun _ => Decimal.readInt? s
  match integer?.filter Decimal.isInt64 with
  | some i => some (.integer i)
  | none => if s.any Char.isDigit then (Decimal.readFloat? s).map .float else none

def resolve (s : List Char) : Option Config :=
  match String.ofList s with
  | "" | "~" | "null" => some .null
  | "true" => some (.bool true)
  | "false" => some (.bool false)
  | text => if unreadableWords.contains text then none else some ((number? s).getD (.text text))

/-- Whether a character can only be at the front of something other than a plain scalar. -/
def isIndicator (c : Char) : Bool :=
  [',', '[', ']', '\x7b', '\x7d', '#', '&', '*', '!', '|', '>', '\'', '"', '%', '@',
    '\x60'].contains c

/-- Whether a plain scalar can start here. Of the marks for items and keys, it can start with one
that no white space follows. -/
def startsPlain : List Char → Bool
  | [] => false
  | c :: s =>
    !isIndicator c &&
      (!(c == '-' || c == '?' || c == ':') || (s.head?.map fun d => !isSpace d).getD false)

/-! ### Lines of a scalar -/

/-- The line breaks between two lines where lines are folded: one counts as a space, and of more
than one the first does not count. -/
def foldBreaks : Nat → List Char
  | 1 => [' ']
  | n => List.replicate (n - 1) '\n'

/-- The text of lines, and how many line breaks come after the last of them that is not empty.
There are `breaks` line breaks in front. Where lines are folded, one that starts with white space
keeps the line breaks around it, and `spaced` tells whether the line in front does. -/
def joinLines (folds : Bool) : Bool → Nat → List (List Char) → List Char × Nat
  | _, breaks, [] => ([], breaks)
  | spaced, breaks, s :: rest =>
    if s.isEmpty then joinLines folds spaced (breaks + 1) rest
    else
      let indented := (s.head?.map isBlank).getD false
      let gap :=
        if folds && !spaced && !indented then foldBreaks breaks else List.replicate breaks '\n'
      let (text, breaks) := joinLines folds indented 1 rest
      (gap ++ s ++ text, breaks)

/-- Lines without the white space around them, save that at the end of the last one. -/
def trimInner : List (List Char) → List (List Char)
  | [] => []
  | [s] => [skipBlank s]
  | s :: rest => trimEnd (skipBlank s) :: trimInner rest

def foldText (s : List Char) : List Char :=
  match Text.pieces '\n' s with
  | first :: second :: rest =>
    let (text, breaks) := joinLines true false 1 (trimInner (second :: rest))
    trimEnd first ++ text ++ foldBreaks (breaks - 1)
  | _ => s

/-! ### Quoted scalars -/

/-- The character that an escape stands for. -/
def unescape? : Char → Option Char
  | '0' => some '\x00'
  | 'a' => some '\x07'
  | 'b' => some '\x08'
  | 't' | '\t' => some '\t'
  | 'n' => some '\n'
  | 'v' => some '\x0b'
  | 'f' => some '\x0c'
  | 'r' => some '\r'
  | 'e' => some '\x1b'
  | ' ' => some ' '
  | '"' => some '"'
  | '/' => some '/'
  | '\\' => some '\\'
  | 'N' => some '\u0085'
  | '_' => some '\u00a0'
  | 'L' => some '\u2028'
  | 'P' => some '\u2029'
  | _ => none

def putChar? (c : Option Char) (s : Option (List Char)) : Option (List Char) := do
  return (← c) :: (← s)

def unescape : List Char → Option (List Char)
  | [] => some []
  | '\\' :: 'x' :: a :: b :: s => putChar? (scalar? [a, b]) (unescape s)
  | '\\' :: 'u' :: a :: b :: c :: d :: s => putChar? (scalar? [a, b, c, d]) (unescape s)
  | '\\' :: 'U' :: a :: b :: c :: d :: e :: f :: g :: h :: s =>
    putChar? (scalar? [a, b, c, d, e, f, g, h]) (unescape s)
  | '\\' :: c :: s => putChar? (unescape? c) (unescape s)
  | c :: s => putChar? (some c) (unescape s)

/-- A text without the line breaks that are escaped, and the white space after them. -/
def joinEscaped : Bool → List Char → List Char
  | _, [] => []
  | _, '\\' :: '\n' :: s => joinEscaped true s
  | _, '\\' :: c :: s => '\\' :: c :: joinEscaped false s
  | skips, c :: s =>
    if skips && isBlank c then joinEscaped true s else c :: joinEscaped false s

/-- What comes before the double quote that ends a scalar, with its escapes, and what follows. -/
def upToQuote : List Char → Option (List Char × Rest)
  | [] => none
  | '"' :: s => some ([], s)
  | '\\' :: c :: s => prepend ['\\', c] (upToQuote s)
  | c :: s => prepend [c] (upToQuote s)

/-- What comes before the single quote that ends a scalar, and what follows. A quote in it is
written twice. -/
def upToApostrophe : List Char → Option (List Char × Rest)
  | [] => none
  | '\'' :: '\'' :: s => prepend ['\''] (upToApostrophe s)
  | '\'' :: s => some ([], s)
  | c :: s => prepend [c] (upToApostrophe s)

def readDouble (s : List Char) : Option (List Char × Rest) := do
  let (inner, r) ← upToQuote s
  return (← unescape (foldText (joinEscaped false inner)), r)

def readSingle (s : List Char) : Option (List Char × Rest) :=
  (upToApostrophe s).map fun (inner, r) => (foldText inner, r)

/-! ### Comments behind a scalar -/

/-- A text without the comment at its end. -/
def withoutComment : List Char → List Char
  | [] => []
  | ' ' :: '#' :: _ | '\t' :: '#' :: _ => []
  | c :: s => c :: withoutComment s

/-- Whether nothing but a comment follows, which has white space before it. -/
def isDone (s : List Char) : Bool :=
  match skipBlank s with
  | [] => true
  | '#' :: r => r.length + 1 ≠ s.length
  | _ => false

/-! ### Block scalars -/

/-- What becomes of the line breaks at the end of a block scalar: all are cut off, one is kept, or
all are kept. -/
inductive Ending where
  | strip
  | clip
  | keep
  deriving DecidableEq

/-- How a block scalar is to be read: whether its lines are folded, what becomes of its end, and
how far it is indented, if that is said. -/
structure BlockStyle where
  folds : Bool
  ending : Ending
  step? : Option Nat

def ending? : Char → Option Ending
  | '-' => some .strip
  | '+' => some .keep
  | _ => none

def step? (c : Char) : Option Nat :=
  if '1' ≤ c && c ≤ '9' then some (Decimal.digitValue c) else none

/-- The style that the marks behind `|` or `>` spell, in either order. -/
def marks? (folds : Bool) : List Char → Option BlockStyle
  | [] => some ⟨folds, .clip, none⟩
  | [a] =>
    match ending? a with
    | some e => some ⟨folds, e, none⟩
    | none => (step? a).map fun n => ⟨folds, .clip, some n⟩
  | [a, b] =>
    match ending? a with
    | some e => (step? b).map fun n => ⟨folds, e, some n⟩
    | none => do return ⟨folds, ← ending? b, some (← step? a)⟩
  | _ => none

/-- The style of the block scalar that a line starts. -/
def blockStyle? : List Char → Option BlockStyle
  | [] => none
  | c :: s =>
    if c == '|' || c == '>' then
      let (marks, behind) := s.span fun d => d == '-' || d == '+' || d.isDigit
      if isDone behind then marks? (c == '>') marks else none
    else none

def BlockStyle.textOf (b : BlockStyle) (lines : List (List Char)) : List Char :=
  let (text, breaks) := joinLines b.folds true 0 lines
  match b.ending with
  | .strip => text
  | .clip => if text.isEmpty then text else text ++ ['\n']
  | .keep => text ++ List.replicate breaks '\n'

end SchemaGraph.Yaml
