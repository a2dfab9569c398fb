import SchemaGraph.Text.Reading

/-!
Strings in TOML text: basic ones with escapes and literal ones without, each on one line or, in
three quotes, over several. The readers start after the opening quotes.
-/

namespace SchemaGraph.Toml

open Text (Rest prepend prepend? scalar?)

def isPlain (c : Char) : Bool :=
  c == '\t' || (0x20 ≤ c.toNat && c.toNat != 0x7F)

def isGap (c : Char) : Bool :=
  c == ' ' || c == '\t'

def shortEscape? : Char → Option Char
  | '"' => some '"'
  | '\\' => some '\\'
  | 'b' => some '\x08'
  | 'f' => some '\x0c'
  | 'n' => some '\n'
  | 'r' => some '\r'
  | 't' => some '\t'
  | _ => none

def readBasic : List Char → Option (List Char × Rest)
  | [] => none
  | '"' :: s => some ([], s)
  | '\\' :: 'u' :: a :: b :: c :: d :: s => prepend? (scalar? [a, b, c, d]) (readBasic s)
  | '\\' :: 'U' :: a :: b :: c :: d :: e :: f :: g :: h :: s =>
    prepend? (scalar? [a, b, c, d, e, f, g, h]) (readBasic s)
  | '\\' :: c :: s => prepend? (shortEscape? c) (readBasic s)
  | c :: s => if isPlain c && c != '\\' then prepend [c] (readBasic s) else none

/-- Whether only white space stands before the end of the line. -/
def endsLine (s : List Char) : Bool :=
  match s.dropWhile isGap with
  | '\n' :: _ | '\r' :: '\n' :: _ => true
  | _ => false

/-- A basic string over several lines. A backslash at the end of a line takes away all white space
up to the next character; `skipping` says that this is going on. -/
def readBasicLines (skipping : Bool) : List Char → Option (List Char × Rest)
  | [] => none
  | '"' :: '"' :: '"' :: '"' :: '"' :: s => some (['"', '"'], s)
  | '"' :: '"' :: '"' :: '"' :: s => some (['"'], s)
  | '"' :: '"' :: '"' :: s => some ([], s)
  | '\r' :: '\n' :: s => prepend (if skipping then [] else ['\n']) (readBasicLines skipping s)
  | '\n' :: s => prepend (if skipping then [] else ['\n']) (readBasicLines skipping s)
  | '\\' :: 'u' :: a :: b :: c :: d :: s =>
    prepend? (scalar? [a, b, c, d]) (readBasicLines false s)
  | '\\' :: 'U' :: a :: b :: c :: d :: e :: f :: g :: h :: s =>
    prepend? (scalar? [a, b, c, d, e, f, g, h]) (readBasicLines false s)
  | '\\' :: c :: s =>
    if endsLine (c :: s) then readBasicLines true (c :: s)
    else prepend? (shortEscape? c) (readBasicLines false s)
  | c :: s =>
    if skipping && isGap c then readBasicLines true s
    else if isPlain c && c != '\\' then prepend [c] (readBasicLines false s)
    else none

def readLiteral : List Char → Option (List Char × Rest)
  | [] => none
  | '\'' :: s => some ([], s)
  | c :: s => if isPlain c then prepend [c] (readLiteral s) else none

def readLiteralLines : List Char → Option (List Char × Rest)
  | [] => none
  | '\'' :: '\'' :: '\'' :: '\'' :: '\'' :: s => some (['\'', '\''], s)
  | '\'' :: '\'' :: '\'' :: '\'' :: s => some (['\''], s)
  | '\'' :: '\'' :: '\'' :: s => some ([], s)
  | '\r' :: '\n' :: s => prepend ['\n'] (readLiteralLines s)
  | '\n' :: s => prepend ['\n'] (readLiteralLines s)
  | c :: s => if isPlain c then prepend [c] (readLiteralLines s) else none

/-- A line break right after the opening quotes does not count. -/
def afterFirstBreak : List Char → List Char
  | '\n' :: s | '\r' :: '\n' :: s => s
  | s => s

def readString : List Char → Option (List Char × Rest)
  | '"' :: '"' :: '"' :: s => readBasicLines false (afterFirstBreak s)
  | '"' :: s => readBasic s
  | '\'' :: '\'' :: '\'' :: s => readLiteralLines (afterFirstBreak s)
  | '\'' :: s => readLiteral s
  | _ => none

end SchemaGraph.Toml
