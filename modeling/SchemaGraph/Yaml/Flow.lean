import SchemaGraph.Yaml.Scalar

/-!
Lists and maps in brackets. They may go over several lines, whose indentation does not matter.
-/

namespace SchemaGraph.Yaml

open Text (Rest)

/-! ### Between values -/

/-- Where a text is between two values: right behind one, in white space, or in a comment, which
has white space before it. -/
inductive Gap where
  | behind
  | space
  | comment
  deriving DecidableEq

/-- What follows white space and comments. -/
def skipGap : Gap → List Char → Rest
  | _, [] => []
  | .comment, c :: s => skipGap (if c = '\n' then .space else .comment) s
  | .space, '#' :: s => skipGap .comment s
  | _, c :: s => if isSpace c then skipGap .space s else c :: s

/-! ### Scalars -/

def isBracket (c : Char) : Bool :=
  c == ',' || c == '[' || c == ']' || c == '\x7b' || c == '\x7d'

/-- A plain scalar between brackets ends before a bracket, a comma, a comment, or a colon that is
followed by white space or one of these. -/
def readPlain : List Char → List Char × Rest
  | [] => ([], [])
  | [':'] => ([], [':'])
  | ':' :: c :: s =>
    if isSpace c || isBracket c then ([], ':' :: c :: s)
    else
      let (cs, r) := readPlain (c :: s)
      (':' :: cs, r)
  | ' ' :: '#' :: s => ([], ' ' :: '#' :: s)
  | c :: s =>
    if isBracket c then ([], c :: s)
    else
      let (cs, r) := readPlain s
      (c :: cs, r)

/-- Text without the white space and line breaks at its end. -/
def trimSpace (s : List Char) : List Char :=
  (s.reverse.dropWhile isSpace).reverse

def readScalar (s : List Char) : Option (Config × Rest) :=
  match s with
  | '"' :: r => (readDouble r).map fun (cs, r) => (.text (String.ofList cs), r)
  | '\'' :: r => (readSingle r).map fun (cs, r) => (.text (String.ofList cs), r)
  | s =>
    if startsPlain s then
      let (cs, r) := readPlain s
      (resolve (foldText (trimSpace cs))).map fun v => (v, r)
    else none

/-! ### Tables -/

/-- The name of a field. Texts and integers can be names. -/
def keyOf? : Config → Option String
  | .text s => some s
  | .integer i => some (toString i)
  | _ => none

/-- The table with some fields, if no name is given twice. -/
def tableOf? (fs : List (String × Config)) : Option Config :=
  if (fs.map Prod.fst).eraseDups.length = fs.length then some (.table fs) else none

/-! ### Lists and maps -/

mutual

/-- The value at the front of a text, which has no white space there. Each level of nesting, and
each item, takes one from `fuel` and at least one character from the text. -/
def readFlow : Nat → List Char → Option (Config × Rest)
  | 0, _ => none
  | fuel + 1, s =>
    match s with
    | '[' :: r => (readItems fuel (skipGap .behind r)).map fun (vs, r) => (.list vs, r)
    | '\x7b' :: r => do
      let (fs, r) ← readPairs fuel (skipGap .behind r)
      return (← tableOf? fs, r)
    | s => readScalar s

def readItems : Nat → List Char → Option (List Config × Rest)
  | 0, _ => none
  | fuel + 1, s =>
    match s with
    | ']' :: r => some ([], r)
    | s => do
      let (item, r) ← readFlow fuel s
      match skipGap .behind r with
      | ']' :: r => return ([item], r)
      | ',' :: r =>
        let (items, r) ← readItems fuel (skipGap .behind r)
        return (item :: items, r)
      | _ => none

/-- Pairs up to a closing brace. A key may stand alone. -/
def readPairs : Nat → List Char → Option (List (String × Config) × Rest)
  | 0, _ => none
  | fuel + 1, s =>
    match s with
    | '\x7d' :: r => some ([], r)
    | s => do
      let (key, r) ← readScalar s
      let key ← keyOf? key
      let (value, r) ← match skipGap .behind r with
        | ':' :: r =>
          match skipGap .behind r with
          | ',' :: r => some (.null, ',' :: r)
          | '\x7d' :: r => some (.null, '\x7d' :: r)
          | r => readFlow fuel r
        | r => some (.null, r)
      match skipGap .behind r with
      | '\x7d' :: r => return ([(key, value)], r)
      | ',' :: r =>
        let (pairs, r) ← readPairs fuel (skipGap .behind r)
        return ((key, value) :: pairs, r)
      | _ => none

end

end SchemaGraph.Yaml
