/-!
How well a pattern fits a text. The pattern has to be a subsequence of the text; matches at the
beginning of words, and matches in a row, score higher, and gaps cost. A pattern without upper-case
letters matches without regard to case.

Scores fill a table row by row, a row for each character of the pattern. Two rows are kept, and a
row is written over the one before the last, so a cell that is not written shows an older score.
-/

namespace SchemaGraph.Similarity

inductive CharClass where
  | empty
  | upper
  | number
  | hard
  | soft
  | lower
  deriving DecidableEq

def hardSeparators : List Char :=
  [' ', '/', '|', '\\', '(', ')', '[', ']', '\x7b', '\x7d']

def isSoft (c : Char) : Bool :=
  ('!' ≤ c && c ≤ '\'') || ('*' ≤ c && c ≤ '.') || (':' ≤ c && c ≤ '@') ||
    ('^' ≤ c && c ≤ '`') || c == '~'

def charClass (c : Char) : CharClass :=
  if c = '\x00' then .empty
  else if c.isUpper then .upper
  else if c.isDigit then .number
  else if hardSeparators.contains c then .hard
  else if isSoft c then .soft
  else .lower

/-- What a match at `c` is worth, by its place in a word. -/
def placeBonus (before c : Char) : Int :=
  match charClass before, charClass c with
  | .empty, _ | .hard, _ => 8
  | .soft, _ => 7
  | .lower, .upper | .number, .upper => 6
  | _, _ => 0

/-- The place bonus of each character; that of the first counts twice. -/
def placeBonuses (text : List Char) : List Int :=
  match List.zipWith placeBonus ('\x00' :: text) text with
  | [] => []
  | b :: bs => 2 * b :: bs

def sameLetter (caseSensitive : Bool) (a b : Char) : Bool :=
  if caseSensitive then a == b else a.toLower == b.toLower

/-- The positions of the leftmost occurrence of the pattern as a subsequence, from `start` on. -/
def firstMatches (caseSensitive : Bool) : List Char → List Char → Nat → Option (List Nat)
  | [], _, _ => some []
  | _ :: _, [], _ => none
  | p :: ps, c :: cs, start =>
    if sameLetter caseSensitive p c then
      (firstMatches caseSensitive ps cs (start + 1)).map (start :: ·)
    else firstMatches caseSensitive (p :: ps) cs (start + 1)

/-- The best score of the pattern so far that ends at a character (`hit`) or before it (`miss`), and
the bonus that a run of matches carries. -/
structure Cell where
  hit : Int
  miss : Int
  run : Int

def noScore : Int := -32768

/-- What a row is written from, a column after the first: the character, its place bonus, the cell
to the left in the row above, and the cell that is written over. -/
structure Column where
  char : Char
  place : Int
  above : Cell
  old : Cell

def matchBonus (p c : Char) : Int :=
  if p = c then 16 else 14

def fillRow (caseSensitive : Bool) (p : Char) (left : Cell) : List Column → List Cell
  | [] => [left]
  | col :: cols =>
    let miss := max (left.hit - 4) (left.miss - 1)
    if sameLetter caseSensitive p col.char then
      let run := max (max left.run col.place) 4
      let hit := max (col.above.hit + run) (col.above.miss + col.place) + matchBonus p col.char
      { left with run } :: fillRow caseSensitive p { hit, miss, run := col.old.run } cols
    else left :: fillRow caseSensitive p { hit := noScore, miss, run := 0 } cols

def columns (text : List Char) (places : List Int) (above old : List Cell) : List Column :=
  match text, places, above, old with
  | c :: cs, b :: bs, a :: as, o :: os => ⟨c, b, a, o⟩ :: columns cs bs as os
  | _, _, _, _ => []

/-- The row of a pattern character whose first match is at `first`. -/
def nextRow (caseSensitive : Bool) (text : List Char) (p : Char) (first : Nat)
    (above old : List Cell) : List Cell :=
  match old.drop first with
  | [] => old
  | left :: rest =>
    old.take first ++ fillRow caseSensitive p left
      (columns (text.drop first) ((placeBonuses text).drop first) (above.drop first) rest)

/-- The last row and the row before it. -/
def rows (caseSensitive : Bool) (text : List Char) :
    List (Char × Nat) → List Cell → List Cell → List Cell
  | [], above, _ => above
  | (p, first) :: rest, above, old =>
    rows caseSensitive text rest (nextRow caseSensitive text p first above old) above

/-- How well `pattern` fits `text`; nothing if it is no subsequence. -/
def score? (pattern text : String) : Option Int :=
  let ps := pattern.toList
  let cs := text.toList
  let caseSensitive := ps.any Char.isUpper
  match firstMatches caseSensitive ps cs 0 with
  | none => none
  | some firsts =>
    let start : List Cell := List.replicate (cs.length + 1) ⟨noScore, -1, 0⟩
    let spare : List Cell := List.replicate (cs.length + 1) ⟨noScore, noScore, 0⟩
    let last := rows caseSensitive cs (ps.zip firsts) start spare
    ((last.drop (firsts.getLast?.getD 0)).map Cell.hit).max?

/-- Whether the first scored text is better than the second: a higher score, or the same and
smaller. -/
def better (a b : Int × String) : Bool :=
  b.1 < a.1 || (a.1 == b.1 && a.2 < b.2)

/-- The candidate that a name fits best. -/
def suggestion? (name : String) (candidates : List String) : Option String :=
  let scored := candidates.filterMap fun c => (score? name c).map fun s => (s, c)
  let best := scored.foldl
    (fun best c =>
      match best with
      | none => some c
      | some b => if better c b then some c else some b)
    none
  best.map Prod.snd

end SchemaGraph.Similarity
