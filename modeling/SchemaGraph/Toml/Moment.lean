import SchemaGraph.Decimal.Integer
import SchemaGraph.Text.Reading

/-!
Dates and times in TOML text: a date, a time, or both with an offset from universal time. They are
read as text in one form: `T` between date and time, no zeros at the end of a fraction, which has at
most nine digits, and `Z` or a signed offset.
-/

namespace SchemaGraph.Toml

open Text (Rest after)

/-- The number from `low` to `high` that the first `width` characters spell, and what follows. -/
def readFixed (width low high : Nat) (s : List Char) : Option (Nat × Rest) :=
  let (digits, rest) := s.splitAt width
  let n := Decimal.valueOfDigits 0 digits
  if digits.length = width ∧ digits.all Char.isDigit ∧ low ≤ n ∧ n ≤ high then some (n, rest)
  else none

def isLeapYear (year : Nat) : Bool :=
  year % 4 = 0 && (year % 100 ≠ 0 || year % 400 = 0)

def daysIn (year : Nat) : Nat → Nat
  | 2 => if isLeapYear year then 29 else 28
  | 4 | 6 | 9 | 11 => 30
  | _ => 31

/-- A date of the form `1979-05-27`. -/
def readDate (s : List Char) : Option (List Char × Rest) := do
  let (year, r) ← readFixed 4 0 9999 s
  let (month, r) ← readFixed 2 1 12 (← after '-' r)
  let (_, r) ← readFixed 2 1 (daysIn year month) (← after '-' r)
  return (s.take 10, r)

/-- The text of a fraction of a second. -/
def fractionText (digits : List Char) : List Char :=
  match ((digits.take 9).reverse.dropWhile (· = '0')).reverse with
  | [] => []
  | digits => '.' :: digits

/-- A time of the form `07:32:00`, perhaps with a fraction; leap seconds count. -/
def readTime (s : List Char) : Option (List Char × Rest) := do
  let (_, r) ← readFixed 2 0 23 s
  let (_, r) ← readFixed 2 0 59 (← after ':' r)
  let (_, r) ← readFixed 2 0 60 (← after ':' r)
  match r with
  | '.' :: fraction =>
    match fraction.span Char.isDigit with
    | ([], _) => return (s.take 8, r)
    | (digits, r) => return (s.take 8 ++ fractionText digits, r)
  | r => return (s.take 8, r)

/-- The text of an offset. Of no offset there is but one form. -/
def offsetText (sign : Char) (hours minutes : Nat) (digits : List Char) : List Char :=
  (if hours = 0 ∧ minutes = 0 then '+' else sign) :: digits

/-- An offset from universal time, if there is one. -/
def readOffset (s : List Char) : List Char × Rest :=
  let signed (sign : Char) (s : List Char) : Option (List Char × Rest) := do
    let (hours, r) ← readFixed 2 0 23 s
    let (minutes, r) ← readFixed 2 0 59 (← after ':' r)
    return (offsetText sign hours minutes (s.take 5), r)
  match s with
  | 'Z' :: r | 'z' :: r => (['Z'], r)
  | '+' :: r => (signed '+' r).getD ([], s)
  | '-' :: r => (signed '-' r).getD ([], s)
  | _ => ([], s)

/-- A time after a date, from the character between them. -/
def readTimeOfDay : List Char → Option (List Char × Rest)
  | c :: s => do
    if c ≠ 'T' ∧ c ≠ 't' ∧ c ≠ ' ' then none
    let (time, r) ← readTime s
    let (offset, r) := readOffset r
    return ('T' :: time ++ offset, r)
  | [] => none

/-- A date with or without a time, or a time. -/
def readMoment (s : List Char) : Option (List Char × Rest) :=
  match readDate s with
  | none => readTime s
  | some (date, r) =>
    match readTimeOfDay r with
    | none => some (date, r)
    | some (time, r) => some (date ++ time, r)

end SchemaGraph.Toml
