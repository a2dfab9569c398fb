import SchemaGraph.Decimal.Binary64
import SchemaGraph.Decimal.Integer

/-!
Doubles from text: an optional sign, then digits with at most one point among or around them and an
optional exponent, or a word for a special value. The answer is the double nearest to the number
that is written.
-/

namespace SchemaGraph.Decimal

/-- Splits a sign off; `true` is a minus. -/
def splitSign : List Char → Bool × List Char
  | '-' :: s => (true, s)
  | '+' :: s => (false, s)
  | s => (false, s)

/-- The double nearest to `digits` times ten to the power `exponent`. Powers far outside the range
of doubles are not worked out. -/
def nearest (negative : Bool) (digits : Nat) (exponent : Int) : Binary64 :=
  let point := (Nat.toDigits 10 digits).length + exponent
  if digits = 0 ∨ point < -400 then Binary64.withSign negative 0
  else if 400 < point then Binary64.infinity negative
  else match exponent with
    | .ofNat e => Binary64.ofRatio negative (digits * tenPow e) 1
    | .negSucc e => Binary64.ofRatio negative digits (tenPow (e + 1))

/-- An exponent with its letter, or nothing at all. -/
def readExponent? : List Char → Option Int
  | [] => some 0
  | c :: s => if c = 'e' ∨ c = 'E' then readInt? s else none

def readMagnitude? (negative : Bool) (s : List Char) : Option Binary64 :=
  let (whole, rest) := s.span Char.isDigit
  let (fraction, rest) := match rest with
    | '.' :: r => r.span Char.isDigit
    | r => ([], r)
  if whole = [] ∧ fraction = [] then none
  else (readExponent? rest).map fun e =>
    nearest negative (valueOfDigits 0 (whole ++ fraction)) (e - fraction.length)

def nan (negative : Bool) : Binary64 :=
  Binary64.withSign negative (2047 * twoPow 52 + twoPow 51)

/-- A special value by its word, in any case. -/
def readSpecial? (negative : Bool) (s : List Char) : Option Binary64 :=
  match String.ofList (s.map Char.toLower) with
  | "inf" | "infinity" => some (Binary64.infinity negative)
  | "nan" => some (nan negative)
  | _ => none

def readFloat? (s : List Char) : Option Binary64 :=
  let (negative, s) := splitSign s
  (readSpecial? negative s).orElse fun _ => readMagnitude? negative s

end SchemaGraph.Decimal
