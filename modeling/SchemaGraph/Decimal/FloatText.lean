import SchemaGraph.Decimal.Shortest

/-!
Doubles as text. The digits are the shortest ones; how they are laid out is decided by one record
per output format.
-/

namespace SchemaGraph.Decimal

/-- The layout of floating point numbers in one output format. -/
structure FloatFormat where
  /-- Between two texts of equal length and distance. -/
  tie : Tie
  /-- Values below ten to this power are written without an exponent, `none` meaning all. -/
  positionalBelow : Option Int
  /-- Values from ten to this power on are written without an exponent, `none` meaning all. -/
  positionalFrom : Option Int
  /-- What follows an integral number written without an exponent. -/
  integralSuffix : String
  /-- What precedes the digits of an exponent that is not negative. -/
  exponentPlus : String

def zeros (n : Nat) : String :=
  String.ofList (List.replicate n '0')

/-- Digits with the point `point` places after the first of them, without an exponent. -/
def FloatFormat.positional (f : FloatFormat) (digits : List Char) (point : Int) : String :=
  match point with
  | .ofNat p =>
    if p = 0 then "0." ++ String.ofList digits
    else if digits.length ≤ p then
      String.ofList digits ++ zeros (p - digits.length) ++ f.integralSuffix
    else String.ofList (digits.take p) ++ "." ++ String.ofList (digits.drop p)
  | .negSucc p => "0." ++ zeros (p + 1) ++ String.ofList digits

/-- One digit before the point, then the rest and the exponent. -/
def FloatFormat.scientific (f : FloatFormat) (digits : List Char) (exponent : Int) : String :=
  let mantissa := match digits with
    | [] => "0"
    | [c] => c.toString
    | c :: cs => c.toString ++ "." ++ String.ofList cs
  let sign := if exponent < 0 then "-" else f.exponentPlus
  mantissa ++ "e" ++ sign ++ toString exponent.natAbs

def FloatFormat.magnitude (f : FloatFormat) (x : Binary64) : String :=
  let s := x.shortest f.tie
  if s.digits = 0 then "0" ++ f.integralSuffix
  else
    let digits := Nat.toDigits 10 s.digits
    let point : Int := digits.length + s.exponent
    let low := match f.positionalFrom with
      | none => true
      | some e => decide (e < point)
    let high := match f.positionalBelow with
      | none => true
      | some e => decide (point ≤ e)
    if low && high then f.positional digits point else f.scientific digits (point - 1)

/-- The text of a value, the special ones included. -/
def FloatFormat.render (f : FloatFormat) (x : Binary64) : String :=
  if x.isNaN then "NaN"
  else
    let sign := if x.isNegative then "-" else ""
    if x.isFinite then sign ++ f.magnitude x else sign ++ "inf"

/-- Plain digits for messages: never an exponent, and no point after an integral number. -/
def plainFloat : FloatFormat :=
  { tie := .up, positionalBelow := none, positionalFrom := none, integralSuffix := "",
    exponentPlus := "" }

end SchemaGraph.Decimal
