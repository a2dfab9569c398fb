import SchemaGraph.Decimal.Binary64

/-!
The fewest decimal digits that read back as a given double.

Every real strictly between the midpoints to the two neighbouring doubles rounds to the value, and
the midpoints do too when the significand is even. For one, two, … seventeen digits the two grid
points around the value are tried; the first grid with a point in that interval gives the digits.
-/

namespace SchemaGraph.Decimal

/-- The number `digits * 10 ^ exponent`. -/
structure Scientific where
  digits : Nat
  exponent : Int
  deriving DecidableEq

/-- What to do when two decimal texts of the same length are equally near. -/
inductive Tie where
  | up
  | even

/-- The reals that round to a value, as multiples of `1 / den`; `closed` says whether the ends
belong to it. -/
structure Interval where
  low : Nat
  value : Nat
  high : Nat
  den : Nat
  closed : Bool

def Interval.has (i : Interval) (n d : Nat) : Bool :=
  if i.closed then i.low * d ≤ n * i.den && n * i.den ≤ i.high * d
  else i.low * d < n * i.den && n * i.den < i.high * d

def Binary64.interval (x : Binary64) : Interval :=
  let m := x.significand
  let below := if x.fractionBits = 0 ∧ 1 < x.exponentBits then 1 else 2
  let (unit, den) := match x.scale - 2 with
    | .ofNat q => (twoPow q, 1)
    | .negSucc q => (1, twoPow (q + 1))
  { low := (4 * m - below) * unit, value := 4 * m * unit, high := (4 * m + 2) * unit, den,
    closed := m % 2 = 0 }

def tenPowRatio : Int → Nat × Nat
  | .ofNat k => (tenPow k, 1)
  | .negSucc k => (1, tenPow (k + 1))

def digitCount (n : Nat) : Nat :=
  (Nat.toDigits 10 n).length

/-- The least `p` with `n / d` below ten to the power `p`. -/
def decimalPoint (n d : Nat) : Int :=
  let p : Int := (digitCount n : Int) - digitCount d
  let (a, b) := tenPowRatio p
  if n * b < a * d then p else p + 1

/-- The grid point of `10 ^ k` nearest to the value among the two around it, if it is in the
interval. -/
def Interval.onGrid (i : Interval) (tie : Tie) (k : Int) : Option Nat :=
  let (a, b) := tenPowRatio k
  let n := i.value * b
  let d := i.den * a
  let q := n / d
  let r := n % d
  let inside (g : Nat) : Bool := i.has (g * a) b
  match inside q, inside (q + 1) with
  | false, false => none
  | true, false => some q
  | false, true => some (q + 1)
  | true, true =>
    if 2 * r < d then some q
    else if 2 * r = d then
      match tie with
      | .up => some (q + 1)
      | .even => some (if q % 2 = 0 then q else q + 1)
    else some (q + 1)

/-- The first grid with a hit, from `n` digits down to `0`, `count` digits having been tried. -/
def Interval.search (i : Interval) (tie : Tie) (point : Int) : Nat → Nat → Scientific
  | 0, count => ⟨i.value / i.den, point - count⟩
  | n + 1, count =>
    match i.onGrid tie (point - (count + 1 : Nat)) with
    | some g => ⟨g, point - (count + 1 : Nat)⟩
    | none => i.search tie point n (count + 1)

/-- Takes the zeros at the end of the digits into the exponent. -/
def Scientific.normalize (s : Scientific) : Nat → Scientific
  | 0 => s
  | n + 1 =>
    if s.digits ≠ 0 ∧ s.digits % 10 = 0 then
      Scientific.normalize ⟨s.digits / 10, s.exponent + 1⟩ n
    else s

/-- The shortest digits of a finite value's magnitude. -/
def Binary64.shortest (x : Binary64) (tie : Tie) : Scientific :=
  if x.isZero then ⟨0, 0⟩
  else
    let i := x.interval
    (i.search tie (decimalPoint i.value i.den) 17 0).normalize 17

end SchemaGraph.Decimal
