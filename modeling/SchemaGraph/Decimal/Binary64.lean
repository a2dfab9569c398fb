import SchemaGraph.Decimal.Powers

/-!
Double-precision numbers by their 64 bits. A finite one stands for `significand * 2 ^ scale`, with
its sign; arithmetic is exact arithmetic on ratios followed by one rounding to the nearest double,
a half going to the even significand.
-/

namespace SchemaGraph.Decimal

structure Binary64 where
  bits : UInt64
  deriving DecidableEq, Inhabited

namespace Binary64

def isNegative (x : Binary64) : Bool :=
  twoPow 63 ≤ x.bits.toNat

def exponentBits (x : Binary64) : Nat :=
  x.bits.toNat / twoPow 52 % twoPow 11

def fractionBits (x : Binary64) : Nat :=
  x.bits.toNat % twoPow 52

def isFinite (x : Binary64) : Bool :=
  x.exponentBits != 2047

def isNaN (x : Binary64) : Bool :=
  x.exponentBits == 2047 && x.fractionBits != 0

def isZero (x : Binary64) : Bool :=
  x.exponentBits == 0 && x.fractionBits == 0

/-- Equality of numbers: a value that is no number equals nothing, and the two zeros are equal. -/
def same (x y : Binary64) : Bool :=
  !x.isNaN && !y.isNaN && (x == y || (x.isZero && y.isZero))

def significand (x : Binary64) : Nat :=
  if x.exponentBits = 0 then x.fractionBits else twoPow 52 + x.fractionBits

def scale (x : Binary64) : Int :=
  if x.exponentBits = 0 then -1074 else (x.exponentBits : Int) - 1075

/-- The magnitude of a finite value as a ratio of natural numbers. -/
def ratio (x : Binary64) : Nat × Nat :=
  match x.scale with
  | .ofNat q => (x.significand * twoPow q, 1)
  | .negSucc q => (x.significand, twoPow (q + 1))

def withSign (negative : Bool) (magnitude : Nat) : Binary64 :=
  ⟨UInt64.ofNat (if negative then magnitude + twoPow 63 else magnitude)⟩

def infinity (negative : Bool) : Binary64 :=
  withSign negative (2047 * twoPow 52)

/-- `n / d`, a half going to the even neighbour. -/
def roundDiv (n d : Nat) : Nat :=
  let q := n / d
  let r := n % d
  if 2 * r < d then q else if 2 * r = d then q + q % 2 else q + 1

/-- `n / d` divided by two to the power `e`. -/
def shiftRatio (n d : Nat) : Int → Nat × Nat
  | .ofNat e => (n, d * twoPow e)
  | .negSucc e => (n * twoPow (e + 1), d)

/-- The greatest `k` with two to the power `k` at most `n / d`. -/
def log2Ratio (n d : Nat) : Int :=
  let k : Int := (n.log2 : Int) - d.log2
  let (n', d') := shiftRatio n d k
  if d' ≤ n' then k else k - 1

/-- The double nearest to `n / d`; a magnitude that is too large gives an infinity. -/
def ofRatio (negative : Bool) (n d : Nat) : Binary64 :=
  if n = 0 then withSign negative 0
  else
    let e := max (log2Ratio n d - 52) (-1074)
    let (n', d') := shiftRatio n d e
    let m := roundDiv n' d'
    if m < twoPow 52 then withSign negative m
    else
      let biased := (e + 1075).toNat
      let magnitude := biased * twoPow 52 + (m - twoPow 52)
      if magnitude < 2047 * twoPow 52 then withSign negative magnitude else infinity negative

def ofInt (i : Int) : Binary64 :=
  ofRatio (i < 0) i.natAbs 1

def neg (x : Binary64) : Binary64 :=
  withSign (!x.isNegative) (x.bits.toNat % twoPow 63)

def mul (x y : Binary64) : Binary64 :=
  ofRatio (x.isNegative != y.isNegative) (x.ratio.1 * y.ratio.1) (x.ratio.2 * y.ratio.2)

def div (x y : Binary64) : Binary64 :=
  ofRatio (x.isNegative != y.isNegative) (x.ratio.1 * y.ratio.2) (x.ratio.2 * y.ratio.1)

end Binary64

end SchemaGraph.Decimal
