/-!
Decimal integers as text: an optional sign and at least one ASCII digit.
-/

namespace SchemaGraph.Decimal

def leastInt64 : Int := -9223372036854775808

def greatestInt64 : Int := 9223372036854775807

def greatestUInt64 : Nat := 18446744073709551615

def isInt64 (i : Int) : Bool :=
  leastInt64 ≤ i && i ≤ greatestInt64

def digitValue (c : Char) : Nat :=
  c.toNat - '0'.toNat

/-- The number that a run of digits spells, with `acc` in front of it. -/
def valueOfDigits (acc : Nat) (digits : List Char) : Nat :=
  digits.foldl (fun n c => n * 10 + digitValue c) acc

/-- One or more digits and nothing else. -/
def readNat? (s : List Char) : Option Nat :=
  if s ≠ [] ∧ s.all Char.isDigit then some (valueOfDigits 0 s) else none

def readInt? : List Char → Option Int
  | '-' :: s => (readNat? s).map fun n => -(n : Int)
  | '+' :: s => (readNat? s).map Int.ofNat
  | s => (readNat? s).map Int.ofNat

end SchemaGraph.Decimal
