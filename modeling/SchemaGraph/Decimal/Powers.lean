/-!
Powers of the two bases that decimal and binary numbers are scaled by.
-/

namespace SchemaGraph.Decimal

def twoPow (k : Nat) : Nat := Nat.pow 2 k

def tenPow (k : Nat) : Nat := Nat.pow 10 k

end SchemaGraph.Decimal
