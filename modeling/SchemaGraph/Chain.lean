/-!
Chains: an item, what follows it, what follows that, as long as anything does.
-/

namespace SchemaGraph

def chain {α : Type} (next : α → Option α) : Nat → α → List α
  | 0, _ => []
  | n + 1, a => a :: ((next a).map (chain next n)).getD []

end SchemaGraph
