/-!
References that are resolved once. A binding holds the reference as it was written until a resolver
has found what it stands for; from then on it holds that.
-/

namespace SchemaGraph

inductive Binding (R : Type) (T : Type) where
  | pending (reference : R)
  | resolved (value : T)
  deriving DecidableEq

/-- A binding was read before it was resolved. -/
structure ReadTooEarly where
  deriving DecidableEq, Inhabited

namespace ReadTooEarly

def message (_ : ReadTooEarly) : String :=
  "deferred binding read before fixup"

end ReadTooEarly

namespace Binding

variable {R T ε : Type}

def isResolved : Binding R T → Bool
  | .pending _ => false
  | .resolved _ => true

def reference? : Binding R T → Option R
  | .pending r => some r
  | .resolved _ => none

def resolved? : Binding R T → Option T
  | .pending _ => none
  | .resolved v => some v

def get : Binding R T → Except ReadTooEarly T
  | .pending _ => .error {}
  | .resolved v => .ok v

/-- Resolves a pending binding, and leaves it pending if the resolver fails. A resolved binding
keeps its value and does not ask the resolver again. -/
def resolveWith (find : R → Except ε T) : Binding R T → Binding R T × Except ε T
  | .resolved v => (.resolved v, .ok v)
  | .pending r =>
    match find r with
    | .ok v => (.resolved v, .ok v)
    | .error e => (.pending r, .error e)

end Binding

end SchemaGraph
