import SchemaGraph.Config
import SchemaGraph.Decimal.Integer
import SchemaGraph.Text.Pieces

/-!
Paths into a configuration, and laying values over what is there. A path is a key with keys and
positions after it, as in `types.custom[0].name`. Tables are merged key by key and the case of a key
does not count; all else takes the place of what was there.
-/

namespace SchemaGraph

inductive KeyPath.Step where
  | key (name : String)
  /-- The position of an item; negative ones count from the end. -/
  | item (index : Int)
  deriving DecidableEq, Inhabited

structure KeyPath where
  root : String
  steps : List KeyPath.Step := []
  deriving DecidableEq, Inhabited

namespace KeyPath

/-! ### Paths in text -/

def isKeyPart (c : Char) : Bool :=
  c.isAlphanum || c == '_' || c == '-' || c == ' '

def readKey (s : List Char) : Option (String × List Char) :=
  match s.span isKeyPart with
  | ([], _) => none
  | (key, rest) => some (String.ofList key, rest)

def isGap (c : Char) : Bool :=
  c == ' ' || c == '\t'

def trimGap (s : List Char) : List Char :=
  ((s.dropWhile isGap).reverse.dropWhile isGap).reverse

/-- A position, whose only sign is a minus. -/
def readIndex? (s : List Char) : Option Int :=
  match trimGap s with
  | '+' :: _ => none
  | s => (Decimal.readInt? s).filter Decimal.isInt64

/-- The steps in a text. Each takes one from `fuel` and at least one character. -/
def readSteps : Nat → List Char → Option (List Step)
  | _, [] => some []
  | fuel + 1, '.' :: s => do
    let (key, rest) ← readKey s
    return .key key :: (← readSteps fuel rest)
  | fuel + 1, '[' :: s => do
    let (index, rest) ← Text.cutAt ']' s
    return .item (← readIndex? index) :: (← readSteps fuel rest)
  | _, _ :: _ => none

/-- The path that a text spells. A text of another form is one key. -/
def ofText (text : String) : KeyPath :=
  let path? : Option KeyPath := do
    let (root, rest) ← readKey text.toList
    return ⟨root, ← readSteps rest.length rest⟩
  path?.getD ⟨text, []⟩

/-! ### Case -/

/-- The lower case of a character, if it is an ASCII letter; the Kelvin sign counts as one. -/
def foldChar (c : Char) : Char :=
  if c = '\u212a' then 'k' else c.toLower

/-- A key in the case in which keys are compared. -/
def fold (key : String) : String :=
  String.ofList (key.toList.map foldChar)

/-! ### Laying over -/

mutual

/-- What a newer value leaves of an older one. -/
def laidOver (old : Option Config) : Config → Config
  | .table fs => layFields (old.getD .empty) fs
  | new => new

def layFields (v : Config) : List (String × Config) → Config
  | [] => v
  | (k, new) :: fs => layFields (v.setField (fold k) (laidOver (v.field? (fold k)) new)) fs

end

/-- The position in a list of the given length. What is before its front counts as its front. -/
def position (length : Nat) (index : Int) : Nat :=
  (if index < 0 then length + index else index).toNat

/-- What stands for `old` once a value has been laid over what the steps lead to from there. A whole
item is replaced, even by a table. -/
def placed (value : Config) : List Step → Option Config → Config
  | [], old => laidOver old value
  | .key k :: steps, old =>
    let v := old.getD .empty
    v.setField (fold k) (placed value steps (v.field? (fold k)))
  | [.item i], old =>
    let vs := (old.map Config.items).getD []
    .list (Config.withItem value (position vs.length i) vs)
  | .item i :: steps, old =>
    let vs := (old.map Config.items).getD []
    let n := position vs.length i
    .list (Config.withItem (placed value steps vs[n]?) n vs)

/-- Lays a value over what a path leads to in a table. -/
def lay (p : KeyPath) (value : Config) (v : Config) : Config :=
  v.setField (fold p.root) (placed value p.steps (v.field? (fold p.root)))

end KeyPath

end SchemaGraph
