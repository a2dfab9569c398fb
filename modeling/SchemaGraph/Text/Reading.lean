import SchemaGraph.Text.Hex

/-!
Small readers that the readers of several languages share. A reader takes what it knows from the
front of a text and gives the rest.
-/

namespace SchemaGraph.Text

/-- What follows what has been read. -/
abbrev Rest := List Char

/-- Puts `cs` in front of what has been read. -/
def prepend (cs : List Char) (r : Option (List Char × Rest)) : Option (List Char × Rest) :=
  r.map fun (more, rest) => (cs ++ more, rest)

/-- Puts the character in front, if there is one. -/
def prepend? (c : Option Char) (r : Option (List Char × Rest)) : Option (List Char × Rest) :=
  c.bind fun c => prepend [c] r

/-- The character whose code point some hexadecimal digits spell. -/
def scalar? (digits : List Char) : Option Char := do
  let n ← hexNumber? digits
  if n.isValidChar then some (Char.ofNat n) else none

def after (c : Char) : List Char → Option Rest
  | [] => none
  | d :: s => if c = d then some s else none

def afterWord : List Char → List Char → Option Rest
  | [], s => some s
  | c :: word, s => (after c s).bind (afterWord word)

/-! ### Comments -/

/-- Where a text is: between comments, in one that ends with its line, or in one with an end of its
own. -/
inductive Comment where
  | none
  | line
  | block
  deriving DecidableEq

/-- What follows white space and comments of the forms `// …` and `/* … */`. -/
def skipComments (isSpace : Char → Bool) : Comment → List Char → Rest
  | _, [] => []
  | .block, '*' :: '/' :: s => skipComments isSpace .none s
  | .block, _ :: s => skipComments isSpace .block s
  | .line, c :: s => skipComments isSpace (if c = '\n' then .none else .line) s
  | .none, '/' :: '/' :: s => skipComments isSpace .line s
  | .none, '/' :: '*' :: s => skipComments isSpace .block s
  | .none, c :: s => if isSpace c then skipComments isSpace .none s else c :: s

end SchemaGraph.Text
