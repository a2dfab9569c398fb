import SchemaGraph.Json

/-!
JSON text as far as it can be read.

A `Document` is the tree of a text up to its first fault. Faults sit where a reader in text order
meets them: a decoder that walks the tree in order reports either its own first complaint or the
fault of the text, whichever comes first. A number or string that is well formed but has no value
(a lone surrogate, a number too large) is a fault only for a decoder that wants its value.
-/

namespace SchemaGraph.Json

inductive Fault where
  /-- The text is not JSON. -/
  | malformed
  /-- The text ends too early. -/
  | truncated
  /-- A JSON value of another shape was expected. -/
  | mismatched
  deriving DecidableEq, Inhabited

def Fault.name : Fault → String
  | .malformed => "Syntax"
  | .truncated => "Eof"
  | .mismatched => "Data"

inductive Document where
  | null
  | bool (value : Bool)
  | number (value : Except Fault Number)
  | text (value : Except Fault String)
  /-- The items that were begun, and the fault that ended them before the closing bracket. -/
  | list (items : List Document) (ending : Option Fault)
  | record (fields : List (Except Fault String × Document)) (ending : Option Fault)
  /-- No value begins here. -/
  | fault (fault : Fault)
  deriving Inhabited

namespace Document

/-- How deep lists and records may be nested in a value that is read. -/
def depthLimit : Nat := 128

/-- Fails with the fault that ended a list or record, if one did. -/
def finish : Option Fault → Except Fault Unit
  | none => .ok ()
  | some f => .error f

mutual

/-- Reads a whole value; `budget` bounds the nesting. -/
def value (budget : Nat) : Document → Except Fault Json
  | .null => .ok .null
  | .bool b => .ok (.bool b)
  | .number n => n.map .number
  | .text s => s.map .text
  | .list items ending =>
    match budget with
    | 0 | 1 => .error .malformed
    | budget + 1 => do
      let js ← values budget items
      finish ending
      return .list js
  | .record fields ending =>
    match budget with
    | 0 | 1 => .error .malformed
    | budget + 1 => do
      let fs ← fieldValues budget fields
      finish ending
      return .record fs
  | .fault f => .error f

def values (budget : Nat) : List Document → Except Fault (List Json)
  | [] => .ok []
  | d :: ds => do
    let j ← d.value budget
    return j :: (← values budget ds)

def fieldValues (budget : Nat) :
    List (Except Fault String × Document) → Except Fault (List (String × Json))
  | [] => .ok []
  | (key, d) :: fs => do
    let k ← key
    let j ← d.value budget
    return (k, j) :: (← fieldValues budget fs)

end

/-- The complaint of a decoder that expected another kind of value. A scalar is read first. -/
def mismatch : Document → Fault
  | .fault f | .number (.error f) | .text (.error f) => f
  | _ => .mismatched

def readText : Document → Except Fault String
  | .text s => s
  | d => .error d.mismatch

def readFlag : Document → Except Fault Bool
  | .bool b => .ok b
  | d => .error d.mismatch

/-- `null` stands for an absent value. -/
def readOptional (read : Document → Except Fault α) : Document → Except Fault (Option α)
  | .null => .ok none
  | d => some <$> read d

def readList (read : Document → Except Fault α) : Document → Except Fault (List α)
  | .list items ending => do
    let as ← items.mapM read
    finish ending
    return as
  | d => .error d.mismatch

structure Layout where
  /-- All field names, in the order in which a list gives their values. -/
  names : List String
  /-- The names that a record must have. -/
  required : List String
  /-- How many values a list must have. -/
  least : Nat

/-- Reads the known fields of a record in text order; a known field must not be repeated. -/
def readFields (layout : Layout) (step : String → Document → α → Except Fault α) :
    List (Except Fault String × Document) → List String → α → Except Fault (α × List String)
  | [], seen, acc => .ok (acc, seen)
  | (key, d) :: fs, seen, acc => do
    let k ← key
    if layout.names.contains k then
      if seen.contains k then .error .mismatched
      else readFields layout step fs (k :: seen) (← step k d acc)
    else readFields layout step fs seen acc

/-- Reads the values of a list as the fields `names`, in order. -/
def readPositions (step : String → Document → α → Except Fault α) :
    List String → List Document → α → Except Fault α
  | n :: ns, d :: ds, acc => do readPositions step ns ds (← step n d acc)
  | _, _, acc => .ok acc

/-- Reads a record type, written as a record or as the list of its values. -/
def readRecord (layout : Layout) (step : String → Document → α → Except Fault α) (init : α) :
    Document → Except Fault α
  | .record fields ending => do
    let (acc, seen) ← readFields layout step fields [] init
    finish ending
    if layout.required.all seen.contains then .ok acc else .error .mismatched
  | .list items ending => do
    let acc ← readPositions step layout.names items init
    if layout.names.length < items.length then .error .malformed
    finish ending
    if items.length < layout.least then .error .mismatched
    return acc
  | d => .error d.mismatch

end Document

end SchemaGraph.Json
