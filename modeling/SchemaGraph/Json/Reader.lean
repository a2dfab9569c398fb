import SchemaGraph.Json.Scanner

/-!
From text to `Document`. The tree holds everything up to the first fault.
-/

namespace SchemaGraph.Json

def isSpace (c : Char) : Bool :=
  c = ' ' || c = '\n' || c = '\t' || c = '\r'

def skipSpace (s : List Char) : List Char :=
  s.dropWhile isSpace

/-- What follows the letters `word`. -/
def expectWord : List Char → List Char → Except Fault (List Char)
  | [], s => .ok s
  | _ :: _, [] => .error .truncated
  | c :: cs, d :: s => if c = d then expectWord cs s else .error .malformed

def readWord (word : List Char) (value : Document) (s : List Char) :
    Document × Except Fault (List Char) :=
  match expectWord word s with
  | .ok r => (value, .ok r)
  | .error f => (.fault f, .error f)

/-- The fault that ended a list or record, from what follows it. -/
def endingOf : Except Fault (List Char) → Option Fault
  | .ok _ => none
  | .error f => some f

mutual

/-- The value at the front of the text, and what follows it. Each level of nesting, and each item,
takes at least one character from the text, and at most two from `fuel`. -/
def readValue : Nat → List Char → Document × Except Fault (List Char)
  | 0, _ => (.fault .truncated, .error .truncated)
  | fuel + 1, s =>
    match skipSpace s with
    | [] => (.fault .truncated, .error .truncated)
    | 'n' :: r => readWord ['u', 'l', 'l'] .null r
    | 't' :: r => readWord ['r', 'u', 'e'] (.bool true) r
    | 'f' :: r => readWord ['a', 'l', 's', 'e'] (.bool false) r
    | '"' :: r =>
      let scan := scanString none r
      (.text (scan.value.map String.ofList), scan.rest)
    | '[' :: r =>
      match skipSpace r with
      | [] => (.list [] (some .truncated), .error .truncated)
      | ']' :: r => (.list [] none, .ok r)
      | r =>
        let (items, rest) := readItems fuel r
        (.list items (endingOf rest), rest)
    | '\x7b' :: r =>
      match skipSpace r with
      | [] => (.record [] (some .truncated), .error .truncated)
      | '\x7d' :: r => (.record [] none, .ok r)
      | r =>
        let (fields, rest) := readMembers fuel r
        (.record fields (endingOf rest), rest)
    | c :: r =>
      if c = '-' ∨ c.isDigit then
        let scan := scanNumber (c :: r)
        (.number scan.value, scan.rest)
      else (.fault .malformed, .error .malformed)

/-- The items of a list, from where one has to begin. -/
def readItems : Nat → List Char → List Document × Except Fault (List Char)
  | 0, _ => ([], .error .truncated)
  | fuel + 1, s =>
    let (item, rest) := readValue fuel s
    match rest with
    | .error f => ([item], .error f)
    | .ok r =>
      match skipSpace r with
      | [] => ([item], .error .truncated)
      | ']' :: r => ([item], .ok r)
      | ',' :: r =>
        let (items, rest) := readItems fuel r
        (item :: items, rest)
      | _ => ([item], .error .malformed)

/-- The members of a record, from where a key has to begin. -/
def readMembers : Nat → List Char →
    List (Except Fault String × Document) × Except Fault (List Char)
  | 0, _ => ([], .error .truncated)
  | fuel + 1, s =>
    match skipSpace s with
    | [] => ([], .error .truncated)
    | '"' :: r =>
      let scan := scanString none r
      let key := scan.value.map String.ofList
      match scan.rest with
      | .error f => ([(key, .fault f)], .error f)
      | .ok r =>
        match skipSpace r with
        | [] => ([(key, .fault .truncated)], .error .truncated)
        | ':' :: r =>
          let (value, rest) := readValue fuel r
          match rest with
          | .error f => ([(key, value)], .error f)
          | .ok r =>
            match skipSpace r with
            | [] => ([(key, value)], .error .truncated)
            | '\x7d' :: r => ([(key, value)], .ok r)
            | ',' :: r =>
              let (members, rest) := readMembers fuel r
              ((key, value) :: members, rest)
            | _ => ([(key, value)], .error .malformed)
        | _ => ([(key, .fault .malformed)], .error .malformed)
    | _ => ([], .error .malformed)

end

/-- The document at the front of a text, and whether only white space follows it. -/
def readDocument (text : String) : Document × Except Fault Unit :=
  let (document, rest) := readValue (2 * text.length + 1) text.toList
  (document, rest.bind fun r => if (skipSpace r).isEmpty then .ok () else .error .malformed)

def decode (read : Document → Except Fault α) (text : String) : Except Fault α := do
  let (document, rest) := readDocument text
  let value ← read document
  rest
  return value

def parse (text : String) : Except Fault Json :=
  decode (Document.value Document.depthLimit) text

end SchemaGraph.Json
