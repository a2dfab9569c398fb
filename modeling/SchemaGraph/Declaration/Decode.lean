import SchemaGraph.Declaration
import SchemaGraph.Json.Reader

/-!
Declarations from JSON text.

The source itself, its imports and its annotations are decoded while the text is read, so a fault
that comes later in the text is not seen before them. A type is read whole before it is decoded,
because its kind may come last; only the kind is looked at on the way.
-/

namespace SchemaGraph.Declaration

open Json (Document Fault)
open Json.Document

def readMetadataEntry : Document → Except Fault (String × String) :=
  readRecord { names := ["key", "value"], required := ["key"], least := 1 }
    (fun name d entry => match name with
      | "key" => return (← readText d, entry.2)
      | _ => return (entry.1, ← readText d))
    ("", "")

def readMetadata : Document → Except Fault Metadata :=
  readList readMetadataEntry

def Import.read : Document → Except Fault Import :=
  readRecord { names := ["source", "alias"], required := ["source"], least := 1 }
    (fun name d i => match name with
      | "source" => return { i with source := ← readText d }
      | _ => return { i with localName := ← readOptional readText d })
    {}

/-- A role is its name, or a record with its name as the only key and nothing as its value. -/
def readRole (d : Document) : Except Fault PropertyRole := do
  let name ← match d with
    | .record [(key, value)] none =>
      match value with
      | .null | .record [] none => key
      | _ => .error .mismatched
    | d => readText d
  match PropertyRole.ofName? name with
  | some role => return role
  | none => .error .mismatched

def Property.read : Document → Except Fault Property :=
  readRecord
    { names := ["name", "type", "role", "key", "value", "default", "metadata"], required := [],
      least := 2 }
    (fun name d p => match name with
      | "name" => return { p with name := ← readOptional readText d }
      | "type" => return { p with typeText := ← readOptional readText d }
      | "role" => return { p with role := ← readRole d }
      | "key" => return { p with key := ← readOptional readText d }
      | "value" => return { p with value := ← readOptional readText d }
      | "default" => return { p with default := ← readOptional readText d }
      | _ => return { p with metadata := ← readMetadata d })
    {}

def Composite.read : Document → Except Fault Composite :=
  readRecord
    { names := ["name", "namespace", "extends", "implements", "abstract", "properties", "metadata"],
      required := [], least := 1 }
    (fun name d c => match name with
      | "name" => return { c with name := ← readOptional readText d }
      | "namespace" => return { c with «namespace» := ← readOptional readText d }
      | "extends" => return { c with base := ← readOptional readText d }
      | "implements" => return { c with interfaces := ← readList readText d }
      | "abstract" => return { c with isAbstract := ← readFlag d }
      | "properties" => return { c with properties := ← readList Property.read d }
      | _ => return { c with metadata := ← readMetadata d })
    {}

def Interface.read : Document → Except Fault Interface :=
  readRecord
    { names := ["name", "namespace", "extends", "properties", "metadata"], required := [],
      least := 1 }
    (fun name d i => match name with
      | "name" => return { i with name := ← readOptional readText d }
      | "namespace" => return { i with «namespace» := ← readOptional readText d }
      | "extends" => return { i with parents := ← readList readText d }
      | "properties" => return { i with properties := ← readList Property.read d }
      | _ => return { i with metadata := ← readMetadata d })
    {}

/-- Integers of 64 bits, signed or unsigned, and texts. -/
def EnumValue.read : Document → Except Fault EnumValue
  | .number (.ok (.int i)) =>
    if Decimal.isInt64 i then .ok (.signed i)
    else if 0 ≤ i ∧ i ≤ Decimal.greatestUInt64 then .ok (.unsigned i.toNat)
    else .error .mismatched
  | .text s => s.map .text
  | d => .error d.mismatch

def Element.read : Document → Except Fault Element :=
  readRecord { names := ["name", "value", "metadata"], required := [], least := 2 }
    (fun name d e => match name with
      | "name" => return { e with name := ← readOptional readText d }
      | "value" => return { e with value := ← readOptional EnumValue.read d }
      | _ => return { e with metadata := ← readMetadata d })
    {}

def Enum.read : Document → Except Fault Enum :=
  readRecord
    { names := ["name", "namespace", "underlying", "elements", "metadata"], required := [],
      least := 1 }
    (fun name d e => match name with
      | "name" => return { e with name := ← readOptional readText d }
      | "namespace" => return { e with «namespace» := ← readOptional readText d }
      | "underlying" => return { e with underlying := ← readOptional readText d }
      | "elements" => return { e with elements := ← readList Element.read d }
      | _ => return { e with metadata := ← readMetadata d })
    {}

/-! ### Types -/

def readerOfKind? : String → Option (Document → Except Fault TypeDecl)
  | "entity" => some fun d => .entity <$> Composite.read d
  | "struct" => some fun d => .struct <$> Composite.read d
  | "interface" => some fun d => .interface <$> Interface.read d
  | "enum" => some fun d => .enum <$> Enum.read d
  | _ => none

def readKind (d : Document) : Except Fault (Document → Except Fault TypeDecl) := do
  match readerOfKind? (← readText d) with
  | some read => return read
  | none => .error .mismatched

/-- How deep the parts of a type may still be nested: the source, its list of types and the type
itself are three levels. -/
def partDepth : Nat := depthLimit - 3

/-- Reads the members of a type in text order: its kind at once, all else as plain values. -/
def readMembers :
    List (Except Fault String × Document) → Option (Document → Except Fault TypeDecl) →
      Except Fault (Option (Document → Except Fault TypeDecl))
  | [], read => .ok read
  | (key, d) :: fs, read => do
    if (← key) = "kind" then
      if read.isSome then .error .mismatched else readMembers fs (some (← readKind d))
    else
      let _ ← d.value partDepth
      readMembers fs read

def isKind (member : Except Fault String × Document) : Bool :=
  match member.1 with
  | .ok key => key = "kind"
  | .error _ => false

/-- A type is a record with a `kind`, or a list that begins with the kind. What does not fit in a
part that has been read is always a mismatch. -/
def TypeDecl.read : Document → Except Fault TypeDecl
  | .record fields ending => do
    let read ← readMembers fields none
    finish ending
    match read with
    | none => .error .mismatched
    | some read =>
      (read (.record (fields.filter fun f => !isKind f) none)).mapError fun _ => .mismatched
  | .list items ending => do
    match items with
    | [] =>
      finish ending
      .error .mismatched
    | kind :: parts =>
      let read ← readKind kind
      let _ ← values partDepth parts
      finish ending
      (read (.list parts none)).mapError fun _ => .mismatched
  | d => .error d.mismatch

/-! ### Sources -/

def read : Document → Except Fault Declaration :=
  readRecord
    { names := ["name", "namespace", "imports", "metadata", "types"], required := [], least := 1 }
    (fun name d s => match name with
      | "name" => return { s with name := ← readOptional readText d }
      | "namespace" => return { s with «namespace» := ← readOptional readText d }
      | "imports" => return { s with imports := ← readList Import.read d }
      | "metadata" => return { s with metadata := ← readMetadata d }
      | _ => return { s with types := ← readList TypeDecl.read d })
    {}

def ofText (text : String) : Except Fault Declaration :=
  Json.decode read text

/-- Only the imports of a source; its types may be anything. -/
def readImports : Document → Except Fault (List Import) :=
  readRecord { names := ["imports"], required := [], least := 0 }
    (fun _ d _ => readList Import.read d)
    []

def importsOfText (text : String) : Except Fault (List Import) :=
  Json.decode readImports text

end SchemaGraph.Declaration
