import SchemaGraph.DataType

/-!
What comes of emitting code: a result for every type and for every aggregate of a schema, with a
severity and a message.
-/

namespace SchemaGraph

inductive Severity where
  | success
  | info
  | warning
  | error
  deriving DecidableEq, Inhabited

namespace Severity

def all : List Severity := [success, info, warning, error]

def rank : Severity → Nat
  | success => 0
  | info => 1
  | warning => 2
  | error => 3

def name : Severity → String
  | success => "success"
  | info => "info"
  | warning => "warning"
  | error => "error"

/-- The more severe of two. -/
def max (a b : Severity) : Severity :=
  if a.rank < b.rank then b else a

end Severity

structure Note where
  severity : Severity
  text : String
  deriving DecidableEq, Inhabited

structure Emitted where
  code : String
  notes : List Note := []
  deriving DecidableEq, Inhabited

def Emitted.severity (e : Emitted) : Severity :=
  (e.notes.map Note.severity).foldl Severity.max .success

structure EmissionResult where
  severity : Severity
  message : String
  /-- The kind of the type, or nothing for the aggregate of a schema. -/
  kind : Option TypeKind
  schemaName : String
  typeName : String
  «namespace» : String
  /-- Absent if no code could be generated. -/
  code : Option String
  deriving DecidableEq, Inhabited

namespace EmissionResult

def kindName (r : EmissionResult) : String :=
  (r.kind.map TypeKind.name).getD "schema"

/-- The name of the file for the code, without an extension. -/
def fileStem (r : EmissionResult) : String :=
  match r.kind with
  | none => r.schemaName
  | some _ => r.schemaName ++ "." ++ r.typeName

def isError (r : EmissionResult) : Bool :=
  r.severity = .error

/-- The line of a report on a result that is more than a success. -/
def line (r : EmissionResult) : String :=
  s!"  [{r.severity.name}] {r.fileStem}: {r.message}\n"

end EmissionResult

structure Report where
  language : String
  results : List EmissionResult
  deriving DecidableEq, Inhabited

namespace Report

def count (r : Report) (s : Severity) : Nat :=
  r.results.countP fun x => x.severity = s

def errors (r : Report) : List EmissionResult :=
  r.results.filter EmissionResult.isError

def hasErrors (r : Report) : Bool :=
  r.results.any EmissionResult.isError

/-- A line of counts, then a line for every result that is more than a success. -/
def summary (r : Report) : String :=
  let counts := String.intercalate ", " (Severity.all.map fun s => s!"{r.count s} {s.name}")
  s!"{r.language}: {r.results.length} results ({counts})\n" ++
    String.join ((r.results.filter fun x => x.severity ≠ .success).map EmissionResult.line)

end Report

end SchemaGraph
