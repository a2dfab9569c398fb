import SchemaGraph.Config

/-!
Tables of a TOML document while they are read. A table can be opened by a header, by the header of a
table below it, or by a dotted key, and each of these may be continued in its own way only: a header
opens a table once, dotted keys do not add to a table with a header, and inline values are closed.
-/

namespace SchemaGraph.Toml

inductive Origin where
  | header
  /-- Named on the way to a longer header. -/
  | passed
  | dotted
  deriving DecidableEq

inductive Node where
  | value (v : Config)
  | table (origin : Origin) (entries : List (String × Node))
  /-- A list of tables, each under a header of its own. -/
  | tables (items : List (List (String × Node)))

abbrev Entries := List (String × Node)

/-- A change to the entries of one table, which may be refused. -/
abbrev Edit := Entries → Option Entries

namespace Entries

/-- Changes what a key stands for. -/
def alter (key : String) (f : Option Node → Option Node) : Edit
  | [] => (f none).map fun n => [(key, n)]
  | (k, n) :: es =>
    if k = key then (f (some n)).map fun n => (k, n) :: es
    else (alter key f es).map ((k, n) :: ·)

/-- Changes the last table of a list. -/
def alterLast (edit : Edit) : List Entries → Option (List Entries)
  | [] => none
  | [es] => (edit es).map fun es => [es]
  | es :: rest => (alterLast edit rest).map (es :: ·)

/-- Whether a path of the given kind may enter a table. Dotted keys enter no table with a header,
and the last table that they enter is one of their own. -/
def mayEnter (kind origin : Origin) (isLast : Bool) : Bool :=
  kind != .dotted || (origin != .header && (!isLast || origin == .dotted))

/-- Makes an edit in the table at the end of a path. Tables that are missing are opened, and of a
list of tables the last one is entered. -/
def editAt (kind : Origin) (edit : Edit) : List String → Edit
  | [] => edit
  | k :: ks => alter k fun
    | none => (editAt kind edit ks []).map (Node.table kind)
    | some (.value _) => none
    | some (.table origin es) =>
      if mayEnter kind origin ks.isEmpty then (editAt kind edit ks es).map (Node.table origin)
      else none
    | some (.tables items) =>
      if mayEnter kind .passed ks.isEmpty then (alterLast (editAt kind edit ks) items).map .tables
      else none

def add (key : String) (v : Config) : Edit :=
  alter key fun
    | none => some (.value v)
    | some _ => none

def addDotted (path : List String) (key : String) (v : Config) : Edit :=
  editAt .dotted (add key v) path

/-- Opens a table by its header. -/
def openTable (key : String) : Edit :=
  alter key fun
    | none => some (.table .header [])
    | some (.table .passed es) => some (.table .header es)
    | some _ => none

/-- Opens one more table of a list. -/
def openItem (key : String) : Edit :=
  alter key fun
    | none => some (.tables [[]])
    | some (.tables items) => some (.tables (items ++ [[]]))
    | some _ => none

end Entries

mutual

def Node.toConfig : Node → Config
  | .value v => v
  | .table _ es => .table (fieldsOf es)
  | .tables items => .list (tablesOf items)

def fieldsOf : List (String × Node) → List (String × Config)
  | [] => []
  | (k, n) :: es => (k, n.toConfig) :: fieldsOf es

def tablesOf : List (List (String × Node)) → List Config
  | [] => []
  | es :: rest => .table (fieldsOf es) :: tablesOf rest

end

end SchemaGraph.Toml
