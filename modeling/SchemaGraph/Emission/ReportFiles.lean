import SchemaGraph.Emission.Report
import SchemaGraph.FileTree

/-!
Reports as files: every result that has code becomes a file in one directory, and nothing else is
left there.
-/

namespace SchemaGraph.Report

/-- The name and text of each file, in the order of the results. -/
def files (r : Report) (extension : String) : List (String × String) :=
  r.results.filterMap fun x => x.code.map fun code => (x.fileStem ++ "." ++ extension, code)

/-- Makes `dir` an empty directory and writes the files there. An earlier directory goes first. -/
def actions (r : Report) (dir extension : String) (isThere : Bool) : List FileAction :=
  (if isThere then [.removeDirectory dir] else []) ++ .makeDirectory dir ::
    (r.files extension).map fun f => .write (FileTree.join dir f.1) f.2

/-- What it takes to write a report, unless `dir` has to be new and is not. -/
def plan (r : Report) (t : FileTree) (dir extension : String) (requireEmpty : Bool) :
    Except CompileError (List FileAction) :=
  let isThere := (t.existing? dir).isSome
  if isThere && requireEmpty then .error (.file dir .notNew)
  else .ok (r.actions dir extension isThere)

/-- Writes the files of a report into `dir`; gives their names. -/
def write (r : Report) (t : FileTree) (dir extension : String) (requireEmpty : Bool) :
    FileTree × Except CompileError (List String) :=
  match r.plan t dir extension requireEmpty with
  | .error e => (t, .error e)
  | .ok actions =>
    match t.performAll actions with
    | (t, .error (path, cause)) => (t, .error (.file path cause))
    | (t, .ok ()) => (t, .ok ((r.files extension).map Prod.fst))

end SchemaGraph.Report
