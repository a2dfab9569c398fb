import SchemaGraph.CommandLine
import SchemaGraph.Compilation
import SchemaGraph.Emission.ReportFiles
import SchemaGraph.Emission.RustSource
import SchemaGraph.ImportGraph.Dot
import SchemaGraph.Settings.Layers
import SchemaGraph.Setup
import SchemaGraph.SourceDirectory

/-!
The program as a function: from the files, the environment and the words of the command line to what
it prints and which files it changes.
-/

namespace SchemaGraph

inductive RunError where
  | settings (problem : ConfigProblem)
  | noSources
  | compile (error : CompileError)
  /-- A reference was read before it was resolved. -/
  | readTooEarly
  | unwritable (path : String) (cause : FileError)
  deriving DecidableEq, Inhabited

/-- The message of an error and, after it, the message of what lies beneath. -/
def CompileError.chain (e : CompileError) : String :=
  String.intercalate ": " (e.message :: e.cause?.toList)

namespace RunError

def ofFailure : Failure → RunError
  | .refused e => .compile e
  | .readTooEarly => .readTooEarly

def message : RunError → String
  | settings problem => s!"failed to load configuration: {(CompileError.config problem).chain}"
  | noSources => "no source ids given"
  | compile error => error.chain
  | readTooEarly => ReadTooEarly.message {}
  | unwritable path cause => s!"failed to write {path}: {cause.message}"

end RunError

/-- What a run prints, what it does to the files and how it ends. -/
structure Outcome where
  output : String := ""
  actions : List FileAction := []
  /-- Whether the run ended well; without an error it may still have found fault. -/
  succeeded : Bool := true
  error : Option RunError := none

namespace Outcome

def failed (e : RunError) : Outcome where
  succeeded := false
  error := some e

def code (o : Outcome) : Nat :=
  if o.succeeded then 0 else 1

def apply (o : Outcome) (t : FileTree) : FileTree :=
  (t.performAll o.actions).1

end Outcome

/-- Settings, roots and the places where sources are found. -/
structure Job where
  settings : Settings
  roots : List SourceId
  directory : SourceDirectory

namespace Job

/-- The source ids in a text, which has semicolons between them. -/
def rootsOf (text : String) : List SourceId :=
  ((Text.pieces ';' text.toList).map fun p => String.ofList (Text.trimChars p)).filter (· ≠ "")

/-- The job that an invocation describes. Its directories replace the configured ones. -/
def ofInvocation (s : Settings) (i : Invocation) : Except RunError Job :=
  let roots := rootsOf i.sources
  if roots.isEmpty then .error .noSources
  else
    let dirs := if i.dirs.isEmpty then s.sources.dirs else i.dirs
    .ok { settings := s, roots, directory := ⟨dirs, s.sources.extension⟩ }

variable (job : Job) (t : FileTree)

def backend : Backend :=
  RustSource.backend job.settings.code.derives

def workspace : Except RunError Workspace :=
  (({} : Setup).withTypes job.settings.types).build.mapError .compile

/-- Loads the roots; gives the workspace and the order of compilation. -/
def load : Except RunError (Workspace × List SourceId) := do
  let l := (← job.workspace).load (job.directory.reader t) job.roots
  let order ← l.result.mapError RunError.ofFailure
  return (l.workspace, order)

/-- The units to emit code for: all of them, or only the roots. -/
def emittedUnits (order : List SourceId) : List SourceId :=
  if job.settings.output.emitImported then order else order.filter job.roots.contains

/-- What is left to say and do once the files of a report are planned. -/
def written (report : Report) (dir output : String) (actions : List FileAction) : Outcome :=
  match (t.performAll actions).2 with
  | .error (path, cause) =>
    { Outcome.failed (.compile (.file path cause)) with output, actions }
  | .ok () =>
    let count := (report.files job.backend.extension).length
    let output := output ++ s!"📁 Wrote {count} file(s) to {dir}\n"
    if report.hasErrors then
      { output := output ++ "❌ Generation finished with errors\n", actions, succeeded := false }
    else { output, actions }

def compile (out : Option String) : Outcome :=
  match job.load t with
  | .error e => .failed e
  | .ok (w, order) =>
    let report := job.backend.emit w (job.emittedUnits order)
    let output := s!"✅ Compiled {order.length} unit(s)\n" ++ report.summary
    let dir := out.getD job.settings.output.dir
    match report.plan t dir job.backend.extension job.settings.output.requireEmpty with
    | .error e => { Outcome.failed (.compile e) with output }
    | .ok actions => job.written t report dir output actions

def unitLine (w : Workspace) (unit : SourceId) : Option String :=
  (w.bySource? unit).map fun s => s!"  {unit} ({s.name}): {s.types.length} type(s)\n"

def check : Outcome :=
  match job.load t with
  | .error e => .failed e
  | .ok (w, order) =>
    let report := job.backend.emit w order
    let output := String.join (order.filterMap (unitLine w)) ++ report.summary
    if report.hasErrors then { output := output ++ "❌ Check failed\n", succeeded := false }
    else { output := output ++ s!"✅ {order.length} unit(s) OK\n" }

def drawing : Except RunError String := do
  discard job.workspace
  let g ← ((job.directory.reader t).graph job.roots).mapError RunError.compile
  return g.toDot

def graph (output : Option String) : Outcome :=
  match job.drawing t, output with
  | .error e, _ => .failed e
  | .ok dot, none => { output := dot }
  | .ok dot, some path =>
    let actions := [FileAction.write path dot]
    match (t.performAll actions).2 with
    | .error (path, cause) => { Outcome.failed (.unwritable path cause) with actions }
    | .ok () => { output := s!"✅ Exported DOT to: {path}\n", actions }

def run : Command → Outcome
  | .compile out => job.compile t out
  | .check => job.check t
  | .graph output => job.graph t output

end Job

namespace Invocation

/-- Loads the settings and does what the command says. -/
def run (i : Invocation) (t : FileTree) (env : Environment) : Outcome :=
  match Settings.load t env i.config with
  | .error p => .failed (.settings p)
  | .ok s =>
    match Job.ofInvocation s i with
    | .error e => .failed e
    | .ok job => job.run t i.command

/-! ### Files that a run looks at -/

/-- The paths at which a settings file may be. -/
def settingsPaths (i : Invocation) (t : FileTree) (env : Environment) : List String :=
  (Settings.usualFiles t env ++ i.config.toList).flatMap fun path =>
    (Settings.candidates t path).map Prod.fst

/-- The path that a run writes to, if it writes anything. -/
def target? (i : Invocation) (s : Settings) : Option String :=
  match i.command with
  | .compile out => some (out.getD s.output.dir)
  | .check => none
  | .graph output => output

/-- The paths that a run may look at as far as the known files tell; once all of them are known, a
run depends on nothing else. -/
def lookups (i : Invocation) (t : FileTree) (env : Environment) : List String :=
  env.userFile?.toList ++ i.settingsPaths t env ++
    match Settings.load t env i.config with
    | .error _ => []
    | .ok s =>
      match Job.ofInvocation s i with
      | .error _ => []
      | .ok job =>
        let imported := t.files.flatMap fun f => SourceDirectory.importsOfContent f.2
        (i.target? s).toList ++ (job.roots ++ imported).flatMap job.directory.candidates

end Invocation

end SchemaGraph
