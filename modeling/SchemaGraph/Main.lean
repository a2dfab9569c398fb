import SchemaGraph.Program

/-!
The program at work: finds out what a run looks at, runs it, and does to the files what it says.
-/

open SchemaGraph

namespace SchemaGraph.Main

/-- The variables in the text of an environment, which ends each one with a NUL character. -/
def variablesOf (text : String) : List (String × String) :=
  (Text.pieces '\x00' text.toList).filterMap fun entry =>
    (Text.cutAt '=' entry).map fun (name, value) => (String.ofList name, String.ofList value)

def environment : IO Environment := do
  let bytes ← try IO.FS.readBinFile "/proc/self/environ" catch _ => pure ByteArray.empty
  return { assigned := variablesOf ((String.fromUTF8? bytes).getD "") }

/-- Adds what is at a path to the tree. -/
def look (t : FileTree) (path : String) : IO FileTree := do
  match t.resolve path with
  | .error _ => return t
  | .ok p =>
    if t.isFile p || t.isDir p then return t
    try
      discard (IO.FS.realPath path)
    catch _ => return t
    try
      let bytes ← IO.FS.readBinFile path
      return t.put p (String.fromUTF8? bytes)
    catch _ => return t.addDir p

/-- The paths that lead to a path, and the path itself. -/
def leading (path : String) : List String :=
  let names := FileTree.names path
  ((List.range names.length).map fun n => String.intercalate "/" (names.take (n + 1))).filter
    (· ≠ "")

/-- Adds everything that a run looks at to the tree. -/
partial def gather (i : Invocation) (env : Environment) (t : FileTree) (known : List String) :
    IO FileTree := do
  let paths := (i.lookups t env).filter fun p => !known.contains p
  if paths.isEmpty then return t
  let t ← (paths.flatMap leading).foldlM look t
  gather i env t (known ++ paths)

def perform : FileAction → IO Unit
  | .removeDirectory path => IO.FS.removeDirAll path
  | .makeDirectory path => IO.FS.createDirAll path
  | .write path text => IO.FS.writeFile path text

def run (i : Invocation) : IO UInt32 := do
  let env ← environment
  let here := toString (← IO.currentDir)
  let home := (FileTree.names here).filter (· ≠ "")
  let tree ← gather i env { home } []
  let o := i.run tree env
  try
    o.actions.forM perform
  catch _ => pure ()
  IO.print o.output
  if let some e := o.error then IO.eprintln s!"❌ Error: {e.message}"
  return o.code.toUInt32

end SchemaGraph.Main

def main (words : List String) : IO UInt32 :=
  match CommandLine.read words with
  | .run i => SchemaGraph.Main.run i
  | .help => do
    IO.print CommandLine.usage
    return 0
  | .misuse => do
    IO.eprint CommandLine.usage
    return 2
