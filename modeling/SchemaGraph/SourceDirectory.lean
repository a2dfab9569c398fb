import SchemaGraph.FileTree
import SchemaGraph.SourceReader

/-!
Sources in files. The source `shared/Geo` is the file `shared/Geo` with the extension of the search,
in the first search directory that has it. The imports of a source are read without its types.
-/

namespace SchemaGraph

structure SourceDirectory where
  dirs : List String
  extension : String
  deriving DecidableEq, Inhabited

namespace SourceDirectory

variable (s : SourceDirectory) (t : FileTree)

/-- The paths at which a source is looked for, in this order. -/
def candidates (id : SourceId) : List String :=
  s.dirs.map fun dir => FileTree.join dir (id ++ "." ++ s.extension)

def locate (id : SourceId) : Except CompileError String :=
  ((s.candidates id).find? fun path => (t.file? path).isSome).elim (.error (.sourceNotFound id)) .ok

def textAt (path : String) : Except CompileError String :=
  match (t.file? path).bind t.content? with
  | some (some text) => .ok text
  | some none => .error (.file path .notText)
  | none => .error (.file path .notFound)

def decode {α : Type} (read : String → Except Json.Fault α) (id : SourceId) :
    Except CompileError α := do
  let text ← textAt t (← s.locate t id)
  match read text with
  | .ok value => .ok value
  | .error f => .error (.json id f)

def read (id : SourceId) : Except CompileError Declaration :=
  s.decode t Declaration.ofText id

/-- The sources that the text of a source imports. -/
def importSourcesOfText (text : String) : Except Json.Fault (List SourceId) :=
  (Declaration.importsOfText text).map fun is => is.map Declaration.Import.source

def imports (id : SourceId) : Except CompileError (List SourceId) :=
  s.decode t importSourcesOfText id

/-- The sources that a file imports, if it can be read. -/
def importsOfContent (c : Content) : List SourceId :=
  (c.bind fun text => (importSourcesOfText text).toOption).getD []

theorem mem_files_of_textAt {path text : String} (h : textAt t path = .ok text) :
    ∃ p, (p, some text) ∈ t.files := by
  unfold textAt at h
  split at h <;> try contradiction
  rename_i found
  cases h
  obtain ⟨p, _, hp⟩ := Option.bind_eq_some_iff.1 found
  obtain ⟨f, hf, hc⟩ := Option.map_eq_some_iff.1 hp
  exact ⟨f.1, by rw [← hc]; exact List.mem_of_find?_eq_some hf⟩

theorem finitelyReaching (roots : List SourceId) :
    ImportGraph.FinitelyReaching (s.imports t) roots := by
  refine ⟨roots ++ t.files.flatMap fun f => importsOfContent f.2, fun r hr => by simp [hr], ?_⟩
  intro u _ is his i hi
  unfold imports decode at his
  cases hl : s.locate t u with
  | error e => simp [hl, bind, Except.bind] at his
  | ok path =>
    cases ht : textAt t path with
    | error e => simp [hl, ht, bind, Except.bind] at his
    | ok text =>
      cases hd : importSourcesOfText text with
      | error f => simp [hl, ht, hd, bind, Except.bind] at his
      | ok found =>
        simp only [hl, ht, hd, bind, Except.bind, Except.ok.injEq] at his
        obtain ⟨p, hp⟩ := mem_files_of_textAt t ht
        refine List.mem_append_right _ (List.mem_flatMap.2 ⟨_, hp, ?_⟩)
        simpa [importsOfContent, hd, his, Except.toOption] using hi

def reader : SourceReader where
  imports := s.imports t
  read := s.read t
  finite := s.finitelyReaching t

/-! ### Listing -/

/-- A name without `ending` at its end. -/
def withoutEnding? (ending name : List Char) : Option (List Char) :=
  if ending.isSuffixOf name then some (name.take (name.length - ending.length)) else none

/-- A directory name as it stands in a source id: a backslash separates too. -/
def idPart (name : String) : String :=
  String.ofList (name.toList.map fun c => if c = '\\' then '/' else c)

/-- The source in a file, from the names that lead to it from a search directory. -/
def sourceAt? (p : Place) : Option SourceId :=
  match p.getLast? with
  | none => none
  | some name =>
    (withoutEnding? ("." ++ s.extension).toList name.toList).map fun stem =>
      String.intercalate "/" (p.dropLast.map idPart ++ [String.ofList stem])

def sourcesIn (dir : String) : List SourceId :=
  match t.existing? dir with
  | none => []
  | some p => (t.filesBelow p).filterMap fun f => s.sourceAt? f.1

/-- All sources there are, each once, in the order of the search directories. -/
def available : List SourceId :=
  (s.dirs.flatMap (s.sourcesIn t)).foldl (fun ids id => if id ∈ ids then ids else ids ++ [id]) []

end SourceDirectory

end SchemaGraph
