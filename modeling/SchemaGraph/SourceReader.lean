import SchemaGraph.Declaration.Decode
import SchemaGraph.ImportGraph.Discovery

/-!
Readers of schema sources. A reader answers two questions about a source: what it imports, and what
it declares. A table of declarations held in memory is one kind of reader.
-/

namespace SchemaGraph

structure SourceReader where
  imports : ImportGraph.ImportLookup
  read : SourceId → Except CompileError Declaration
  /-- From any roots only finitely many sources can be reached. A load asks for no more than what
  its own roots reach. -/
  finite : ∀ roots, ImportGraph.FinitelyReaching imports roots

namespace SourceReader

/-- The graph of all units that the roots need. -/
def graph (reader : SourceReader) (roots : List SourceId) : Except CompileError ImportGraph :=
  ImportGraph.discover (reader.finite roots)

end SourceReader

/-- The sources that a declaration imports. -/
def Declaration.importSources (d : Declaration) : List SourceId :=
  d.imports.map Declaration.Import.source

/-- Declarations by the source that they belong to. -/
abbrev SourceTable := List (SourceId × Declaration)

namespace SourceTable

/-- Puts a declaration in the place of an earlier one of the same source. -/
def insert (t : SourceTable) (id : SourceId) (d : Declaration) : SourceTable :=
  (id, d) :: t.filter fun entry => entry.1 ≠ id

/-- Inserts the declaration that a JSON text holds. -/
def insertText (t : SourceTable) (id : SourceId) (text : String) :
    Except CompileError SourceTable :=
  match Declaration.ofText text with
  | .ok d => .ok (t.insert id d)
  | .error f => .error (.json id f)

def read (t : SourceTable) (id : SourceId) : Except CompileError Declaration :=
  match t.find? fun entry => entry.1 = id with
  | some entry => .ok entry.2
  | none => .error (.sourceNotFound id)

def imports (t : SourceTable) (id : SourceId) : Except CompileError (List SourceId) :=
  (t.read id).map Declaration.importSources

theorem finitelyReaching (t : SourceTable) (roots : List SourceId) :
    ImportGraph.FinitelyReaching t.imports roots := by
  refine ⟨roots ++ t.flatMap fun entry => entry.2.importSources, fun r hr => by simp [hr], ?_⟩
  intro u _ is his i hi
  simp only [imports, read] at his
  split at his
  · rename_i entry hfind
    have hmem := List.mem_of_find?_eq_some hfind
    simp only [Except.map, Except.ok.injEq] at his
    exact List.mem_append_right _ (List.mem_flatMap.2 ⟨entry, hmem, his ▸ hi⟩)
  · simp [Except.map] at his

def reader (t : SourceTable) : SourceReader where
  imports := t.imports
  read := t.read
  finite := t.finitelyReaching

end SourceTable

end SchemaGraph
