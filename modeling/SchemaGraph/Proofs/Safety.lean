import SchemaGraph.Proofs.GuardedEmission
import SchemaGraph.Proofs.GuardedLoading
import SchemaGraph.Proofs.PrimitiveNames

/-!
Safety of sessions. A session is a list of calls of one workspace, some of which change it. Whatever
is loaded, emitted or asked for, and whichever loads fail, the guarded session has the answers of
the session itself: no binding is read before it is resolved, and no schema, type, property,
primitive or number of missing imports is looked up where there is none.

A reader from whose roots infinitely many sources could be reached would be asked for imports for
ever, before anything else is looked up; readers are not like that here.
-/

namespace SchemaGraph

/-- What a workspace can be asked to do. -/
inductive Call where
  | load (reader : SourceReader) (roots : List SourceId)
  | emit (derives : List String)
  | emitUnits (derives : List String) (units : List SourceId)
  | primaryKey (entity : TypeRef)

inductive Answer where
  | loaded (loading : Loading)
  | emitted (report : Report)
  | key (layout : Option KeyLayout)

namespace Workspace

/-- The workspace after a call, and the answer. -/
def call (w : Workspace) : Call → Workspace × Answer
  | .load reader roots =>
    let loading := w.load reader roots
    (loading.workspace, .loaded loading)
  | .emit derives => (w, .emitted ((RustSource.backend derives).emitAll w))
  | .emitUnits derives units => (w, .emitted ((RustSource.backend derives).emit w units))
  | .primaryKey e => (w, .key (w.primaryKey? e))

/-- The answers to calls, each in the workspace that the calls before it have left. -/
def session (w : Workspace) : List Call → List Answer
  | [] => []
  | c :: cs => (w.call c).2 :: (w.call c).1.session cs

def HasEntity (w : Workspace) (e : TypeRef) : Prop :=
  ∃ t, w.type? e = some t ∧ t.kind = .entity

/-- The calls ask for keys of entities only that are published when it is their turn. -/
def Serves (w : Workspace) : List Call → Prop
  | [] => True
  | c :: cs => (∀ e, c = .primaryKey e → w.HasEntity e) ∧ (w.call c).1.Serves cs

end Workspace

namespace Guarded

def call (w : Workspace) : Call → Guarded (Workspace × Answer)
  | .load reader roots => do
    let loading ← load w reader roots
    return (loading.workspace, .loaded loading)
  | .emit derives => return (w, .emitted (← emitAll derives w))
  | .emitUnits derives units => return (w, .emitted (← emit derives w units))
  | .primaryKey e => return (w, .key (← primaryKey? w e))

def session (w : Workspace) : List Call → Guarded (List Answer)
  | [] => return []
  | c :: cs => do
    let (w, answer) ← call w c
    return answer :: (← session w cs)

end Guarded

namespace Workspace.Intact

variable {w : Workspace} (hw : w.Intact)

include hw

theorem call (c : Call) : (w.call c).1.Intact := by
  cases c with
  | load reader roots => exact hw.load reader roots
  | emit | emitUnits | primaryKey => exact hw

theorem guarded_call {c : Call} (hc : ∀ e, c = .primaryKey e → w.HasEntity e) :
    Guarded.call w c = .ok (w.call c) := by
  cases c with
  | load reader roots => exact Guarded.ok_bind (Guarded.load_eq hw reader roots)
  | emit derives => exact Guarded.ok_bind (Guarded.emitAll_eq hw derives)
  | emitUnits derives units => exact Guarded.ok_bind (Guarded.emit_eq hw derives units)
  | primaryKey e =>
      obtain ⟨t, ht, hentity⟩ := hc e rfl
      exact Guarded.ok_bind (Guarded.primaryKey?_eq hw ht hentity)

theorem guarded_session {cs : List Call} (h : w.Serves cs) :
    Guarded.session w cs = .ok (w.session cs) := by
  induction cs generalizing w with
  | nil => rfl
  | cons c cs ih =>
      obtain ⟨hc, hcs⟩ := h
      refine (Guarded.ok_bind (hw.guarded_call hc)).trans ?_
      exact Guarded.ok_bind (ih (hw.call c) hcs)

end Workspace.Intact

/-- However a workspace was set up, and whatever readers, roots and units the calls of a session
name, the guarded session runs to its end: it has no fault, and its answers are those of the
session. -/
theorem sessions_never_fault {setup : Setup} {w : Workspace} (hbuild : setup.build = .ok w)
    {calls : List Call} (h : w.Serves calls) : Guarded.session w calls = .ok (w.session calls) :=
  (Workspace.Intact.of_build hbuild).guarded_session h

/-- A schema with an entity and a schema that imports it, with an entity that derives from that; the
third source has a type that extends itself. -/
def sessionSources : SourceTable :=
  [("a", { name := some "A", types := [
      .entity { name := some "E", properties := [
        { name := some "id", typeText := some "int32", role := .primaryKey }] }] }),
    ("b", { name := some "B", imports := [{ source := "a" }], types := [
      .entity { name := some "F", base := some "A.E" }] }),
    ("c", { name := some "C", imports := [{ source := "b" }], types := [
      .struct { name := some "S", base := some "S" }] })]

/-- The first load compiles two units and withdraws them, since the third has a cycle. -/
theorem sessions_never_fault_withdrawn :
    let reader := sessionSources.reader
    let calls : List Call := [.load reader ["c"], .emit ["Debug"], .load reader ["b"],
      .emitUnits [] ["b", "c"], .primaryKey ⟨1, 0⟩]
    let w := Workspace.default
    ({} : Setup).build = .ok w ∧ w.Serves calls ∧
      Guarded.session w calls = .ok (w.session calls) ∧
      (w.load reader ["c"]).result = .error (.refused (.inheritanceCycle "c" "S")) := by
  have hbuild : ({} : Setup).build = .ok Workspace.default :=
    Setup.build_of_nodup (by decide) rfl
  have hfails : (Workspace.default.load sessionSources.reader ["c"]).result =
      .error (.refused (.inheritanceCycle "c" "S")) := by cbv
  have hsame : (Workspace.default.load sessionSources.reader ["c"]).workspace =
      Workspace.default := by
    rcases (Workspace.default.load_cases sessionSources.reader ["c"]).1 with
      ⟨-, heq⟩ | ⟨_, -, hok, -⟩
    · exact heq
    · rw [hfails] at hok
      contradiction
  have hkind : ((Workspace.default.load sessionSources.reader ["b"]).workspace.type? ⟨1, 0⟩).map
      UserType.kind = some .entity := by cbv
  intro reader calls w
  have hserves : w.Serves calls := by
    refine ⟨by simp, by simp, by simp, by simp, fun e he => ?_, trivial⟩
    obtain rfl := Call.primaryKey.inj he
    simp only [Workspace.call, w, reader, hsame]
    exact Option.map_eq_some_iff.1 hkind
  exact ⟨hbuild, hserves, sessions_never_fault hbuild hserves, hfails⟩

end SchemaGraph
