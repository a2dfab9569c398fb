import SchemaGraph.Proofs.Batches
import SchemaGraph.Proofs.ErrorPhases

/-!
Readers that keep their promise. The imports that discovery follows, the order of the units and the
imports that a unit declares are read off at different times; a reader that lists what it declares
keeps them in step. Whenever a load comes to a unit, what the unit imports is published, and the
unit itself is not published twice.
-/

namespace SchemaGraph

open ImportGraph

/-- The errors of a loop that is out of step with what is published: an import is not there yet, or
a source is there already. -/
def CompileError.OutOfStep : CompileError → Prop
  | sourceNotFound _ | duplicateSchemaSource _ => True
  | _ => False

/-- A load comes to a unit once it has compiled all units before it. -/
def Workspace.ComesTo (w : Workspace) (reader : SourceReader) (roots : List SourceId) (p : Progress)
    (unit : SourceId) : Prop :=
  ∃ before after, (reader.graph roots).bind sequence = .ok (before ++ unit :: after) ∧
    Progress.compileUnits reader { workspace := w } before = (p, .ok ())

/-! ### Errors in step -/

theorem CompileError.not_outOfStep_of_phase {e : CompileError}
    (h : e.phase = .structural ∨ e.phase = .resolution) : ¬e.OutOfStep := by
  cases e <;> simp [phase, OutOfStep] at h ⊢

/-- A source that is not published is not registered twice. -/
theorem Workspace.Indexed.fails_register {w : Workspace} (hw : w.Indexed) {s : Schema}
    (hnew : w.bySource? s.source = none) :
    Fails (fun e => ∃ first, e = .duplicateSchemaName s.name first s.source) (w.register s) := by
  have hkey : w.sources.key? s.source = none := by
    rw [Option.eq_none_iff_forall_ne_some]
    intro key hkey
    obtain ⟨t, ht, -⟩ := (hw.sources_iff s.source key).1 hkey
    rw [Workspace.bySource?, hkey, Option.bind_some, ht] at hnew
    contradiction
  rw [register, hkey]
  cases w.names.key? s.name with
  | none => exact .ok _
  | some key => exact .error ⟨_, rfl⟩

namespace Progress

variable {p : Progress} {d : Draft} {e : CompileError} {reader : SourceReader} {unit : SourceId}

/-- What has been drafted is published in step, if its source is new. -/
theorem not_outOfStep_of_publish (hw : p.workspace.Indexed)
    (hnew : p.workspace.bySource? d.source = none)
    (he : (p.publish d).2 = .error (.refused e)) : ¬e.OutOfStep := by
  have hphase := Draft.fails_resolve (w := p.workspace) (d := d)
  rw [publish] at he
  rcases hresolve : d.resolve p.workspace with ⟨resolved, _ | _⟩
  · rename_i e'
    rw [hresolve] at he hphase
    obtain rfl : e' = e := by simpa [Except.mapError, bind, Except.bind] using he
    exact CompileError.not_outOfStep_of_phase (.inr (hphase e' rfl))
  · obtain ⟨-, linked, hlink, hlinked⟩ := Draft.resolve_ok hresolve
    cases hfinish : linked.finish p.workspace with
    | error e' =>
        obtain rfl : e' = e := by
          simpa [hresolve, Draft.finish, hlink, hfinish, Except.mapError, bind, Except.bind] using he
        exact CompileError.not_outOfStep_of_phase (.inr (Linked.fails_finish e' hfinish))
    | ok s =>
        have hsource : s.source = d.source := by
          rw [(Linked.finish_ok hfinish).1, hlinked.source]
        cases hregister : p.workspace.register s with
        | error e' =>
            obtain rfl : e' = e := by
              simpa [hresolve, Draft.finish, hlink, hfinish, hregister, Except.mapError, bind,
                Except.bind] using he
            obtain ⟨first, rfl⟩ := hw.fails_register (hsource ▸ hnew) e' hregister
            exact id
        | ok w' =>
            simp [hresolve, Draft.finish, hlink, hfinish, hregister, Except.mapError, bind,
              Except.bind, pure, Except.pure] at he

/-- A unit that is compiled out of step has been drawn up so, or its reader gives the error. -/
theorem cases_of_compileUnit (hw : p.workspace.Indexed)
    (he : (p.compileUnit reader unit).2 = .error (.refused e)) (hstep : e.OutOfStep) :
    reader.read unit = .error e ∨ ∃ declaration, reader.read unit = .ok declaration ∧
      Draft.ofDeclaration p.workspace unit declaration = .error e := by
  rw [compileUnit] at he
  split at he
  · contradiction
  rename_i hnew
  rw [Option.not_isSome_iff_eq_none] at hnew
  cases hread : reader.read unit with
  | error e' =>
      rw [hread] at he
      exact .inl (congrArg _ (Failure.refused.inj (Except.error.inj he)))
  | ok declaration =>
      refine .inr ⟨declaration, rfl, ?_⟩
      rw [hread, Except.bind] at he
      cases hdraft : Draft.ofDeclaration p.workspace unit declaration with
      | error e' =>
          rw [hdraft] at he
          exact congrArg _ (Failure.refused.inj (Except.error.inj he))
      | ok draft =>
          rw [hdraft] at he
          have hsource : draft.source = unit := (Draft.ofDeclaration_ok hdraft).2.1
          have hindexed : (p.note (.fixupStarted unit)).workspace.Indexed := hw
          exact absurd hstep (not_outOfStep_of_publish hindexed (hsource ▸ hnew) he)

/-- A run that fails has come to a unit that it cannot compile. -/
theorem exists_of_compileUnits_error {units : List SourceId} {f : Failure}
    (h : (compileUnits reader p units).2 = .error f) :
    ∃ before unit after p', units = before ++ unit :: after ∧
      compileUnits reader p before = (p', .ok ()) ∧ (p'.compileUnit reader unit).2 = .error f := by
  induction units generalizing p with
  | nil => contradiction
  | cons unit units ih =>
      rw [compileUnits] at h
      rcases hunit : p.compileUnit reader unit with ⟨p₁, f' | ⟨⟩⟩
      · rw [hunit] at h
        exact ⟨[], unit, units, p, rfl, rfl, by rw [hunit]; exact h⟩
      · rw [hunit] at h
        obtain ⟨before, other, after, p', rfl, hbefore, herror⟩ := ih h
        refine ⟨unit :: before, other, after, p', rfl, ?_, herror⟩
        rw [compileUnits, hunit]
        exact hbefore

end Progress

/-! ### Imports -/

namespace Workspace.ComesTo

variable {w : Workspace} {reader : SourceReader} {roots : List SourceId} {p : Progress}
  {unit : SourceId} {e : CompileError} {declaration : Declaration}

theorem indexed (h : w.ComesTo reader roots p unit) (hw : w.Indexed) : p.workspace.Indexed := by
  obtain ⟨before, after, -, hunits⟩ := h
  exact (Builds.of_compileUnits hunits).grows.preserves (fun _ _ _ _ _ h hc => hc.indexed h) hw

theorem needs (h : w.ComesTo reader roots p unit) : reader.imports.Needs roots unit := by
  obtain ⟨before, after, horder, -⟩ := h
  exact ((orders_of_eq_ok horder).1.mem_iff unit).1 (by simp)

/-- What a unit imports is before it in the order, and so has been published. -/
theorem published (h : w.ComesTo reader roots p unit) (hreader : reader.ListsImports)
    (hread : reader.read unit = .ok declaration) {i : SourceId}
    (hi : i ∈ declaration.importSources) : i = unit ∨ (p.workspace.bySource? i).isSome := by
  obtain ⟨before, after, horder, hunits⟩ := h
  obtain ⟨horders, hasked⟩ := orders_of_eq_ok horder
  have hordered := hreader.ordered horders hasked
  by_cases heq : i = unit
  · exact .inl heq
  · have hbefore := hordered.mem_before rfl ⟨declaration, hread, hi⟩ heq
    exact .inr ((Builds.of_compileUnits hunits).published i hbefore)

/-- So nothing is wrong with a declaration but what is wrong with it alone. -/
theorem fails_ofDeclaration (h : w.ComesTo reader roots p unit) (hreader : reader.ListsImports)
    (hread : reader.read unit = .ok declaration) :
    Fails (fun e => e.phase = .structural) (Draft.ofDeclaration p.workspace unit declaration) :=
  Draft.fails_ofDeclaration.imp fun e he => by
    rcases he with he | ⟨i, hi, -, hne, hmissing⟩
    · exact he
    · rcases h.published hreader hread (List.mem_map_of_mem hi) with heq | hfound
      · exact absurd heq hne
      · rw [hmissing] at hfound
        contradiction

theorem read_of_outOfStep (h : w.ComesTo reader roots p unit) (hw : w.Indexed)
    (hreader : reader.ListsImports) (he : (p.compileUnit reader unit).2 = .error (.refused e))
    (hstep : e.OutOfStep) : reader.read unit = .error e := by
  rcases Progress.cases_of_compileUnit (h.indexed hw) he hstep with hread | ⟨_, hread, hdraft⟩
  · exact hread
  · have hphase := h.fails_ofDeclaration hreader hread e hdraft
    exact absurd hstep (CompileError.not_outOfStep_of_phase (.inl hphase))

end Workspace.ComesTo

/-- Only the sources that are needed and what the reader says of them can get a load out of step. -/
theorem Workspace.exists_of_load_outOfStep {w : Workspace} (hw : w.Indexed) {reader : SourceReader}
    (hreader : reader.ListsImports) {roots : List SourceId} {e : CompileError}
    (he : (w.load reader roots).result = .error (.refused e)) (hstep : e.OutOfStep) :
    ∃ u, reader.imports.Needs roots u ∧ (reader.imports u = .error e ∨ reader.read u = .error e) := by
  rw [load] at he
  split at he
  · rename_i e' horder
    obtain rfl : e' = e := Failure.refused.inj (Except.error.inj he)
    rw [SourceReader.graph] at horder
    rcases discover_cases (reader.finite roots) with ⟨g, hg, -⟩ | ⟨u, e, he, hu, hlookup⟩
    · rw [hg] at horder
      rcases g.sequence_eq with ⟨-, -, heq⟩ | ⟨-, heq⟩
      · rw [Except.bind, heq] at horder
        contradiction
      · obtain rfl := Except.error.inj (heq.symm.trans horder)
        exact hstep.elim
    · rw [he] at horder
      obtain rfl := Except.error.inj horder
      exact ⟨u, hu, .inl hlookup⟩
  · rename_i order horder
    split at he
    · contradiction
    · rename_i p f hunits
      obtain ⟨before, unit, after, p', rfl, hbefore, hunit⟩ :=
        Progress.exists_of_compileUnits_error (congrArg Prod.snd hunits)
      have hcomes : w.ComesTo reader roots p' unit := ⟨before, after, horder, hbefore⟩
      rw [Except.error.inj he] at hunit
      exact ⟨unit, hcomes.needs, .inr (hcomes.read_of_outOfStep hw hreader hunit hstep)⟩

/-- With a reader that lists, for each source that it can read, at least the imports that the source
declares, every load stays in step. When it comes to a unit, all that the unit imports is published,
but for the unit itself; so no unit is drawn up in vain for a missing import, and none is published
a second time. If a source is said to be missing or to be there already, then by the reader, of a
source that the roots need. -/
theorem consistent_reader_stays_in_step {w : Workspace} (h : Reached w) {reader : SourceReader}
    (hreader : reader.ListsImports) (roots : List SourceId) :
    (∀ p unit, w.ComesTo reader roots p unit →
      (∀ declaration, reader.read unit = .ok declaration →
        (∀ i ∈ declaration.importSources, i = unit ∨ (p.workspace.bySource? i).isSome) ∧
        ∀ id, Draft.ofDeclaration p.workspace unit declaration ≠ .error (.sourceNotFound id)) ∧
      ∀ e, (p.compileUnit reader unit).2 = .error (.refused e) → e.OutOfStep →
        reader.read unit = .error e) ∧
    ∀ e, (w.load reader roots).result = .error (.refused e) → e.OutOfStep →
      ∃ u, reader.imports.Needs roots u ∧
        (reader.imports u = .error e ∨ reader.read u = .error e) := by
  refine ⟨fun p unit hcomes => ⟨fun declaration hread => ⟨?_, fun id hid => ?_⟩, ?_⟩, ?_⟩
  · exact fun i hi => hcomes.published hreader hread hi
  · have hphase := hcomes.fails_ofDeclaration hreader hread _ hid
    contradiction
  · exact fun e he hstep => hcomes.read_of_outOfStep h.indexed hreader he hstep
  · exact fun e he hstep => Workspace.exists_of_load_outOfStep h.indexed hreader he hstep

/-! ### A diamond that is partly published -/

/-- Two ways lead from a unit that imports itself to another; one more unit cannot be read. -/
def partedSources : SourceTable :=
  [("a", { name := some "A", imports := [⟨"b", none⟩, ⟨"a", some "self"⟩, ⟨"c", none⟩] }),
    ("b", { name := some "B", imports := [⟨"d", none⟩] }),
    ("c", { name := some "C", imports := [⟨"d", none⟩] }),
    ("d", { name := some "D" }),
    ("e", { name := some "E", imports := [⟨"a", none⟩] })]

/-- Tells the imports of every source, but reads only some of them. -/
def partedReader : SourceReader where
  imports := partedSources.imports
  read := fun id => if id = "e" then .error (.sourceNotFound "e") else partedSources.read id
  finite := partedSources.finitelyReaching

/-- What both ways lead to has been published before. -/
def partedWorkspace : Workspace :=
  (({ primitives := [] } : Workspace).load partedSources.reader ["d"]).workspace

/-- The unit that imports itself finds what it imports; the last one is said to be missing by the
reader, and so is refused. -/
theorem consistent_reader_stays_in_step_parted :
    Reached partedWorkspace ∧ partedReader.ListsImports ∧
      (∃ p declaration, partedWorkspace.ComesTo partedReader ["a", "e"] p "a" ∧
        partedReader.read "a" = .ok declaration ∧
        declaration.importSources = ["b", "a", "c"] ∧
        (∀ i ∈ declaration.importSources, i = "a" ∨ (p.workspace.bySource? i).isSome) ∧
        ∀ id, Draft.ofDeclaration p.workspace "a" declaration ≠ .error (.sourceNotFound id)) ∧
      (∃ p, partedWorkspace.ComesTo partedReader ["a", "e"] p "e" ∧
        (p.compileUnit partedReader "e").2 = .error (.refused (.sourceNotFound "e")) ∧
        partedReader.read "e" = .error (.sourceNotFound "e")) ∧
      (partedWorkspace.load partedReader ["a", "e"]).result =
        .error (.refused (.sourceNotFound "e")) ∧
      ∃ u, partedReader.imports.Needs ["a", "e"] u ∧
        (partedReader.imports u = .error (.sourceNotFound "e") ∨
          partedReader.read u = .error (.sourceNotFound "e")) := by
  have hreached : Reached partedWorkspace := (Reached.empty [] {} none).load _ _
  have hreader : partedReader.ListsImports := by
    intro id is declaration himports hread
    have hread : partedSources.read id = .ok declaration := by
      rw [partedReader] at hread
      dsimp only at hread
      split at hread
      · contradiction
      · exact hread
    exact partedSources.listsImports id is declaration himports hread
  have hfound : ((partedReader.graph ["a", "e"]).bind sequence,
      (Progress.compileUnits partedReader { workspace := partedWorkspace } ["d", "b", "c"]).2,
      (Progress.compileUnits partedReader { workspace := partedWorkspace } ["d", "b", "c", "a"]).2,
      ((Progress.compileUnits partedReader { workspace := partedWorkspace }
        ["d", "b", "c", "a"]).1.compileUnit partedReader "e").2,
      (partedWorkspace.load partedReader ["a", "e"]).result) =
      (.ok ["d", "b", "c", "a", "e"], .ok (), .ok (), .error (.refused (.sourceNotFound "e")),
        .error (.refused (.sourceNotFound "e"))) := by cbv
  simp only [Prod.mk.injEq] at hfound
  obtain ⟨horder, hfirst, hmore, hrefused, hload⟩ := hfound
  have hcomes : partedWorkspace.ComesTo partedReader ["a", "e"] _ "a" :=
    ⟨["d", "b", "c"], ["e"], horder, Prod.ext rfl hfirst⟩
  have hcomes' : partedWorkspace.ComesTo partedReader ["a", "e"] _ "e" :=
    ⟨["d", "b", "c", "a"], [], horder, Prod.ext rfl hmore⟩
  obtain ⟨hunits, hloads⟩ := consistent_reader_stays_in_step hreached hreader ["a", "e"]
  obtain ⟨hpublished, hdrafted⟩ := (hunits _ _ hcomes).1 _ rfl
  exact ⟨hreached, hreader, ⟨_, _, hcomes, rfl, rfl, hpublished, hdrafted⟩,
    ⟨_, hcomes', hrefused, (hunits _ _ hcomes').2 _ hrefused trivial⟩, hload,
    hloads _ hload trivial⟩

end SchemaGraph
