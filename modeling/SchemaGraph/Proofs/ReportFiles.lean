import SchemaGraph.Emission.ReportFiles
import SchemaGraph.Proofs.Directories
import SchemaGraph.Proofs.Reports
import SchemaGraph.Proofs.TypeNotation

/-!
Reports that are written to a directory. No two results have files of one name, since the names of
schemas and types are identifiers and differ. So writing a report one file after the other loses
none of them, and the directory, which is made anew, holds nothing else.
-/

namespace SchemaGraph

variable {w : Workspace} {s s' : Schema} {b : Backend} {v : SchemaView} {units : List SourceId}

/-! ### Stems -/

/-- The stems that the results for the schema can have. -/
def Schema.stems (s : Schema) : List String :=
  (s.types.map fun t => s.name ++ "." ++ t.name) ++ [s.name]

theorem Backend.fileStems_sublist :
    ((b.schemaResults v).map EmissionResult.fileStem).Sublist v.schema.stems := by
  have htypes : (b.schemaReport v).types.map EmissionResult.fileStem =
      v.schema.types.map fun t => v.schema.name ++ "." ++ t.name := by
    rw [← map_snd_zip_refs v.schema.toSchemaOf, List.map_map, eq_comm, ← List.forall₂_eq_eq_eq,
      List.forall₂_map_left_iff, List.forall₂_map_right_iff]
    refine answers_schemaReport.types.imp fun e x hx => ?_
    simp [EmissionResult.fileStem, hx.ofType.kind, hx.ofType.schemaName, hx.ofType.typeName]
  rw [schemaResults_eq, List.map_append, htypes, Schema.stems]
  refine List.Sublist.append (List.Sublist.refl _) ?_
  cases h : (b.schemaReport v).aggregate with
  | none => exact List.nil_sublist _
  | some x =>
      have hx := (answers_schemaReport.aggregate x h).ofSchema
      simp [EmissionResult.fileStem, hx.kind, hx.schemaName]

/-- A stem is the name of its schema, alone or before a dot. -/
theorem Schema.eq_of_mem_stems {x : String} (h : x ∈ s.stems) :
    ∃ rest, x.toList = s.name.toList ++ rest ∧ ∀ c ∈ rest.head?, c = '.' := by
  rcases List.mem_append.1 h with h | h
  · obtain ⟨t, -, rfl⟩ := List.mem_map.1 h
    exact ⟨'.' :: t.name.toList, by simp, by simp⟩
  · exact ⟨[], by simp [List.mem_singleton.1 h], by simp⟩

theorem Schema.disjoint_stems (hs : Text.isIdentifier s.name = true)
    (hs' : Text.isIdentifier s'.name = true) (hne : s.name ≠ s'.name) :
    s.stems.Disjoint s'.stems := by
  intro x hx hx'
  obtain ⟨rest, hrest, hdot⟩ := Schema.eq_of_mem_stems hx
  obtain ⟨rest', hrest', hdot'⟩ := Schema.eq_of_mem_stems hx'
  have hname := Text.word_append_inj (P := Text.isIdentifierPart)
    (fun _ => Text.isIdentifierPart_of_mem hs) (fun _ => Text.isIdentifierPart_of_mem hs')
    (fun c hc => by rw [hdot c hc]; decide) (fun c hc => by rw [hdot' c hc]; decide)
    (hrest.symm.trans hrest')
  exact hne (String.toList_inj.1 hname.1)

theorem Schema.nodup_stems (h : s.typeNames.Nodup) : s.stems.Nodup := by
  rw [stems, ← List.concat_eq_append]
  refine List.Nodup.concat ?_ ?_
  · rw [List.mem_map]
    rintro ⟨t, -, ht⟩
    have hlength := congrArg (fun x => x.toList.length) ht
    simp only [String.toList_append, List.length_append] at hlength
    have hdot : ".".toList.length = 1 := rfl
    omega
  · have hinj : Function.Injective fun name => s.name ++ "." ++ name :=
      fun _ _ => (String.append_right_inj _).1
    have hmap := h.map hinj
    rwa [SchemaOf.typeNames, List.map_map] at hmap

theorem Reached.nodup_fileStems (h : Reached w) (b : Backend) (hunits : units.Nodup) :
    ((b.emit w units).results.map EmissionResult.fileStem).Nodup := by
  have hmem : ∀ s ∈ units.filterMap w.bySource?, s ∈ w.schemas := fun s hs => by
    obtain ⟨u, -, hu⟩ := List.mem_filterMap.1 hs
    exact (h.indexed.mem_of_bySource? hu).1
  have hnames : (units.filterMap w.bySource?).Pairwise fun s s' => s.name ≠ s'.name := by
    rw [List.pairwise_filterMap]
    refine hunits.imp fun {u u'} hne s hs s' hs' hname => ?_
    obtain ⟨hget, rfl⟩ := h.indexed.bySource?_eq_some.1 hs
    obtain ⟨hget', rfl⟩ := h.indexed.bySource?_eq_some.1 hs'
    rw [h.indexed.key_of_name hget hget' hname, hget'] at hget
    exact hne (Option.some.inj hget ▸ rfl)
  have hstems : ∀ s, ((b.schemaResults ⟨w, s⟩).map EmissionResult.fileStem).Sublist s.stems :=
    fun s => Backend.fileStems_sublist
  rw [Backend.results_emit, List.map_flatMap, List.nodup_flatMap]
  constructor
  · intro s hs
    exact (Schema.nodup_stems (h.wellFormed.nodup_typeNames s (hmem s hs))).sublist (hstems s)
  · refine hnames.imp_of_mem fun {s s'} hs hs' hne => ?_
    have hdisjoint := Schema.disjoint_stems (h.permitted s (hmem s hs)).name.isIdentifier
      (h.permitted s' (hmem s' hs')).name.isIdentifier hne
    exact List.disjoint_of_subset_left (hstems s).subset
      (List.disjoint_of_subset_right (hstems s').subset hdisjoint)

/-! ### Writing -/

open FileTree

section Write

variable {r : Report} {t t' : FileTree} {dir extension : String}

theorem Report.files_inStep (r : Report) (extension : String) : List.Forall₂
    (fun x f => f.1 = x.fileStem ++ "." ++ extension ∧ x.code = some f.2)
    (r.results.filter fun x => x.code.isSome) (r.files extension) := by
  rw [files]
  induction r.results with
  | nil => exact .nil
  | cons x xs ih =>
      cases hx : x.code with
      | none =>
          rw [List.filter_cons_of_neg (by simp [hx]), List.filterMap_cons_none (by simp [hx])]
          exact ih
      | some code =>
          rw [List.filter_cons_of_pos (by simp [hx]), List.filterMap_cons_some (by rw [hx]; rfl)]
          exact .cons ⟨rfl, hx⟩ ih

/-- The directory is empty before the first file is written. -/
theorem Report.start_eq_ok (hplace : t.LeadsToPlace dir) {as : List FileAction}
    (h : t.performAll ((if (t.existing? dir).isSome then [FileAction.removeDirectory dir] else [])
      ++ .makeDirectory dir :: as) = (t', .ok ())) :
    ∃ t₁ : FileTree, t₁.HoldsOnly dir [] ∧ t₁.performAll as = (t', .ok ()) := by
  cases hexisting : t.existing? dir with
  | none =>
      rw [hexisting, Option.isSome_none, if_neg Bool.false_ne_true, List.nil_append] at h
      obtain ⟨t₁, hmake, hwrite⟩ := performAll_cons_eq_ok.1 h
      rw [perform_makeDirectory_eq_ok] at hmake
      have hbare := isBare_of_not_isDir (Bool.eq_false_iff.2 fun hdir => by
        simpa [hexisting] using hplace hdir)
      exact ⟨t₁, holdsOnly_nil_of_makeDirectory hplace.ne_empty hbare hmake, hwrite⟩
  | some p =>
      rw [hexisting, Option.isSome_some, if_pos rfl, List.singleton_append] at h
      obtain ⟨t₀, hremove, h⟩ := performAll_cons_eq_ok.1 h
      obtain ⟨t₁, hmake, hwrite⟩ := performAll_cons_eq_ok.1 h
      rw [perform_makeDirectory_eq_ok] at hmake
      obtain ⟨q, hresolve, rfl⟩ := removeDirectory_eq_ok hremove
      obtain rfl := eq_destination_of_resolve hresolve
      have hbare := isBare_remove t (destination t.home dir)
      exact ⟨t₁, holdsOnly_nil_of_makeDirectory hplace.ne_empty hbare hmake, hwrite⟩

/-- A report that has been written is all that the directory holds. -/
theorem Report.write_eq_ok (hplace : t.LeadsToPlace dir) {requireEmpty : Bool}
    {written : List String} (hnames : ((r.files extension).map Prod.fst).Nodup)
    (hentries : ∀ f ∈ r.files extension, IsEntry f.1)
    (h : r.write t dir extension requireEmpty = (t', .ok written)) :
    written = (r.files extension).map Prod.fst ∧ t'.HoldsOnly dir (r.files extension) := by
  rw [write, plan] at h
  split at h
  · cases h
  · rename_i actions hplan
    obtain ⟨-, hplan⟩ := check_eq_ok.1 hplan
    split at h
    · cases h
    · rename_i t₂ hperform
      obtain ⟨rfl, hwritten⟩ := Prod.mk.inj h
      obtain rfl := Except.ok.inj hplan
      obtain ⟨t₁, hempty, hperform⟩ := start_eq_ok hplace hperform
      exact ⟨(Except.ok.inj hwritten).symm, hempty.performAll hnames hentries hperform⟩

end Write

section Reached

/-- An identifier makes the name of an entry, whatever follows it, if no slash does. -/
theorem isEntry_of_isIdentifier {name rest : String} (hname : Text.isIdentifier name = true)
    (hrest : '/' ∉ rest.toList) : IsEntry (name ++ rest) := by
  obtain ⟨c, cs, hcs⟩ := List.exists_cons_of_ne_nil (ne_nil_of_identifier hname)
  have hdot : c ≠ '.' := fun hc =>
    dot_notMem_identifier hname (by rw [hcs, hc]; exact List.mem_cons_self)
  have hne : ∀ text : String, (∀ d ∈ text.toList.head?, d = '.') → name ++ rest ≠ text := by
    rintro _ htext rfl
    rw [String.toList_append, hcs] at htext
    exact hdot (htext c rfl)
  refine ⟨?_, ?_, hne ".." (by simp)⟩
  · rw [String.toList_append, List.mem_append, not_or]
    exact ⟨fun hmem => absurd (Text.isIdentifierPart_of_mem hname hmem) (by decide), hrest⟩
  · simp only [stays, hne "" (by simp), hne "." (by simp), decide_false, Bool.or_self]

theorem Reached.isEntry_files (h : Reached w) (b : Backend) {extension : String}
    (hextension : '/' ∉ extension.toList) :
    ∀ f ∈ (b.emit w units).files extension, IsEntry f.1 := by
  intro f hf
  obtain ⟨x, hx, hname, -⟩ := exists_of_forall₂_right (Report.files_inStep _ _) hf
  have hx := List.mem_of_mem_filter hx
  rw [Backend.results_emit, List.mem_flatMap] at hx
  obtain ⟨s, hs, hx⟩ := hx
  obtain ⟨u, -, hu⟩ := List.mem_filterMap.1 hs
  have hpermitted := h.permitted s (h.indexed.mem_of_bySource? hu).1
  have hstem := Backend.fileStems_sublist.subset (List.mem_map_of_mem hx)
  rw [hname]
  rcases List.mem_append.1 hstem with hstem | hstem
  · obtain ⟨t, ht, hstem⟩ := List.mem_map.1 hstem
    have hslash : '/' ∉ t.name.toList := fun hmem =>
      absurd (Text.isIdentifierPart_of_mem (hpermitted.types t ht).name.isIdentifier hmem) (by decide)
    rw [← hstem, String.append_assoc, String.append_assoc, String.append_assoc]
    exact isEntry_of_isIdentifier hpermitted.name.isIdentifier (by simp [hslash, hextension])
  · rw [List.mem_singleton.1 hstem, String.append_assoc]
    exact isEntry_of_isIdentifier hpermitted.name.isIdentifier (by simp [hextension])

theorem Reached.nodup_files (h : Reached w) (b : Backend) (hunits : units.Nodup)
    (extension : String) : (((b.emit w units).files extension).map Prod.fst).Nodup := by
  have hstems : ((b.emit w units).files extension).map Prod.fst =
      (((b.emit w units).results.filter fun x => x.code.isSome).map EmissionResult.fileStem).map
        fun stem => stem ++ "." ++ extension := by
    rw [eq_comm, List.map_map, ← List.forall₂_eq_eq_eq, List.forall₂_map_left_iff,
      List.forall₂_map_right_iff]
    exact (Report.files_inStep _ _).imp fun _ _ hf => hf.1.symm
  have hinj : Function.Injective fun stem => stem ++ "." ++ extension := fun _ _ heq =>
    (String.append_left_inj _).1 ((String.append_left_inj _).1 heq)
  rw [hstems]
  exact ((h.nodup_fileStems b hunits).sublist (List.filter_sublist.map _)).map hinj

/-- The results for units that are all different have different stems. If they are written to a
directory, by a path that leads to it if it is there already, with an extension that holds no slash,
the directory has a file for each result with code, under its stem and with the code as its text,
and nothing from before; the names of these files are given in the order of the results. If the
directory has to be new and is there, nothing is changed.

The paths that do not lead to a directory that is there are the empty one, those with a null
character, and those that pass a missing directory and come back by `..`, such as `gone/../out`. -/
theorem written_files_are_results (h : Reached w) (b : Backend) (hunits : units.Nodup) :
    ((b.emit w units).results.map EmissionResult.fileStem).Nodup ∧
    (∀ t t' dir extension requireEmpty written, t.LeadsToPlace dir → '/' ∉ extension.toList →
      (b.emit w units).write t dir extension requireEmpty = (t', .ok written) →
      ∃ files, List.Forall₂ (fun x f => f.1 = x.fileStem ++ "." ++ extension ∧ x.code = some f.2)
          ((b.emit w units).results.filter fun x => x.code.isSome) files ∧
        written = files.map Prod.fst ∧ written.Nodup ∧ t'.HoldsOnly dir files) ∧
    ∀ t dir extension, (t.existing? dir).isSome = true →
      (b.emit w units).write t dir extension true = (t, .error (.file dir .notNew)) := by
  refine ⟨h.nodup_fileStems b hunits, ?_, ?_⟩
  · intro t t' dir extension requireEmpty written hplace hextension hwrite
    have hnames := h.nodup_files b hunits extension
    obtain ⟨rfl, hholds⟩ := Report.write_eq_ok hplace hnames (h.isEntry_files b hextension) hwrite
    exact ⟨_, Report.files_inStep _ _, rfl, hnames, hholds⟩
  · intro t dir extension hexisting
    rw [Report.write, Report.plan, hexisting]
    rfl

end Reached

/-! ### A report written again -/

/-- A directory beside the working directory that holds a file of an earlier report. -/
def staleTree : FileTree :=
  { files := [(["x", "out", "A.R.txt"], some "old"), (["x", "keep.txt"], some "kept")],
    home := ["x", "work"] }

def freshReport : Report :=
  (Outline.backend { aggregate := .absent }).emit reportWorkspace ["b", "a"]

theorem freshReport_files : freshReport.files "txt" =
    [("B.U.txt", "struct U [] key()"), ("A.S.txt", "struct S [] key()"),
      ("A.T.txt", "struct T [] key()")] := by
  cbv

theorem freshReport_written :
    (freshReport.write staleTree "../out" "txt" false).2 =
      .ok ["B.U.txt", "A.S.txt", "A.T.txt"] := by
  rw [Report.write, Report.plan, Report.actions, freshReport_files]
  decide +kernel

/-- The file of the earlier report is gone, unless the directory has to be new. -/
theorem written_files_are_results_again :
    Reached reportWorkspace ∧ staleTree.LeadsToPlace "../out" ∧
      (∃ t files, freshReport.write staleTree "../out" "txt" false =
          (t, .ok ["B.U.txt", "A.S.txt", "A.T.txt"]) ∧
        files.map Prod.fst = ["B.U.txt", "A.S.txt", "A.T.txt"] ∧ t.HoldsOnly "../out" files) ∧
      freshReport.write staleTree "../out" "txt" true =
        (staleTree, .error (.file "../out" .notNew)) := by
  have hunits : ["b", "a"].Nodup := by decide
  obtain ⟨-, hwritten, hrefused⟩ := written_files_are_results reached_reportWorkspace
    (Outline.backend { aggregate := .absent }) hunits
  have hplace : staleTree.LeadsToPlace "../out" :=
    leadsToPlace_of_goesUpFirst (by decide) (by decide) (by decide)
  have hwrite : freshReport.write staleTree "../out" "txt" false =
      (_, .ok ["B.U.txt", "A.S.txt", "A.T.txt"]) := Prod.ext rfl freshReport_written
  have hexisting : (staleTree.existing? "../out").isSome = true := by decide +kernel
  obtain ⟨files, -, hfiles, -, hholds⟩ := hwritten staleTree _ "../out" "txt" false _ hplace
    (by decide) hwrite
  exact ⟨reached_reportWorkspace, hplace, ⟨_, files, hwrite, hfiles.symm, hholds⟩,
    hrefused staleTree "../out" "txt" hexisting⟩

end SchemaGraph
