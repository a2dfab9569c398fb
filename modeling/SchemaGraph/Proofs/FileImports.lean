import SchemaGraph.Proofs.Discovery
import SchemaGraph.Proofs.Reading

/-!
Sources in files against the same texts in a table. A directory answers what a table answers as
long as the texts are records. A declaration that is written as a list can be read from a file, but
the file does not say what it imports, and a load that needs it comes to nothing.
-/

namespace SchemaGraph

open ImportGraph
open Json (Fault)

/-! ### Readers that agree -/

namespace ImportGraph

variable {lookup lookup' : ImportLookup} {roots roots' : List SourceId}

theorem explore_congr (h : FinitelyReaching lookup roots) (h' : FinitelyReaching lookup' roots')
    (hagree : ∀ u, lookup.Needs roots u → lookup u = lookup' u) {g : ImportGraph} {next : Nat}
    {asked : List SourceId} (inside : ∀ u ∈ g.units, u ∈ h.known)
    (inside' : ∀ u ∈ g.units, u ∈ h'.known) (hneeded : ∀ u ∈ g.units, lookup.Needs roots u) :
    explore h g next asked inside = explore h' g next asked inside' := by
  induction g, next, asked, inside using explore.induct h with
  | case1 g next asked inside hn =>
      rw [explore_of_none h inside hn, explore_of_none h' inside' hn]
  | case2 g next asked inside unit hn e hi =>
      have hunit := hneeded unit (List.mem_of_getElem? hn)
      rw [explore_of_error h inside hn hi,
        explore_of_error h' inside' hn ((hagree unit hunit).symm.trans hi)]
  | case3 g next asked inside unit hn is hi ih =>
      have hunit := hneeded unit (List.mem_of_getElem? hn)
      have hi' := (hagree unit hunit).symm.trans hi
      have hnext : ∀ u ∈ (g.addImports unit is).units, lookup.Needs roots u := fun u hu => by
        rcases mem_addImports hu with hu | hu
        · exact hneeded u hu
        · exact hunit.tail ⟨is, hi, hu⟩
      have hinside' : ∀ u ∈ (g.addImports unit is).units, u ∈ h'.known := fun u hu => by
        rcases mem_addImports hu with hu | hu
        · exact inside' u hu
        · exact (Classical.choose_spec h').2 unit (inside' unit (List.mem_of_getElem? hn)) is hi' u hu
      rw [explore_of_ok h inside hn hi, explore_of_ok h' inside' hn hi' hinside']
      exact ih hinside' hnext

/-- Discovery depends on what the needed units say that they import, and on nothing else. -/
theorem discover_congr (h : FinitelyReaching lookup roots) (h' : FinitelyReaching lookup' roots)
    (hagree : ∀ u, lookup.Needs roots u → lookup u = lookup' u) : discover h = discover h' := by
  refine congrArg Survey.result (explore_congr h h' hagree _ _ fun u hu => ?_)
  rcases mem_addUnits hu with hu | hu
  · simp [empty] at hu
  · exact ⟨u, hu, .refl⟩

/-- Of a reader a load needs no more than that its own roots reach finitely many sources. A lookup
for which they do, however many others reach, answers as a reader does wherever the load asks. -/
theorem exists_reader (hfinite : {u | lookup.Needs roots u}.Finite)
    (read : SourceId → Except CompileError Declaration) :
    ∃ reader : SourceReader, reader.read = read ∧
      (∀ u, lookup.Needs roots u → reader.imports u = lookup u) ∧
      reader.graph roots = discover (ImportLookup.finitelyReaching_iff.2 hfinite) := by
  classical
  let within : ImportLookup := fun u =>
    if lookup.Needs roots u then lookup u else .error (.sourceNotFound u)
  have hwithin : ∀ u, lookup.Needs roots u → within u = lookup u := fun u hu => if_pos hu
  have hreaching : ∀ roots', FinitelyReaching within roots' := by
    intro roots'
    refine ⟨roots' ++ hfinite.toFinset.toList, fun r hr => by simp [hr], fun u _ is his i hi => ?_⟩
    by_cases hu : lookup.Needs roots u
    · rw [hwithin u hu] at his
      exact List.mem_append_right _ (by simpa using hu.tail ⟨is, his, hi⟩)
    · simp only [within, if_neg hu] at his
      contradiction
  exact ⟨⟨within, read, hreaching⟩, rfl, hwithin,
    (discover_congr _ (hreaching roots) fun u hu => (hwithin u hu).symm).symm⟩

/-- Where one lookup fails or answers as another does, it needs what the other needs, or it needs a
unit for which it fails. -/
theorem ImportLookup.Needs.follow
    (hfollows : ∀ u, lookup.Needs roots u → lookup' u = lookup u ∨ ∃ e, lookup' u = .error e)
    {u : SourceId} (hu : lookup.Needs roots u) :
    lookup'.Needs roots u ∨ ∃ v e, lookup'.Needs roots v ∧ lookup' v = .error e := by
  obtain ⟨r, hr, hpath⟩ := hu
  induction hpath with
  | refl => exact .inl ⟨r, hr, .refl⟩
  | @tail a b hra hab ih =>
      refine ih.elim (fun ha => ?_) .inr
      rcases hfollows a ⟨r, hr, hra⟩ with hsame | ⟨e, he⟩
      · obtain ⟨is, his, hb⟩ := hab
        exact .inl (ha.tail ⟨is, hsame.trans his, hb⟩)
      · exact .inr ⟨a, e, ha, he⟩

end ImportGraph

theorem Progress.compileUnits_congr {reader reader' : SourceReader} {units : List SourceId}
    (hagree : ∀ u ∈ units, reader.read u = reader'.read u) (p : Progress) :
    compileUnits reader p units = compileUnits reader' p units := by
  induction units generalizing p with
  | nil => rfl
  | cons unit units ih =>
      rw [List.forall_mem_cons] at hagree
      have hunit : compileUnit reader p unit = compileUnit reader' p unit := by
        rw [compileUnit, compileUnit, hagree.1]
      rw [compileUnits, compileUnits, hunit]
      split
      · rfl
      · exact ih hagree.2 _

/-- A load depends on the needed units, and on nothing else that a reader could answer. -/
theorem Workspace.load_congr {reader reader' : SourceReader} {roots : List SourceId}
    (himports : ∀ u, reader.imports.Needs roots u → reader.imports u = reader'.imports u)
    (hread : ∀ u, reader.imports.Needs roots u → reader.read u = reader'.read u) (w : Workspace) :
    w.load reader roots = w.load reader' roots := by
  have hgraph : reader.graph roots = reader'.graph roots := discover_congr _ _ himports
  rw [load, load, ← hgraph]
  split
  · rfl
  · rename_i order horder
    have hunits := (orders_of_eq_ok horder).1.mem_iff
    rw [Progress.compileUnits_congr fun u hu => hread u ((hunits u).1 hu)]

/-- A load from which a needed unit keeps what it imports comes to nothing. -/
theorem Workspace.load_of_fails {reader : SourceReader} {roots : List SourceId} {u : SourceId}
    {e : CompileError} (hu : reader.imports.Needs roots u) (he : reader.imports u = .error e)
    (w : Workspace) :
    ∃ e, w.load reader roots = { workspace := w, result := .error (.refused e) } := by
  rcases order_cases reader roots with ⟨order, -, -, horderable⟩ | ⟨e, herror, -⟩
  · obtain ⟨is, his⟩ := (horderable u hu).1
    rw [he] at his
    contradiction
  · exact ⟨e, by rw [load, herror]⟩

/-! ### Texts in a table -/

namespace SourceTable

/-- Inserts texts one after the other. -/
def insertTexts (table : SourceTable) (texts : List (SourceId × String)) :
    Except CompileError SourceTable :=
  texts.foldlM (fun t entry => t.insertText entry.1 entry.2) table

/-- The text of a source: the last that was given for it. -/
def textOf? (texts : List (SourceId × String)) (id : SourceId) : Option String :=
  (texts.reverse.find? fun entry => entry.1 = id).map Prod.snd

theorem read_insert (table : SourceTable) (id other : SourceId) (d : Declaration) :
    (table.insert id d).read other = if id = other then .ok d else table.read other := by
  rw [read, read, insert]
  by_cases h : id = other
  · simp [h]
  · rw [List.find?_cons_of_neg (by simpa using h), if_neg h, List.find?_filter]
    congr 2
    funext entry
    by_cases hentry : entry.1 = other
    · simp [hentry, Ne.symm h]
    · simp [hentry]

theorem read_of_insertTexts {table table' : SourceTable} {texts : List (SourceId × String)}
    (h : table.insertTexts texts = .ok table') (id : SourceId) :
    match textOf? texts id with
    | some text => ∃ d, Declaration.ofText text = .ok d ∧ table'.read id = .ok d
    | none => table'.read id = table.read id := by
  induction texts generalizing table with
  | nil =>
      obtain rfl := pure_eq_ok.1 h
      rfl
  | cons entry texts ih =>
      rw [insertTexts, List.foldlM_cons] at h
      obtain ⟨next, hnext, h⟩ := bind_eq_ok.1 h
      have hrest := ih h
      rw [textOf?, List.reverse_cons, List.find?_append]
      cases hlast : texts.reverse.find? fun entry => entry.1 = id with
      | some last =>
          rw [textOf?, hlast] at hrest
          exact hrest
      | none =>
          rw [textOf?, hlast] at hrest
          simp only [Option.map_none] at hrest
          rw [insertText] at hnext
          split at hnext
          · rename_i d hd
            obtain rfl := Except.ok.inj hnext
            rw [read_insert] at hrest
            by_cases hid : entry.1 = id
            · simp [hid, hd, hrest]
            · simpa [hid] using hrest
          · contradiction

/-- What is closed under the imports of a table has all that is needed. -/
theorem mem_of_needs (table : SourceTable) (roots known : List SourceId)
    (hroots : ∀ r ∈ roots, r ∈ known)
    (hclosed : ∀ a ∈ known, ∀ b ∈ (table.imports a).toOption.getD [], b ∈ known) :
    ∀ id, table.reader.imports.Needs roots id → id ∈ known := by
  refine fun id hid => hid.mem hroots fun a ha is his => ?_
  have hbs := hclosed a ha
  rwa [show table.imports a = .ok is from his] at hbs

end SourceTable

/-! ### Files -/

namespace SourceDirectory

variable (s : SourceDirectory) (t : FileTree)

/-- The file of a source has the given text; there is no file if there is no text. -/
def HasText (id : SourceId) : Option String → Prop
  | some text => (s.locate t id).bind (textAt t) = .ok text
  | none => s.locate t id = .error (.sourceNotFound id)

instance (id : SourceId) : (text : Option String) → Decidable (s.HasText t id text)
  | some _ => inferInstanceAs (Decidable (_ = _))
  | none => inferInstanceAs (Decidable (_ = _))

variable {s t}

theorem decode_of_hasText {α : Type} {read : String → Except Fault α} {id : SourceId}
    {text : String} (h : s.HasText t id (some text)) :
    s.decode t read id = (read text).mapError (.json id) := by
  obtain ⟨path, hpath, htext⟩ := bind_eq_ok.1 h
  rw [decode, hpath]
  simp only [bind, Except.bind, htext]
  cases read text <;> rfl

theorem decode_of_hasNoText {α : Type} {read : String → Except Fault α} {id : SourceId}
    (h : s.HasText t id none) : s.decode t read id = .error (.sourceNotFound id) := by
  rw [decode, h]
  rfl

theorem imports_of_hasText {id : SourceId} {text : String} {d : Declaration}
    (h : s.HasText t id (some text)) (hd : Declaration.ofText text = .ok d) :
    s.imports t id =
      if Json.OpensRecord text then .ok d.importSources else .error (.json id .mismatched) := by
  rw [imports, decode_of_hasText h, importSourcesOfText, Declaration.importsOfText_of_ofText hd]
  split <;> rfl

/-- Where each needed source is a file with the text that went into the table, the directory answers
for it as the table does if the text is a record. -/
theorem agrees_of_hasText {texts : List (SourceId × String)} {table : SourceTable}
    (htable : SourceTable.insertTexts [] texts = .ok table) {id : SourceId}
    (hid : s.HasText t id (SourceTable.textOf? texts id)) :
    s.read t id = table.read id ∧
      ((∀ text, SourceTable.textOf? texts id = some text → Json.OpensRecord text) →
        s.imports t id = table.imports id) ∧
      ∀ text, SourceTable.textOf? texts id = some text → ¬Json.OpensRecord text →
        s.imports t id = .error (.json id .mismatched) := by
  have hread := SourceTable.read_of_insertTexts htable id
  rw [SourceTable.imports]
  cases htext : SourceTable.textOf? texts id with
  | none =>
      rw [htext] at hid hread
      have hnone : table.read id = .error (.sourceNotFound id) := hread
      rw [read, decode_of_hasNoText hid, imports, decode_of_hasNoText hid, hnone]
      exact ⟨rfl, fun _ => rfl, by simp⟩
  | some text =>
      rw [htext] at hid hread
      obtain ⟨d, hd, hread⟩ := hread
      rw [read, decode_of_hasText hid, imports_of_hasText hid hd, hread, hd]
      refine ⟨rfl, fun hrecord => if_pos (hrecord text rfl), fun text' htext' hlist => ?_⟩
      obtain rfl := Option.some.inj htext'
      exact if_neg hlist

/-- A file whose declaration can be read says what it imports, in the order of the declaration, if
and only if its text is a record. A load of texts from files then comes out as from a table of the
same texts if all needed texts are records; if one of them is a list, it is refused. -/
theorem imports_agree_iff_record (s : SourceDirectory) (t : FileTree) :
    (∀ id d, s.read t id = .ok d → ∃ text, s.HasText t id (some text) ∧
      s.imports t id =
        if Json.OpensRecord text then .ok d.importSources else .error (.json id .mismatched)) ∧
    ∀ texts table roots, SourceTable.insertTexts [] texts = .ok table →
      (∀ id, table.reader.imports.Needs roots id →
        s.HasText t id (SourceTable.textOf? texts id)) →
      ((∀ id, table.reader.imports.Needs roots id →
          ∀ text, SourceTable.textOf? texts id = some text → Json.OpensRecord text) →
        ∀ w : Workspace, w.load (s.reader t) roots = w.load table.reader roots) ∧
      ((∃ id, table.reader.imports.Needs roots id ∧
          ∃ text, SourceTable.textOf? texts id = some text ∧ ¬Json.OpensRecord text) →
        ∀ w : Workspace, ∃ e,
          w.load (s.reader t) roots = { workspace := w, result := .error (.refused e) }) := by
  refine ⟨fun id d hread => ?_, fun texts table roots htable hfiles => ⟨fun hrecords w => ?_, ?_⟩⟩
  · obtain ⟨path, text, hpath, htext, hd⟩ := read_of_decode hread
    have hfile : s.HasText t id (some text) := bind_eq_ok.2 ⟨path, hpath, htext⟩
    exact ⟨text, hfile, imports_of_hasText hfile hd⟩
  · refine (Workspace.load_congr (fun u hu => ?_) (fun u hu => ?_) w).symm
    · exact ((agrees_of_hasText htable (hfiles u hu)).2.1 (hrecords u hu)).symm
    · exact (agrees_of_hasText htable (hfiles u hu)).1.symm
  · rintro ⟨id, hid, text, htext, hlist⟩ w
    have hfollows : ∀ u, table.reader.imports.Needs roots u →
        s.imports t u = table.imports u ∨ ∃ e, s.imports t u = .error e := by
      intro u hu
      obtain ⟨-, hsame, hfails⟩ := agrees_of_hasText htable (hfiles u hu)
      by_cases hrecord : ∀ text, SourceTable.textOf? texts u = some text → Json.OpensRecord text
      · exact .inl (hsame hrecord)
      · push Not at hrecord
        obtain ⟨text, htext, hlist⟩ := hrecord
        exact .inr ⟨_, hfails text htext hlist⟩
    have hfails := (agrees_of_hasText htable (hfiles id hid)).2.2 text htext hlist
    -- Up to the first list that is needed, the directory needs what the table needs.
    rcases ImportLookup.Needs.follow hfollows hid with hid' | ⟨v, e, hv, he⟩
    · exact Workspace.load_of_fails hid' hfails w
    · exact Workspace.load_of_fails hv he w

/-! A source that imports another, and a declaration without imports that is written as a list. -/

def importerText : String :=
  "\x7b\"name\": \"M\", \"imports\": [\x7b\"source\": \"Lib\"\x7d]\x7d"

def importedText : String :=
  "\x7b\"name\": \"L\"\x7d"

def folder : FileTree where
  files := [(["s", "Main.json"], some importerText), (["s", "Lib.json"], some importedText),
    (["s", "Flat.json"], some "[\"F\"]")]

def folderSource : SourceDirectory where
  dirs := ["s"]
  extension := "json"

def folderTexts : List (SourceId × String) :=
  [("Main", importerText), ("Lib", importedText), ("Flat", "[\"F\"]")]

def folderTable : SourceTable :=
  (SourceTable.insertTexts [] folderTexts).toOption.getD []

theorem imports_agree_folder :
    (∃ d, folderSource.read folder "Main" = .ok d ∧
      folderSource.imports folder "Main" = .ok d.importSources) ∧
    (∀ w : Workspace,
      w.load (folderSource.reader folder) ["Main"] = w.load folderTable.reader ["Main"]) ∧
    ∀ w : Workspace, ∃ e, w.load (folderSource.reader folder) ["Flat"] =
      { workspace := w, result := .error (.refused e) } := by
  obtain ⟨hsame, hload⟩ := imports_agree_iff_record folderSource folder
  obtain ⟨d, hd⟩ : ∃ d, (folderSource.read folder "Main").toOption = some d :=
    Option.isSome_iff_exists.1 (by decide +kernel)
  obtain ⟨text, htext, himports⟩ := hsame "Main" d (toOption_eq_some.1 hd)
  have htable : SourceTable.insertTexts [] folderTexts = .ok folderTable := by
    obtain ⟨table, htable⟩ : ∃ table, (SourceTable.insertTexts [] folderTexts).toOption = some table :=
      Option.isSome_iff_exists.1 (by decide +kernel)
    rw [folderTable, htable, toOption_eq_some.1 htable]
    rfl
  have hmain := SourceTable.mem_of_needs folderTable ["Main"] ["Main", "Lib"]
    (by decide) (by decide +kernel)
  have hflat := SourceTable.mem_of_needs folderTable ["Flat"] ["Flat"]
    (by decide) (by decide +kernel)
  have hfiles : ∀ id ∈ ["Main", "Lib", "Flat"],
      folderSource.HasText folder id (SourceTable.textOf? folderTexts id) := by decide +kernel
  have hrecords : ∀ id ∈ ["Main", "Lib"],
      ∀ text ∈ SourceTable.textOf? folderTexts id, Json.OpensRecord text := by decide +kernel
  refine ⟨⟨d, toOption_eq_some.1 hd, ?_⟩, ?_, ?_⟩
  · split at himports
    · exact himports
    · exact absurd himports (by decide +kernel)
  · refine (hload folderTexts folderTable ["Main"] htable fun id hid => hfiles id ?_).1
      fun id hid text htext => hrecords id (hmain id hid) text htext
    exact List.mem_append_left ["Flat"] (hmain id hid)
  · refine (hload folderTexts folderTable ["Flat"] htable fun id hid => hfiles id ?_).2
      ⟨"Flat", ⟨"Flat", by decide, .refl⟩, "[\"F\"]", by decide +kernel, by decide +kernel⟩
    exact List.mem_append_right ["Main", "Lib"] (hflat id hid)

/-- A declaration that can be read and does not say that it imports nothing. -/
theorem flat_imports_fail :
    (∃ d, folderSource.read folder "Flat" = .ok d ∧ d.importSources = []) ∧
      folderSource.imports folder "Flat" = .error (.json "Flat" .mismatched) := by
  refine ⟨?_, by decide +kernel⟩
  obtain ⟨d, hd, himports⟩ : ∃ d, (folderSource.read folder "Flat").toOption = some d ∧
      d.importSources = [] :=
    Option.map_eq_some_iff.1
      (show (folderSource.read folder "Flat").toOption.map Declaration.importSources = some [] by
        decide +kernel)
  exact ⟨d, toOption_eq_some.1 hd, himports⟩

end SourceDirectory

end SchemaGraph
