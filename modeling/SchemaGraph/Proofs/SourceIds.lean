import SchemaGraph.Proofs.BreadthFirst
import SchemaGraph.Proofs.FilePlaces

/-!
Sources by their ids. An id leads down from a search directory, name by name, to the file of the
source; a listing reads the id off that way again. Ids that take another way, by `.`, `..`, an empty
name or from the top of the tree, are looked up all the same, but they are not listed, and neither
are directories with a backslash in their name listed under the id by which they are looked up.
-/

namespace SchemaGraph.SourceDirectory

open FileTree

variable (s : SourceDirectory) (t : FileTree)

/-- The names that lead from a search directory to the file of a source. -/
def placeOf (id : SourceId) : Place :=
  names (id ++ "." ++ s.extension)

/-- An id that leads down from a search directory, through directories by their names. -/
def LeadsDown (id : SourceId) : Prop :=
  '/' ∉ s.extension.toList ∧ ∀ n ∈ (names id).dropLast, IsName n

/-- The id under which a source is listed: a backslash in the name of a directory separates too. -/
def listed (id : SourceId) : SourceId :=
  String.intercalate "/" ((names id).dropLast.map idPart ++ (names id).getLast?.toList)

/-- A search directory, at its place, has the file of a source. -/
def HasFile (id : SourceId) (dir : String) (p : Place) : Prop :=
  t.existing? dir = some p ∧ t.isFile (p ++ s.placeOf id)

/-- The first search directory that has the file of a source. -/
def FirstWith (id : SourceId) (dir : String) (p : Place) : Prop :=
  ∃ before after, s.dirs = before ++ dir :: after ∧ s.HasFile t id dir p ∧
    ∀ dir' ∈ before, ∀ p', ¬s.HasFile t id dir' p'

/-- All search directories are there. -/
def DirsExist : Prop :=
  ∀ dir ∈ s.dirs, ∃ p, t.existing? dir = some p ∧ t.isDir p

instance (id : SourceId) : Decidable (s.LeadsDown id) :=
  inferInstanceAs (Decidable (_ ∧ _))

variable {s t} {id id' : SourceId} {dir path : String} {p q : Place}

/-! ### Ids and places -/

theorem exists_names_concat (id : SourceId) : ∃ dirs last, names id = dirs ++ [last] := by
  rcases List.eq_nil_or_concat (names id) with h | ⟨dirs, last, h⟩
  · exact absurd h (names_ne_nil id)
  · exact ⟨dirs, last, by rw [h, List.concat_eq_append]⟩

theorem names_append_of_notMem {dirs : List String} {last ending : String}
    (hid : names id = dirs ++ [last]) (hending : '/' ∉ ending.toList) :
    names (id ++ ending) = dirs ++ [last ++ ending] := by
  have hslash : ∀ n ∈ dirs ++ [last], '/' ∉ n.toList := fun n hn =>
    slash_notMem_of_mem_names (hid ▸ hn)
  have hjoined : id ++ ending = String.intercalate "/" (dirs ++ [last ++ ending]) := by
    rw [← intercalate_names id, hid]
    by_cases hdirs : dirs = []
    · simp [hdirs]
    · rw [String.intercalate_append_of_ne_nil hdirs (by simp),
        String.intercalate_append_of_ne_nil hdirs (by simp)]
      simp [String.append_assoc]
  rw [hjoined, names_intercalate (by simp)]
  simp only [List.forall_mem_append, List.forall_mem_singleton] at hslash ⊢
  exact ⟨hslash.1, by simp [String.toList_append, hslash.2, hending]⟩

theorem placeOf_eq {dirs : List String} {last : String} (hid : names id = dirs ++ [last])
    (hextension : '/' ∉ s.extension.toList) :
    s.placeOf id = dirs ++ [last ++ "." ++ s.extension] := by
  have hending : '/' ∉ ("." ++ s.extension).toList := by simp [String.toList_append, hextension]
  simpa [placeOf, String.append_assoc] using names_append_of_notMem hid hending

theorem listed_eq {dirs : List String} {last : String} (hid : names id = dirs ++ [last]) :
    listed id = String.intercalate "/" (dirs.map idPart ++ [last]) := by
  simp [listed, hid]

theorem LeadsDown.isName_of_mem (h : s.LeadsDown id) : ∀ n ∈ (s.placeOf id).dropLast, IsName n := by
  obtain ⟨dirs, last, hid⟩ := exists_names_concat id
  have hnames := h.2
  rw [hid, List.dropLast_concat] at hnames
  rwa [placeOf_eq hid h.1, List.dropLast_concat]

theorem placeOf_injective : Function.Injective s.placeOf := fun id id' h => by
  simpa [String.append_assoc] using names_injective h

theorem idPart_eq_self {name : String} (h : '\\' ∉ name.toList) : idPart name = name := by
  have hsame : ∀ c ∈ name.toList, (if c = '\\' then '/' else c) = c := by
    intro c hc
    rw [if_neg]
    rintro rfl
    exact h hc
  rw [idPart, List.map_congr_left (g := fun c => c) hsame, List.map_id', String.ofList_toList]

theorem listed_eq_self (h : ∀ n ∈ (names id).dropLast, '\\' ∉ n.toList) : listed id = id := by
  obtain ⟨dirs, last, hid⟩ := exists_names_concat id
  rw [hid, List.dropLast_concat] at h
  have hsame : ∀ n ∈ dirs, idPart n = n := fun n hn => idPart_eq_self (h n hn)
  rw [listed_eq hid, List.map_congr_left (g := fun n => n) hsame, List.map_id', ← hid,
    intercalate_names]

theorem withoutEnding?_eq_some {ending name stem : List Char} :
    withoutEnding? ending name = some stem ↔ name = stem ++ ending := by
  rw [withoutEnding?]
  split
  · rename_i hsuffix
    obtain ⟨front, rfl⟩ := List.isSuffixOf_iff_suffix.1 hsuffix
    simp [eq_comm]
  · rename_i hsuffix
    refine iff_of_false (by simp) ?_
    rintro rfl
    exact hsuffix (List.isSuffixOf_iff_suffix.2 (List.suffix_append stem ending))

/-- A file with names that files can have is listed as the source whose id leads to it. -/
theorem sourceAt?_eq_some (hq : ∀ n ∈ q, IsName n) :
    s.sourceAt? q = some id ↔ ∃ id', s.LeadsDown id' ∧ s.placeOf id' = q ∧ listed id' = id := by
  constructor
  · intro h
    rcases List.eq_nil_or_concat q with rfl | ⟨dirs, name, rfl⟩
    · contradiction
    · rw [List.concat_eq_append] at h hq ⊢
      simp only [sourceAt?, List.getLast?_concat, List.dropLast_concat, Option.map_eq_some_iff,
        withoutEnding?_eq_some] at h
      obtain ⟨stem, hname, rfl⟩ := h
      obtain rfl : name = String.ofList stem ++ "." ++ s.extension := by
        rw [← String.toList_inj, hname]
        simp [String.toList_append]
      rw [List.forall_mem_append, List.forall_mem_singleton] at hq
      obtain ⟨hdirs, -, -, -, hslash, -⟩ := hq
      simp only [String.toList_append, String.toList_ofList, List.mem_append, not_or] at hslash
      have hid : names (String.intercalate "/" (dirs ++ [String.ofList stem])) =
          dirs ++ [String.ofList stem] := by
        refine names_intercalate (by simp) ?_
        simp only [List.forall_mem_append, List.forall_mem_singleton, String.toList_ofList]
        exact ⟨fun n hn => (hdirs n hn).2.2.2.1, hslash.1.1⟩
      refine ⟨_, ⟨hslash.2, ?_⟩, placeOf_eq hid hslash.2, listed_eq hid⟩
      rwa [hid, List.dropLast_concat]
  · rintro ⟨id', hdown, rfl, rfl⟩
    obtain ⟨dirs, last, hid⟩ := exists_names_concat id'
    have hending : withoutEnding? ("." ++ s.extension).toList
        (last ++ "." ++ s.extension).toList = some last.toList :=
      withoutEnding?_eq_some.2 (by simp [String.toList_append])
    rw [placeOf_eq hid hdown.1, listed_eq hid, sourceAt?]
    simp only [List.getLast?_concat, List.dropLast_concat, hending, Option.map_some,
      String.ofList_toList]

/-! ### Listing -/

theorem mem_filesBelow {f : Place × Content} :
    f ∈ t.filesBelow p ↔ f.1 ≠ [] ∧ (p ++ f.1, f.2) ∈ t.files := by
  simp only [filesBelow, List.mem_mergeSort, List.mem_map, List.mem_filter, isAbove_iff]
  constructor
  · rintro ⟨⟨_, c⟩, ⟨hmem, n, rest, rfl⟩, rfl⟩
    simpa using hmem
  · rintro ⟨hne, hmem⟩
    obtain ⟨n, rest, hrest⟩ := List.exists_cons_of_ne_nil hne
    exact ⟨_, ⟨hmem, n, rest, by rw [hrest]⟩, by simp⟩

theorem mem_sourcesIn (hwf : t.WellFormed) (hdir : t.existing? dir = some p) :
    id ∈ s.sourcesIn t dir ↔
      ∃ id', s.LeadsDown id' ∧ s.HasFile t id' dir p ∧ listed id' = id := by
  rw [sourcesIn, hdir]
  simp only [List.mem_filterMap, mem_filesBelow, HasFile, hdir, true_and, isFile_iff]
  constructor
  · rintro ⟨⟨q, c⟩, ⟨-, hmem⟩, hid⟩
    have hq : ∀ n ∈ q, IsName n := fun n hn => hwf.isName _ hmem n (List.mem_append_right p hn)
    obtain ⟨id', hdown, rfl, hlisted⟩ := (sourceAt?_eq_some hq).1 hid
    exact ⟨id', hdown, ⟨c, hmem⟩, hlisted⟩
  · rintro ⟨id', hdown, ⟨c, hmem⟩, hlisted⟩
    have hq : ∀ n ∈ s.placeOf id', IsName n := fun n hn =>
      hwf.isName _ hmem n (List.mem_append_right p hn)
    exact ⟨(s.placeOf id', c), ⟨names_ne_nil _, hmem⟩,
      (sourceAt?_eq_some hq).2 ⟨id', hdown, rfl, hlisted⟩⟩

theorem available_eq_eraseDups :
    s.available t = (s.dirs.flatMap (s.sourcesIn t)).eraseDups := by
  rw [available]
  generalize s.dirs.flatMap (s.sourcesIn t) = ids
  induction ids using List.reverseRecOn with
  | nil => rfl
  | append_singleton ids id ih =>
      rw [List.foldl_concat, ih, eraseDups_concat]
      simp only [List.mem_eraseDups]

/-! ### Lookup -/

theorem locate_eq_ok : s.locate t id = .ok path ↔
    (s.candidates id).find? (fun path => (t.file? path).isSome) = some path := by
  rw [locate]
  cases (s.candidates id).find? fun path => (t.file? path).isSome <;> simp

theorem file?_isSome_iff (hwf : t.WellFormed) (hdir : t.existing? dir = some p) (hp : t.isDir p)
    (hid : s.LeadsDown id) :
    (t.file? (join dir (id ++ "." ++ s.extension))).isSome ↔ s.HasFile t id dir p := by
  rw [Option.isSome_iff_exists]
  simp only [file?_join_eq_some hwf hdir hp hid.isName_of_mem, HasFile, hdir, true_and]
  exact exists_eq_left

section Located

variable (hwf : t.WellFormed) (hdirs : s.DirsExist t)
include hwf hdirs

theorem file?_isSome_iff_exists (hid : s.LeadsDown id) (hdir : dir ∈ s.dirs) :
    (t.file? (join dir (id ++ "." ++ s.extension))).isSome ↔ ∃ p, s.HasFile t id dir p := by
  obtain ⟨p, hp, hisDir⟩ := hdirs dir hdir
  rw [file?_isSome_iff hwf hp hisDir hid]
  refine ⟨fun h => ⟨p, h⟩, fun ⟨q, hq⟩ => ?_⟩
  rwa [Option.some.inj (hp.symm.trans hq.1)]

/-- An id that leads down is looked up in the search directories, and the first with its file has
it. -/
theorem locate_eq_ok_iff (hid : s.LeadsDown id) :
    s.locate t id = .ok path ↔
      ∃ dir p, s.FirstWith t id dir p ∧ path = join dir (id ++ "." ++ s.extension) := by
  rw [locate_eq_ok, candidates, List.find?_map, Option.map_eq_some_iff]
  simp only [List.find?_eq_some_iff_append, Function.comp_apply, Bool.not_eq_true', FirstWith]
  constructor
  · rintro ⟨dir, ⟨hfile, before, after, hsplit, hbefore⟩, rfl⟩
    have hmem : ∀ dir' ∈ before ++ dir :: after, dir' ∈ s.dirs := fun _ h => hsplit ▸ h
    obtain ⟨p, hp⟩ := (file?_isSome_iff_exists hwf hdirs hid (hmem dir (by simp))).1 hfile
    refine ⟨dir, p, ⟨before, after, hsplit, hp, fun dir' hdir' p' hp' => ?_⟩, rfl⟩
    have hnone := hbefore dir' hdir'
    rw [(file?_isSome_iff_exists hwf hdirs hid (hmem dir' (by simp [hdir']))).2 ⟨p', hp'⟩] at hnone
    contradiction
  · rintro ⟨dir, p, ⟨before, after, hsplit, hp, hbefore⟩, rfl⟩
    have hmem : ∀ dir' ∈ before ++ dir :: after, dir' ∈ s.dirs := fun _ h => hsplit ▸ h
    refine ⟨dir, ⟨(file?_isSome_iff_exists hwf hdirs hid (hmem dir (by simp))).2 ⟨p, hp⟩,
      before, after, hsplit, fun dir' hdir' => ?_⟩, rfl⟩
    refine Bool.eq_false_iff.2 fun hfile => ?_
    obtain ⟨p', hp'⟩ := (file?_isSome_iff_exists hwf hdirs hid (hmem dir' (by simp [hdir']))).1 hfile
    exact hbefore dir' hdir' p' hp'

theorem exists_locate_iff (hid : s.LeadsDown id) :
    (∃ path, s.locate t id = .ok path) ↔ ∃ dir ∈ s.dirs, ∃ p, s.HasFile t id dir p := by
  simp only [locate_eq_ok, ← Option.isSome_iff_exists, candidates, List.find?_isSome]
  simp only [List.mem_map, exists_exists_and_eq_and]
  exact exists_congr fun dir => and_congr_right fun hdir => file?_isSome_iff_exists hwf hdirs hid hdir

theorem mem_available : id ∈ s.available t ↔
    ∃ id', s.LeadsDown id' ∧ (∃ path, s.locate t id' = .ok path) ∧ listed id' = id := by
  rw [available_eq_eraseDups, List.mem_eraseDups, List.mem_flatMap]
  constructor
  · rintro ⟨dir, hdir, hid⟩
    obtain ⟨p, hp, -⟩ := hdirs dir hdir
    obtain ⟨id', hdown, hfile, hlisted⟩ := (mem_sourcesIn hwf hp).1 hid
    exact ⟨id', hdown, (exists_locate_iff hwf hdirs hdown).2 ⟨dir, hdir, p, hfile⟩, hlisted⟩
  · rintro ⟨id', hdown, hlocated, hlisted⟩
    obtain ⟨dir, hdir, p, hfile⟩ := (exists_locate_iff hwf hdirs hdown).1 hlocated
    exact ⟨dir, hdir, (mem_sourcesIn hwf hfile.1).2 ⟨id', hdown, hfile, hlisted⟩⟩

/-- Without backslashes in the names of directories, sources are listed by the ids that lead down to
them. -/
theorem mem_available_of_noBackslash
    (hnames : ∀ f ∈ t.files, ∀ n ∈ f.1.dropLast, '\\' ∉ n.toList) :
    id ∈ s.available t ↔ s.LeadsDown id ∧ ∃ path, s.locate t id = .ok path := by
  have hself : ∀ id', s.LeadsDown id' → (∃ path, s.locate t id' = .ok path) → listed id' = id' := by
    intro id' hdown hlocated
    obtain ⟨dir, -, p, -, hfile⟩ := (exists_locate_iff hwf hdirs hdown).1 hlocated
    obtain ⟨c, hc⟩ := isFile_iff.1 hfile
    obtain ⟨dirs, last, hid⟩ := exists_names_concat id'
    refine listed_eq_self fun n hn => hnames _ hc n ?_
    rw [hid, List.dropLast_concat] at hn
    rw [placeOf_eq hid hdown.1, ← List.append_assoc, List.dropLast_concat]
    exact List.mem_append_right p hn
  rw [mem_available hwf hdirs]
  constructor
  · rintro ⟨id', hdown, hlocated, rfl⟩
    rw [hself id' hdown hlocated]
    exact ⟨hdown, hlocated⟩
  · rintro ⟨hdown, hlocated⟩
    exact ⟨id, hdown, hlocated, hself id hdown hlocated⟩

theorem file?_of_firstWith (hid : s.LeadsDown id) (h : s.FirstWith t id dir p) :
    t.file? (join dir (id ++ "." ++ s.extension)) = some (p ++ s.placeOf id) := by
  obtain ⟨before, after, hsplit, hfile, -⟩ := h
  obtain ⟨q, hq, hisDir⟩ := hdirs dir (by simp [hsplit])
  obtain rfl := Option.some.inj (hfile.1.symm.trans hq)
  exact (file?_join_eq_some hwf hq hisDir hid.isName_of_mem).2 ⟨rfl, hfile.2⟩

/-- Two ids that lead down to one file are the same, unless a search directory is inside another. -/
theorem eq_of_same_file (hid : s.LeadsDown id) (hid' : s.LeadsDown id') {path' : String}
    (hpath : s.locate t id = .ok path) (hpath' : s.locate t id' = .ok path')
    (hsame : t.file? path = t.file? path') :
    id = id' ∨ ∃ dir ∈ s.dirs, ∃ dir' ∈ s.dirs, ∃ p p',
      t.existing? dir = some p ∧ t.existing? dir' = some p' ∧ isAbove p p' := by
  obtain ⟨dir, p, hfirst, rfl⟩ := (locate_eq_ok_iff hwf hdirs hid).1 hpath
  obtain ⟨dir', p', hfirst', rfl⟩ := (locate_eq_ok_iff hwf hdirs hid').1 hpath'
  rw [file?_of_firstWith hwf hdirs hid hfirst, file?_of_firstWith hwf hdirs hid' hfirst',
    Option.some.injEq, List.append_eq_append_iff] at hsame
  obtain ⟨before, after, hsplit, hfile, -⟩ := hfirst
  obtain ⟨before', after', hsplit', hfile', -⟩ := hfirst'
  have hdir : dir ∈ s.dirs := by simp [hsplit]
  have hdir' : dir' ∈ s.dirs := by simp [hsplit']
  rcases hsame with ⟨rest, hrest, hplace⟩ | ⟨rest, hrest, hplace⟩
  · cases rest with
    | nil => exact .inl (placeOf_injective hplace)
    | cons n rest => exact .inr ⟨dir, hdir, dir', hdir', p, p', hfile.1, hfile'.1,
        isAbove_iff.2 ⟨n, rest, hrest⟩⟩
  · cases rest with
    | nil => exact .inl (placeOf_injective hplace).symm
    | cons n rest => exact .inr ⟨dir', hdir', dir, hdir, p', p, hfile'.1, hfile.1,
        isAbove_iff.2 ⟨n, rest, hrest⟩⟩

end Located

/-- Sources are listed once. They are those that are found under an id that leads down to them, and
without backslashes in the names of directories they are listed by just these ids; the file of such
an id is in the first search directory that has it, and no other such id leads to it unless a
search directory is inside another. -/
theorem available_lists_located (s : SourceDirectory) (t : FileTree) (hwf : t.WellFormed)
    (hdirs : s.DirsExist t) :
    (s.available t).Nodup ∧
    (∀ id, id ∈ s.available t ↔
      ∃ id', s.LeadsDown id' ∧ (∃ path, s.locate t id' = .ok path) ∧ listed id' = id) ∧
    ((∀ f ∈ t.files, ∀ n ∈ f.1.dropLast, '\\' ∉ n.toList) → ∀ id,
      id ∈ s.available t ↔ s.LeadsDown id ∧ ∃ path, s.locate t id = .ok path) ∧
    (∀ id, s.LeadsDown id → ∀ path, s.locate t id = .ok path ↔
      ∃ dir p, s.FirstWith t id dir p ∧ path = join dir (id ++ "." ++ s.extension) ∧
        t.file? path = some (p ++ s.placeOf id)) ∧
    ∀ id id' path path', s.LeadsDown id → s.LeadsDown id' → s.locate t id = .ok path →
      s.locate t id' = .ok path' → t.file? path = t.file? path' →
      id = id' ∨ ∃ dir ∈ s.dirs, ∃ dir' ∈ s.dirs, ∃ p p',
        t.existing? dir = some p ∧ t.existing? dir' = some p' ∧ isAbove p p' := by
  refine ⟨?_, fun id => mem_available hwf hdirs,
    fun hnames id => mem_available_of_noBackslash hwf hdirs hnames, fun id hid path => ?_,
    fun id id' path path' hid hid' => eq_of_same_file hwf hdirs hid hid'⟩
  · rw [available_eq_eraseDups]
    exact nodup_eraseDups _
  · rw [locate_eq_ok_iff hwf hdirs hid]
    refine exists_congr fun dir => exists_congr fun p => and_congr_right fun hfirst => ?_
    exact ⟨fun h => ⟨h, h ▸ file?_of_firstWith hwf hdirs hid hfirst⟩, And.left⟩

/-! Two search directories with a file of the same source. -/

def shelves : FileTree where
  files := [(["d", "a", "B.json"], some ""), (["d", "C.json"], some ""),
    (["e", "a", "B.json"], some "")]

def shelfSource : SourceDirectory where
  dirs := ["d", "e"]
  extension := "json"

theorem wellFormed_shelves : shelves.WellFormed :=
  ⟨by decide +kernel, by decide +kernel⟩

theorem dirsExist_shelves : shelfSource.DirsExist shelves := by
  have hplaces : ∀ dir ∈ shelfSource.dirs,
      shelves.existing? dir = some [dir] ∧ shelves.isDir [dir] := by decide +kernel
  exact fun dir hdir => ⟨[dir], hplaces dir hdir⟩

theorem available_lists_located_shelves :
    (shelfSource.available shelves).Nodup ∧
    (∀ id, id ∈ shelfSource.available shelves ↔
      shelfSource.LeadsDown id ∧ ∃ path, shelfSource.locate shelves id = .ok path) ∧
    ∃ dir p, shelfSource.FirstWith shelves "a/B" dir p ∧
      "d/a/B.json" = join dir ("a/B" ++ "." ++ shelfSource.extension) := by
  obtain ⟨hnodup, -, hlisted, hfirst, -⟩ :=
    available_lists_located shelfSource shelves wellFormed_shelves dirsExist_shelves
  obtain ⟨dir, p, hdir, hpath, -⟩ := (hfirst "a/B" (by decide +kernel) "d/a/B.json").1 (by decide +kernel)
  exact ⟨hnodup, hlisted (by decide +kernel), dir, p, hdir, hpath⟩

/-- A file that answers to an id under which it is not listed. -/
theorem locate_not_listed :
    shelfSource.locate shelves "./C" = .ok "d/./C.json" ∧
      shelves.file? "d/./C.json" = shelves.file? "d/C.json" ∧
      shelfSource.locate shelves "C" = .ok "d/C.json" ∧
      "./C" ∉ shelfSource.available shelves := by
  refine ⟨by decide +kernel, by decide +kernel, by decide +kernel, fun hlisted => ?_⟩
  have hdown := ((mem_available_of_noBackslash wellFormed_shelves dirsExist_shelves
    (by decide +kernel)).1 hlisted).1
  exact absurd hdown (by decide +kernel)

end SchemaGraph.SourceDirectory
