import SchemaGraph.Proofs.Success
import SchemaGraph.Proofs.Texts
import SchemaGraph.SourceDirectory

/-!
Where paths lead in a tree of files. A path below a directory leads, name by name, to the place
that its names add to the place of the directory; no other path that stays below leads there.
-/

namespace SchemaGraph

/-- A text at whose end another stands. -/
theorem exists_append_of_endsWith {s ending : String} (h : s.endsWith ending = true) :
    ∃ front, s = front ++ ending := by
  open String.Slice.Pattern.Model in
  rw [← String.endsWith_toSlice, endsWith_iff, ForwardStringSearcher.revMatchesAt_iff_splits] at h
  obtain ⟨front, rest, h⟩ := h
  have hwhole := h.eq_left (String.Slice.splits_endPos _)
  exact ⟨front, by simpa using hwhole.symm⟩

namespace FileTree

/-! ### Names in a path -/

theorem names_append_slash (a b : String) : names (a ++ "/" ++ b) = names a ++ names b := by
  simp [names, String.toList_append, Text.pieces_append_break]

theorem names_of_notMem {name : String} (h : '/' ∉ name.toList) : names name = [name] := by
  simp [names, Text.pieces_of_notMem h]

theorem names_ne_nil (path : String) : names path ≠ [] := by
  simpa [names] using Text.pieces_ne_nil '/' path.toList

theorem intercalate_names (path : String) : String.intercalate "/" (names path) = path := by
  rw [← String.toList_inj, String.toList_intercalate, names, List.map_map]
  have hid : String.toList ∘ String.ofList = id := by
    funext s
    simp
  rw [hid, List.map_id]
  exact Text.joined_pieces '/' path.toList

theorem names_injective : Function.Injective names := fun a b h => by
  rw [← intercalate_names a, h, intercalate_names]

theorem names_intercalate {parts : List String} (hne : parts ≠ [])
    (hparts : ∀ n ∈ parts, '/' ∉ n.toList) : names (String.intercalate "/" parts) = parts := by
  induction parts with
  | nil => contradiction
  | cons n parts ih =>
      rw [List.forall_mem_cons] at hparts
      cases parts with
      | nil => simpa using names_of_notMem hparts.1
      | cons m parts =>
          rw [String.intercalate_cons_cons, names_append_slash, names_of_notMem hparts.1,
            ih (by simp) hparts.2]
          rfl

theorem slash_notMem_of_mem_names {path n : String} (h : n ∈ names path) : '/' ∉ n.toList := by
  obtain ⟨p, hp, rfl⟩ := List.mem_map.1 h
  simpa using Text.sep_notMem_of_mem_pieces hp

/-! ### Trees -/

/-- A name that a file or directory can have. -/
def IsName (name : String) : Prop :=
  name ≠ "" ∧ name ≠ "." ∧ name ≠ ".." ∧ '/' ∉ name.toList ∧ '\x00' ∉ name.toList

instance (name : String) : Decidable (IsName name) :=
  inferInstanceAs (Decidable (_ ∧ _))

/-- A tree in which files have names that they can have, and none is a directory too. -/
structure WellFormed (t : FileTree) : Prop where
  isName : ∀ f ∈ t.files, ∀ n ∈ f.1, IsName n
  notDir : ∀ f ∈ t.files, t.isDir f.1 = false

variable {t : FileTree} {p q : Place}

theorem isFile_iff : t.isFile p ↔ ∃ c, (p, c) ∈ t.files := by
  simp [isFile, content?]

theorem isAbove_iff : isAbove p q = true ↔ ∃ n rest, q = p ++ n :: rest := by
  rw [isAbove, Bool.and_eq_true, List.isPrefixOf_iff_prefix, decide_eq_true_eq]
  constructor
  · rintro ⟨⟨rest, rfl⟩, hlength⟩
    cases rest with
    | nil => simp at hlength
    | cons n rest => exact ⟨n, rest, rfl⟩
  · rintro ⟨n, rest, rfl⟩
    simp

/-- What leads to a file is a directory. -/
theorem isDir_of_isFile {n : String} {rest : List String} (h : t.isFile (p ++ n :: rest)) :
    t.isDir p := by
  obtain ⟨c, hc⟩ := isFile_iff.1 h
  have habove : isAbove p (p ++ n :: rest) = true := isAbove_iff.2 ⟨n, rest, rfl⟩
  have hmem : p ++ n :: rest ∈ t.places := List.mem_append_left _ (List.mem_map.2 ⟨_, hc, rfl⟩)
  simp only [isDir, Bool.or_eq_true, List.any_eq_true]
  exact .inr ⟨_, hmem, habove⟩

theorem isDir_dropLast (h : t.isDir p) : t.isDir p.dropLast := by
  rcases List.eq_nil_or_concat p with rfl | ⟨above, n, rfl⟩
  · exact h
  · simp only [isDir, Bool.or_eq_true, List.any_eq_true, List.contains_iff_mem,
      List.isPrefixOf_iff_prefix, List.concat_eq_append, List.dropLast_concat] at h ⊢
    rcases h with (hhome | hdir) | ⟨q, hq, habove⟩
    · exact .inl (.inl ((List.prefix_append above [n]).trans hhome))
    · exact .inr ⟨_, List.mem_append_right _ hdir, isAbove_iff.2 ⟨n, [], rfl⟩⟩
    · obtain ⟨m, rest, rfl⟩ := isAbove_iff.1 habove
      exact .inr ⟨_, hq, isAbove_iff.2 ⟨n, m :: rest, by simp⟩⟩

namespace WellFormed

variable (hwf : t.WellFormed)
include hwf

theorem isName_of_mem (h : t.isFile p) {n : String} (hn : n ∈ p) : IsName n := by
  obtain ⟨c, hc⟩ := isFile_iff.1 h
  exact hwf.isName _ hc n hn

theorem isFile_of_isDir (h : t.isDir p) : t.isFile p = false := by
  refine Bool.eq_false_iff.2 fun hfile => ?_
  obtain ⟨c, hc⟩ := isFile_iff.1 hfile
  rw [hwf.notDir _ hc] at h
  contradiction

end WellFormed

/-! ### Paths -/

theorem follow_append (p : Place) (ns ms : List String) :
    t.follow p (ns ++ ms) = (t.follow p ns).bind fun q => t.follow q ms := by
  induction ns generalizing p with
  | nil => rfl
  | cons n ns ih =>
      rw [List.cons_append, follow, follow]
      split
      · rfl
      · split
        · exact ih p
        · split <;> exact ih _

theorem follow_cons_of_isName {n : String} (hp : t.isDir p) (hn : IsName n) (ns : List String) :
    t.follow p (n :: ns) = t.follow (p ++ [n]) ns := by
  obtain ⟨hempty, hhere, habove, -⟩ := hn
  simp [follow, hp, stays, hempty, hhere, habove]

/-- The last name leads to what it names, or it is no name and leads to a directory. -/
theorem follow_single (hp : t.isDir p) (n : String) :
    t.follow p [n] = .ok (p ++ [n]) ∨ ¬IsName n ∧ ∃ q, t.isDir q ∧ t.follow p [n] = .ok q := by
  simp only [follow, hp, Bool.not_true, Bool.false_eq_true, if_false]
  split
  · rename_i hstays
    refine .inr ⟨fun hn => ?_, p, hp, rfl⟩
    simp [stays, hn.1, hn.2.1] at hstays
  · split
    · rename_i habove
      exact .inr ⟨fun hn => hn.2.2.1 habove, p.dropLast, isDir_dropLast hp, rfl⟩
    · exact .inl rfl

/-- Names that lead down from a directory lead to the file that they name, and to no other. -/
theorem follow_isFile_iff (hwf : t.WellFormed) (hp : t.isDir p) {ns : List String} (hne : ns ≠ [])
    (hnames : ∀ n ∈ ns.dropLast, IsName n) :
    (t.follow p ns = .ok q ∧ t.isFile q) ↔ q = p ++ ns ∧ t.isFile q := by
  induction ns generalizing p with
  | nil => contradiction
  | cons n ns ih =>
      cases ns with
      | nil =>
          rcases follow_single hp n with hfollow | ⟨hname, r, hr, hfollow⟩
          · rw [hfollow, Except.ok.injEq, eq_comm]
          · rw [hfollow, Except.ok.injEq]
            refine iff_of_false ?_ ?_
            · rintro ⟨rfl, hfile⟩
              exact absurd hfile (by simp [hwf.isFile_of_isDir hr])
            · rintro ⟨rfl, hfile⟩
              exact hname (hwf.isName_of_mem hfile (by simp))
      | cons m ns =>
          rw [List.dropLast_cons_cons, List.forall_mem_cons] at hnames
          rw [follow_cons_of_isName hp hnames.1]
          by_cases hdir : t.isDir (p ++ [n])
          · rw [ih hdir (by simp) hnames.2]
            simp
          · refine iff_of_false ?_ ?_
            · rintro ⟨hfollow, -⟩
              simp [follow, hdir] at hfollow
            · rintro ⟨rfl, hfile⟩
              have hsplit : t.isFile (p ++ [n] ++ m :: ns) := by simpa using hfile
              exact hdir (isDir_of_isFile hsplit)

theorem file?_eq_some {path : String} :
    t.file? path = some q ↔ t.resolve path = .ok q ∧ t.isFile q := by
  rw [file?, existing?]
  cases t.resolve path with
  | error e => simp
  | ok p =>
      by_cases hfile : t.isFile p
      · simp only [hfile, Bool.true_or, if_true, Option.filter_some, Option.some.injEq,
          Except.ok.injEq]
        exact ⟨fun h => ⟨h, h ▸ hfile⟩, And.left⟩
      · refine iff_of_false (fun h => ?_) fun ⟨h, hq⟩ => hfile (Except.ok.inj h ▸ hq)
        obtain ⟨hp, hq⟩ := Option.filter_eq_some_iff.1 h
        have hp : (if (t.isFile p || t.isDir p) = true then some p else none) = some q := hp
        split at hp
        · exact hfile (Option.some.inj hp ▸ hq)
        · contradiction

theorem resolve_of_existing? {path : String} (h : t.existing? path = some p) :
    t.resolve path = .ok p := by
  rw [existing?] at h
  split at h
  · split at h
    · rename_i hresolve _
      rw [hresolve, Option.some.inj h]
    · contradiction
  · contradiction

theorem resolve_eq_ok {path : String} : t.resolve path = .ok q ↔
    path ≠ "" ∧ '\x00' ∉ path.toList ∧ t.follow (t.start path) (names path) = .ok q := by
  rw [resolve, bind_eq_ok, checked]
  split
  · simp [*]
  · split
    · simp_all
    · simp_all

/-! ### Paths below a directory -/

theorem join_cases {dir path : String} (hdir : dir ≠ "") (hpath : path.startsWith "/" = false) :
    (∃ front, dir = front ++ "/" ∧ join dir path = dir ++ path) ∨
      join dir path = dir ++ "/" ++ path := by
  rw [join, if_neg (by simp [hdir, hpath])]
  split
  · rename_i hends
    obtain ⟨front, hfront⟩ := exists_append_of_endsWith hends
    exact .inl ⟨front, hfront, rfl⟩
  · exact .inr rfl

theorem startsWith_append {dir path : String} (hdir : dir ≠ "") :
    (dir ++ path).startsWith "/" = dir.startsWith "/" := by
  rw [Bool.eq_iff_iff, String.startsWith_string_iff, String.startsWith_string_iff,
    String.toList_append]
  obtain ⟨c, cs, hcs⟩ := List.exists_cons_of_ne_nil (mt String.toList_eq_nil_iff.1 hdir)
  rw [hcs]
  simp

theorem start_append {dir path : String} (hdir : dir ≠ "") : t.start (dir ++ path) = t.start dir := by
  rw [start, start, startsWith_append hdir]

/-- From a directory, the names of a path are followed after those of the directory. -/
theorem follow_join {dir path : String} (hdir : t.resolve dir = .ok p)
    (hpath : path.startsWith "/" = false) :
    t.follow (t.start (join dir path)) (names (join dir path)) = t.follow p (names path) := by
  obtain ⟨hempty, -, hfollow⟩ := resolve_eq_ok.1 hdir
  rcases join_cases hempty hpath with ⟨front, rfl, hjoin⟩ | hjoin
  · have hnames : names (front ++ "/") = names front ++ [""] := by
      simpa [names, Text.pieces] using names_append_slash front ""
    rw [hnames, follow_append] at hfollow
    obtain ⟨r, hr, hstay⟩ := bind_eq_ok.1 hfollow
    have hrp : r = p := by
      rw [follow] at hstay
      split at hstay
      · contradiction
      · exact Except.ok.inj hstay
    rw [hjoin, start_append hempty, names_append_slash, follow_append, hr, hrp]
    rfl
  · rw [hjoin, names_append_slash, String.append_assoc, start_append hempty, follow_append, hfollow]
    rfl

theorem nul_notMem_join {dir path : String} (hempty : dir ≠ "") (hdir : '\x00' ∉ dir.toList)
    (hpath : path.startsWith "/" = false) :
    '\x00' ∉ (join dir path).toList ↔ '\x00' ∉ path.toList := by
  rcases join_cases hempty hpath with ⟨front, -, hjoin⟩ | hjoin <;>
    simp [hjoin, String.toList_append, hdir]

theorem startsWith_of_isName {path : String} (h : ∀ n ∈ (names path).dropLast, IsName n) :
    path.startsWith "/" = false := by
  refine Bool.eq_false_iff.2 fun hslash => ?_
  obtain ⟨rest, hrest⟩ := String.startsWith_string_iff.1 hslash
  have hpath : names path = "" :: names (String.ofList rest) := by
    simp [names, ← hrest, Text.pieces]
  obtain ⟨n, ns, hns⟩ := List.exists_cons_of_ne_nil (names_ne_nil (String.ofList rest))
  rw [hpath, hns] at h
  exact (h "" (by simp)).1 rfl

/-- A path below a directory leads to the file that its names add to the directory, and to no other
file. -/
theorem file?_join_eq_some (hwf : t.WellFormed) {dir path : String} (hdir : t.existing? dir = some p)
    (hp : t.isDir p) (hnames : ∀ n ∈ (names path).dropLast, IsName n) :
    t.file? (join dir path) = some q ↔ q = p ++ names path ∧ t.isFile q := by
  have hresolve := resolve_of_existing? hdir
  obtain ⟨hempty, hnul, -⟩ := resolve_eq_ok.1 hresolve
  have hslash := startsWith_of_isName hnames
  have hjoin : join dir path ≠ "" := by
    rcases join_cases hempty hslash with ⟨front, -, hjoin⟩ | hjoin <;> simp [hjoin, hempty]
  rw [file?_eq_some, resolve_eq_ok, nul_notMem_join hempty hnul hslash, follow_join hresolve hslash,
    ← follow_isFile_iff hwf hp (names_ne_nil path) hnames]
  refine ⟨fun ⟨⟨_, _, hfollow⟩, hq⟩ => ⟨hfollow, hq⟩,
    fun ⟨hfollow, hq⟩ => ⟨⟨hjoin, fun hmem => ?_, hfollow⟩, hq⟩⟩
  -- A path with a NUL character has a name with one, and no file has such a name.
  have hne : '\x00' ≠ '/' := by decide
  obtain ⟨piece, hpiece, hnul⟩ := Text.mem_pieces hmem hne
  obtain ⟨rfl, -⟩ := (follow_isFile_iff hwf hp (names_ne_nil path) hnames).1 ⟨hfollow, hq⟩
  have hname := hwf.isName_of_mem hq
    (List.mem_append_right p (List.mem_map.2 ⟨piece, hpiece, rfl⟩))
  exact hname.2.2.2.2 (by simpa using hnul)

end FileTree
end SchemaGraph
