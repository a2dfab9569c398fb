import SchemaGraph.Proofs.FilePlaces

/-!
Directories that are made, emptied and filled. Where a path leads depends on its names only; what is
in the tree decides if it can be followed. A path can lead nowhere although there is a directory at
its place, if a name is missing that it passes and leaves again; a path that goes up at its front
only is no such path. Making a directory makes only what the path passes, and when it has been made,
the path can be followed.
-/

namespace SchemaGraph.FileTree

variable {t t' t'' : FileTree} {p q : Place} {path n : String} {ns : List String}

/-! ### Where names lead -/

/-- The place that a name leads to. -/
def stepTo (p : Place) (n : String) : Place :=
  if stays n then p else if n = ".." then p.dropLast else p ++ [n]

/-- The place that names lead to. -/
def placeTo (p : Place) (ns : List String) : Place :=
  ns.foldl stepTo p

theorem follow_cons (p : Place) (n : String) (ns : List String) : t.follow p (n :: ns) =
    if t.isDir p then t.follow (stepTo p n) ns else .error (t.obstacle p) := by
  rw [follow, stepTo]
  by_cases hp : t.isDir p
  · simp only [hp, Bool.not_true, Bool.false_eq_true, if_false, if_true]
    split
    · rfl
    · split <;> rfl
  · simp [hp]

theorem eq_placeTo_of_follow (h : t.follow p ns = .ok q) : q = placeTo p ns := by
  induction ns generalizing p with
  | nil => exact (Except.ok.inj h).symm
  | cons n ns ih =>
      rw [follow_cons] at h
      split at h
      · exact ih h
      · contradiction

/-- There is a directory at the place that the names lead to, and wherever they pass. -/
def IsOpen (t : FileTree) (p : Place) (ns : List String) : Prop :=
  ∀ front, front <+: ns → t.isDir (placeTo p front)

theorem isOpen_cons : t.IsOpen p (n :: ns) ↔ t.isDir p ∧ t.IsOpen (stepTo p n) ns := by
  refine ⟨fun h => ⟨h [] List.nil_prefix, fun front hfront => ?_⟩, fun h front hfront => ?_⟩
  · exact h (n :: front) ((List.prefix_cons_inj n).2 hfront)
  · cases front with
    | nil => exact h.1
    | cons m front =>
        obtain ⟨rfl, hfront'⟩ := List.cons_prefix_cons.1 hfront
        exact h.2 front hfront'

theorem isOpen_iff : t.IsOpen p ns ↔ t.follow p ns = .ok (placeTo p ns) ∧ t.isDir (placeTo p ns) := by
  induction ns generalizing p with
  | nil => simp [IsOpen, placeTo, follow]
  | cons n ns ih =>
      rw [isOpen_cons, ih, follow_cons]
      by_cases hp : t.isDir p
      · rw [if_pos hp, and_iff_right hp]
        rfl
      · simp [hp]

theorem IsOpen.mono (h : t.IsOpen p ns) (hdirs : ∀ q, t.isDir q → t'.isDir q) : t'.IsOpen p ns :=
  fun front hfront => hdirs _ (h front hfront)

/-- Names that stay make no difference to where others lead. -/
theorem placeTo_filter (p : Place) (ns : List String) :
    placeTo p (ns.filter fun n => !stays n) = placeTo p ns := by
  induction ns generalizing p with
  | nil => rfl
  | cons n ns ih =>
      by_cases hn : stays n
      · rw [List.filter_cons_of_neg (by simp [hn]), ih, placeTo, placeTo, List.foldl_cons, stepTo,
          if_pos hn]
      · rw [List.filter_cons_of_pos (by simp [hn])]
        exact ih (stepTo p n)

/-- Names can be followed just if those of them can be that do not stay. -/
theorem IsOpen.of_filter (h : t.IsOpen p (ns.filter fun n => !stays n)) : t.IsOpen p ns :=
  fun front hfront => placeTo_filter p front ▸ h _ (hfront.filter _)

/-! ### Where paths lead -/

/-- The place that a path leads to from the working directory. -/
def destination (home : Place) (path : String) : Place :=
  placeTo (if path.startsWith "/" then [] else home) (names path)

theorem placeTo_wayOf (t : FileTree) (path : String) :
    placeTo (t.start path) (wayOf path) = destination t.home path :=
  placeTo_filter _ _

theorem eq_destination_of_resolve (h : t.resolve path = .ok p) : p = destination t.home path :=
  eq_placeTo_of_follow (resolve_eq_ok.1 h).2.2

theorem resolve_of_isOpen (hempty : path ≠ "") (hnul : '\x00' ∉ path.toList)
    (h : t.IsOpen (t.start path) (wayOf path)) :
    t.resolve path = .ok (destination t.home path) :=
  resolve_eq_ok.2 ⟨hempty, hnul, (isOpen_iff.1 h.of_filter).1⟩

theorem existing?_of_resolve (h : t.resolve path = .ok p) (hdir : t.isDir p) :
    t.existing? path = some p := by
  rw [existing?, h]
  simp [hdir]

/-- The path leads to the directory at its place, if there is one, as all paths would if a tree were
no more than a map from places to files. -/
def LeadsToPlace (t : FileTree) (path : String) : Prop :=
  t.isDir (destination t.home path) → (t.existing? path).isSome

theorem isDir_of_prefix_home (h : p <+: t.home) : t.isDir p := by
  simp [isDir, List.isPrefixOf_iff_prefix.2 h]

theorem LeadsToPlace.ne_empty (h : t.LeadsToPlace path) : path ≠ "" := by
  rintro rfl
  exact Bool.false_ne_true (h (isDir_of_prefix_home (List.prefix_refl _)))

/-! ### Paths that go up first -/

/-- A path that goes up at its front only. -/
def GoesUpFirst (path : String) : Prop :=
  ".." ∉ (wayOf path).dropWhile fun n => n = ".."

instance (path : String) : Decidable (GoesUpFirst path) :=
  inferInstanceAs (Decidable (_ ∉ _))

theorem isDir_of_prefix (h : t.isDir q) (hp : p <+: q) : t.isDir p := by
  obtain ⟨rest, rfl⟩ := hp
  induction rest generalizing p with
  | nil => simpa using h
  | cons n rest ih =>
      have hbelow : t.isDir (p ++ [n]) := ih (by simpa using h)
      simpa using isDir_dropLast hbelow

theorem prefix_placeTo (h : ".." ∉ ns) : p <+: placeTo p ns := by
  induction ns generalizing p with
  | nil => exact List.prefix_refl p
  | cons n ns ih =>
      rw [List.mem_cons, not_or] at h
      refine List.IsPrefix.trans ?_ (ih h.2)
      rw [stepTo]
      split
      · exact List.prefix_refl p
      · rw [if_neg (Ne.symm h.1)]
        exact List.prefix_append p [n]

/-- Names that go down pass only what is above the place that they lead to. -/
theorem isOpen_of_isDir (h : ".." ∉ ns) (hdir : t.isDir (placeTo p ns)) : t.IsOpen p ns := by
  rintro front ⟨rest, rfl⟩
  rw [placeTo, List.foldl_append] at hdir
  exact isDir_of_prefix hdir (prefix_placeTo fun hmem => h (List.mem_append_right _ hmem))

/-- Names that go up first pass what is above the working directory as well. -/
theorem isOpen_of_goesUpFirst (h : ".." ∉ ns.dropWhile fun n => n = "..") (hp : p <+: t.home)
    (hdir : t.isDir (placeTo p ns)) : t.IsOpen p ns := by
  induction ns generalizing p with
  | nil => exact isOpen_of_isDir List.not_mem_nil hdir
  | cons n ns ih =>
      by_cases hup : n = ".."
      · subst hup
        have hstep : stepTo p ".." = p.dropLast := rfl
        rw [List.dropWhile_cons_of_pos (by simp)] at h
        exact isOpen_cons.2 ⟨isDir_of_prefix_home hp,
          ih h (hstep ▸ (List.dropLast_prefix p).trans hp) hdir⟩
      · rw [List.dropWhile_cons_of_neg (by simp [hup])] at h
        exact isOpen_of_isDir h hdir

theorem start_prefix (t : FileTree) (path : String) : t.start path <+: t.home := by
  rw [start]
  split
  · exact List.nil_prefix
  · exact List.prefix_refl _

/-- A path that goes up at its front only leads to the directory at its place. -/
theorem leadsToPlace_of_goesUpFirst (hempty : path ≠ "") (hnul : '\x00' ∉ path.toList)
    (hup : GoesUpFirst path) : t.LeadsToPlace path := by
  intro hdir
  have hopen := isOpen_of_goesUpFirst hup (t.start_prefix path) (placeTo_wayOf t path ▸ hdir)
  rw [existing?_of_resolve (resolve_of_isOpen hempty hnul hopen) hdir, Option.isSome_some]

theorem exists_of_isDir (h : t.isDir p) : p <+: t.home ∨ ∃ q ∈ t.places, p <+: q := by
  simp only [isDir, Bool.or_eq_true, List.any_eq_true, List.contains_iff_mem,
    List.isPrefixOf_iff_prefix] at h
  rcases h with (hhome | hmem) | ⟨q, hq, habove⟩
  · exact .inl hhome
  · exact .inr ⟨p, List.mem_append_right _ hmem, List.prefix_refl p⟩
  · obtain ⟨n, rest, rfl⟩ := isAbove_iff.1 habove
    exact .inr ⟨_, hq, List.prefix_append _ _⟩

/-! ### Making directories -/

/-- The tree has gained nothing but directories that the names pass or lead to. -/
structure Extended (p : Place) (ns : List String) (t t' : FileTree) : Prop where
  files : t'.files = t.files
  home : t'.home = t.home
  dirs : ∀ d ∈ t'.dirs, d ∈ t.dirs ∨ ∃ front, front <+: ns ∧ d = placeTo p front

namespace Extended

theorem refl : Extended p ns t t :=
  ⟨rfl, rfl, fun _ => .inl⟩

theorem trans (h : Extended p ns t t') (h' : Extended p ns t' t'') : Extended p ns t t'' := by
  refine ⟨h'.files.trans h.files, h'.home.trans h.home, fun d hd => ?_⟩
  rcases h'.dirs d hd with hd | hd
  · exact h.dirs d hd
  · exact .inr hd

theorem mono {ms : List String} (h : Extended p ns t t') (hns : ns <+: ms) :
    Extended p ms t t' := by
  refine ⟨h.files, h.home, fun d hd => (h.dirs d hd).imp_right ?_⟩
  rintro ⟨front, hfront, rfl⟩
  exact ⟨front, hfront.trans hns, rfl⟩

theorem addDir : Extended p ns t (t.addDir (placeTo p ns)) := by
  refine ⟨rfl, rfl, fun d hd => ?_⟩
  rcases List.mem_append.1 hd with hd | hd
  · exact .inl hd
  · exact .inr ⟨ns, List.prefix_refl ns, List.mem_singleton.1 hd⟩

end Extended

theorem isDir_addDir_self (t : FileTree) (p : Place) : (t.addDir p).isDir p := by
  simp [isDir, addDir]

theorem isDir_addDir (h : t.isDir q) : (t.addDir p).isDir q := by
  simp only [isDir, places, addDir, Bool.or_eq_true, List.any_eq_true, List.contains_iff_mem,
    List.mem_append] at h ⊢
  rcases h with (hhome | hdir) | ⟨x, hx, habove⟩
  · exact .inl (.inl hhome)
  · exact .inl (.inr (.inl hdir))
  · exact .inr ⟨x, hx.imp_right .inl, habove⟩

theorem makeOne_eq_ok (h : t.makeOne p ns = .ok t') :
    t' = t.addDir (placeTo p ns) ∧ t'.IsOpen p ns := by
  rw [makeOne] at h
  obtain ⟨above, habove, h⟩ := bind_eq_ok.1 h
  obtain ⟨hdir, h⟩ := check_eq_ok.1 h
  obtain rfl := eq_placeTo_of_follow habove
  have hopen : t.IsOpen p ns.dropLast := isOpen_iff.2 ⟨habove, by simpa using hdir⟩
  rcases List.eq_nil_or_concat ns with rfl | ⟨front, n, rfl⟩
  · contradiction
  · rw [List.concat_eq_append] at h hopen ⊢
    simp only [List.dropLast_concat, List.getLast?_concat] at h hopen
    obtain ⟨hfree, h⟩ := check_eq_ok.1 h
    obtain ⟨-, h⟩ := check_eq_ok.1 h
    simp only [not_or, Bool.not_eq_true] at hfree
    obtain ⟨hstays, hup, -⟩ := hfree
    have hplace : placeTo p (front ++ [n]) = placeTo p front ++ [n] := by
      simp [placeTo, stepTo, hstays, hup]
    obtain rfl := pure_eq_ok.1 h
    rw [hplace, ← hplace]
    refine ⟨rfl, fun ms hms => ?_⟩
    rcases List.prefix_concat_iff.1 hms with rfl | hms
    · exact isDir_addDir_self t _
    · exact isDir_addDir (hopen ms hms)

theorem ensureOne_eq_ok (h : t.ensureOne p ns = .ok t') :
    Extended p ns t t' ∧ t'.IsOpen p ns := by
  rw [ensureOne] at h
  split at h
  · rename_i hmade
    obtain rfl := Except.ok.inj h
    obtain ⟨rfl, hopen⟩ := makeOne_eq_ok hmade
    exact ⟨.addDir, hopen⟩
  · rename_i hfollow
    split at h
    · rename_i hdir
      obtain rfl := Except.ok.inj h
      obtain rfl := eq_placeTo_of_follow hfollow
      exact ⟨.refl, isOpen_iff.2 ⟨hfollow, hdir⟩⟩
    · contradiction
  · contradiction

theorem ensureAll_eq_ok {ending before : List String}
    (h : ensureAll p ending before t = .ok t') : Extended p (before.reverse ++ ending) t t' ∧
      (before ≠ [] → t'.IsOpen p (before.reverse ++ ending)) := by
  induction before generalizing ending t' with
  | nil =>
      obtain rfl := Except.ok.inj h
      exact ⟨.refl, fun hne => absurd rfl hne⟩
  | cons n before ih =>
      rw [ensureAll] at h
      have hmade : ∃ t₁, Extended p ((n :: before).reverse ++ ending) t t₁ ∧
          t₁.ensureOne p ((n :: before).reverse ++ ending) = .ok t' := by
        split at h <;> obtain ⟨t₁, hfirst, h⟩ := bind_eq_ok.1 h
        · refine ⟨t₁, (ih hfirst).1.mono ?_, h⟩
          rw [List.append_nil, List.reverse_cons, List.append_assoc]
          exact List.prefix_append _ _
        · exact ⟨t₁, Except.ok.inj hfirst ▸ .refl, h⟩
      obtain ⟨t₁, hfirst, h⟩ := hmade
      obtain ⟨hlast, hopen⟩ := ensureOne_eq_ok h
      exact ⟨hfirst.trans hlast, fun _ => hopen⟩

theorem checked_of_checkedTarget (h : checkedTarget path = .ok ()) :
    path ≠ "" ∧ '\x00' ∉ path.toList := by
  obtain ⟨_, h, -⟩ := bind_eq_ok.1 h
  rw [checked] at h
  obtain ⟨hempty, h⟩ := check_eq_ok.1 h
  obtain ⟨hnul, -⟩ := check_eq_ok.1 h
  exact ⟨hempty, by simpa using hnul⟩

/-- A directory that has been made can be reached, and nothing else has been made but what the path
passes. -/
theorem makeDirectory_eq_ok (hempty : path ≠ "") (h : t.makeDirectory path = .ok t') :
    Extended (t.start path) (wayOf path) t t' ∧ t'.resolve path = .ok (destination t.home path) ∧
      t'.isDir (destination t.home path) := by
  rw [makeDirectory, if_neg hempty] at h
  obtain ⟨_, hchecked, h⟩ := bind_eq_ok.1 h
  have hnul := (checked_of_checkedTarget hchecked).2
  set ending := if (leadingNames path).getLast? = some "." then ["."] else [] with hending
  obtain ⟨hextended, hopen⟩ := ensureAll_eq_ok h
  rw [List.reverse_reverse] at hextended hopen
  have hway : (wayOf path ++ ending).filter (fun n => !stays n) = wayOf path := by
    have hstays : ending.filter (fun n => !stays n) = [] := by
      rw [hending]
      split <;> rfl
    rw [List.filter_append, hstays, List.append_nil, wayOf, List.filter_filter]
    simp
  have hstart : t'.start path = t.start path := by
    rw [start, start, hextended.home]
  have hopen : t'.IsOpen (t'.start path) (wayOf path) := by
    rw [hstart]
    by_cases hnone : (wayOf path).reverse = []
    · rw [List.reverse_eq_nil_iff.1 hnone]
      intro front hfront
      rw [List.prefix_nil.1 hfront]
      exact isDir_of_prefix_home (hextended.home ▸ t.start_prefix path)
    · exact fun front hfront => hopen hnone front (hfront.trans (List.prefix_append _ _))
  refine ⟨⟨hextended.files, hextended.home, fun d hd => (hextended.dirs d hd).imp_right ?_⟩, ?_, ?_⟩
  · rintro ⟨front, hfront, rfl⟩
    exact ⟨_, hway ▸ hfront.filter _, (placeTo_filter _ front).symm⟩
  · rw [resolve_of_isOpen hempty hnul hopen, hextended.home]
  · rw [← placeTo_wayOf, ← hstart]
    exact (isOpen_iff.1 hopen).2

/-! ### Removing directories -/

/-- Nothing is known to be below the place. -/
def IsBare (t : FileTree) (p : Place) : Prop :=
  ∀ q ∈ t.places, isAbove p q = false

theorem isBare_of_not_isDir (h : t.isDir p = false) : t.IsBare p := by
  simp only [isDir, Bool.or_eq_false_iff, List.any_eq_false, Bool.not_eq_true] at h
  exact h.2

theorem isBare_remove (t : FileTree) (p : Place) : (t.remove p).IsBare p := by
  intro q hq
  have hkept : q ≠ p.dropLast → p.isPrefixOf q = false := by
    intro hne
    simp only [places, remove, List.mem_append, List.mem_map, List.mem_filter, List.mem_cons] at hq
    rcases hq with ⟨f, ⟨-, hf⟩, rfl⟩ | rfl | ⟨-, hq⟩
    · simpa using hf
    · contradiction
    · simpa using hq
  by_cases hq : q = p.dropLast
  · simp [hq, isAbove]
  · rw [isAbove, hkept hq, Bool.false_and]

theorem removeDirectory_eq_ok (h : t.removeDirectory path = (t', .ok ())) :
    ∃ p, t.resolve path = .ok p ∧ t' = t.remove p := by
  rw [removeDirectory] at h
  split at h
  · cases h
  · rename_i p hresolve
    split at h
    · cases h
    · split at h
      · cases h
      · split at h
        · cases h
        · exact ⟨p, hresolve, (Prod.mk.inj h).1.symm⟩

theorem IsBare.not_prefix (h : t.IsBare p) (hq : q ∈ t.places) {rest : List String}
    (hne : rest ≠ []) : ¬p ++ rest <+: q := by
  rintro ⟨tail, rfl⟩
  obtain ⟨n, rest, rfl⟩ := List.exists_cons_of_ne_nil hne
  have habove : isAbove p (p ++ n :: rest ++ tail) = true :=
    isAbove_iff.2 ⟨n, rest ++ tail, by simp⟩
  rw [h _ hq] at habove
  contradiction

/-! ### Writing files -/

theorem content?_put (t : FileTree) (p q : Place) (c : Content) :
    (t.put p c).content? q = if q = p then some c else t.content? q := by
  have hkept : (t.files.filter fun f => f.1 ≠ p).find? (fun f => f.1 = q) =
      if q = p then none else t.files.find? fun f => f.1 = q := by
    split
    · rename_i hq
      exact List.find?_eq_none.2 (by simp [hq])
    · rename_i hq
      rw [List.find?_filter]
      congr 1
      funext f
      by_cases hf : f.1 = q <;> simp [hf, hq]
  rw [content?, put, List.find?_append, hkept]
  by_cases hq : q = p
  · simp [hq]
  · simp [hq, Ne.symm hq, content?]

/-- Putting a file somewhere makes directories of what is above it, and takes none away. -/
theorem isDir_put {c : Content} : (t.put p c).isDir q ↔ t.isDir q ∨ isAbove q p = true := by
  simp only [isDir, places, put, Bool.or_eq_true, List.any_eq_true, List.mem_append, List.mem_map,
    List.mem_filter, List.mem_singleton]
  constructor
  · rintro (h | ⟨x, (⟨f, ⟨hf, -⟩ | rfl, rfl⟩ | hx), habove⟩)
    · exact .inl (.inl h)
    · exact .inl (.inr ⟨_, .inl ⟨f, hf, rfl⟩, habove⟩)
    · exact .inr habove
    · exact .inl (.inr ⟨x, .inr hx, habove⟩)
  · rintro ((h | ⟨x, (⟨f, hf, rfl⟩ | hx), habove⟩) | habove)
    · exact .inl h
    · by_cases hp : f.1 = p
      · exact .inr ⟨p, .inl ⟨(p, c), .inr rfl, rfl⟩, hp ▸ habove⟩
      · exact .inr ⟨_, .inl ⟨f, .inl ⟨hf, by simpa using hp⟩, rfl⟩, habove⟩
    · exact .inr ⟨x, .inr hx, habove⟩
    · exact .inr ⟨p, .inl ⟨(p, c), .inr rfl, rfl⟩, habove⟩

theorem resolve_put {c : Content} (h : t.resolve path = .ok q) (hdir : t.isDir q) :
    (t.put p c).resolve path = .ok q := by
  obtain ⟨hempty, hnul, hfollow⟩ := resolve_eq_ok.1 h
  obtain rfl := eq_placeTo_of_follow hfollow
  have hopen : (t.put p c).IsOpen (t.start path) (names path) :=
    (isOpen_iff.2 ⟨hfollow, hdir⟩).mono fun _ hq => isDir_put.2 (.inl hq)
  exact resolve_eq_ok.2 ⟨hempty, hnul, (isOpen_iff.1 hopen).1⟩

/-- A name that leads down from a directory. -/
structure IsEntry (name : String) : Prop where
  slash_notMem : '/' ∉ name.toList
  not_stays : stays name = false
  ne_up : name ≠ ".."

theorem names_join {dir name : String} (hdir : dir ≠ "") (hslash : '/' ∉ name.toList) :
    ∃ front, names (join dir name) = front ++ [name] := by
  have hstart : name.startsWith "/" = false :=
    startsWith_of_isName (by simp [names_of_notMem hslash])
  rcases join_cases hdir hstart with ⟨front, rfl, hjoin⟩ | hjoin
  · exact ⟨names front, by rw [hjoin, names_append_slash, names_of_notMem hslash]⟩
  · exact ⟨names dir, by rw [hjoin, names_append_slash, names_of_notMem hslash]⟩

/-- A file that is written under a name in a directory is put there. -/
theorem write_join_eq_ok {dir name text : String} (hdir : t.resolve dir = .ok p)
    (hname : IsEntry name) (h : t.write (join dir name) text = .ok t') :
    t' = t.put (p ++ [name]) (some text) := by
  obtain ⟨hslash, hstays, hup⟩ := hname
  have hstart : name.startsWith "/" = false :=
    startsWith_of_isName (by simp [names_of_notMem hslash])
  have hleading : leadingNames (join dir name) = names (join dir name) := by
    obtain ⟨front, hnames⟩ := names_join (resolve_eq_ok.1 hdir).1 hslash
    have hname : name ≠ "" := by
      rintro rfl
      contradiction
    simp [leadingNames, hnames, hname]
  obtain ⟨_, -, h⟩ := bind_eq_ok.1 h
  obtain ⟨q, hfollow, h⟩ := bind_eq_ok.1 h
  obtain ⟨-, h⟩ := check_eq_ok.1 h
  obtain ⟨-, h⟩ := check_eq_ok.1 h
  rw [hleading, follow_join hdir hstart, names_of_notMem hslash] at hfollow
  have hplace : q = p ++ [name] := by
    rw [eq_placeTo_of_follow hfollow]
    simp [placeTo, stepTo, hstays, hup]
  rw [← pure_eq_ok.1 h, hplace]

/-- The path leads to a directory with exactly these files, by names and texts. Directories are
below it only if they lead to the working directory or are passed by the path itself. -/
structure HoldsOnly (t : FileTree) (dir : String) (files : List (String × String)) : Prop where
  resolve : t.resolve dir = .ok (destination t.home dir)
  isDir : t.isDir (destination t.home dir)
  content_iff : ∀ rest c, rest ≠ [] → (t.content? (destination t.home dir ++ rest) = some c ↔
    ∃ f ∈ files, rest = [f.1] ∧ c = some f.2)
  passed_of_isDir : ∀ rest, rest ≠ [] → t.isDir (destination t.home dir ++ rest) →
    destination t.home dir ++ rest <+: t.home ∨ ∃ front, front <+: wayOf dir ∧
      destination t.home dir ++ rest <+: placeTo (t.start dir) front

/-- A directory is empty when it has been made where nothing was. -/
theorem holdsOnly_nil_of_makeDirectory (hempty : path ≠ "")
    (hbare : t.IsBare (destination t.home path)) (h : t.makeDirectory path = .ok t') :
    t'.HoldsOnly path [] := by
  obtain ⟨hextended, hresolve, hdir⟩ := makeDirectory_eq_ok hempty h
  rw [← hextended.home] at hresolve hdir hbare
  refine ⟨hresolve, hdir, fun rest c hne => iff_of_false (fun hcontent => ?_) (by simp), ?_⟩
  · obtain ⟨c, hc⟩ := isFile_iff.1 (Option.isSome_of_eq_some hcontent)
    rw [hextended.files] at hc
    exact hbare.not_prefix (List.mem_append_left _ (List.mem_map_of_mem hc)) hne
      (List.prefix_refl _)
  · intro rest hne hrest
    refine (exists_of_isDir hrest).imp_right ?_
    rintro ⟨q, hq, hprefix⟩
    rw [places, hextended.files, List.mem_append] at hq
    rcases hq with hq | hq
    · exact absurd hprefix (hbare.not_prefix (List.mem_append_left _ hq) hne)
    · rcases hextended.dirs q hq with hq | ⟨front, hfront, rfl⟩
      · exact absurd hprefix (hbare.not_prefix (List.mem_append_right _ hq) hne)
      · rw [start, ← hextended.home] at hprefix
        exact ⟨front, hfront, hprefix⟩

/-- One more file is written under a name that no other has. -/
theorem HoldsOnly.put {dir : String} {files : List (String × String)} {f : String × String}
    (h : t.HoldsOnly dir files) (hname : f.1 ∉ files.map Prod.fst) :
    (t.put (destination t.home dir ++ [f.1]) (some f.2)).HoldsOnly dir (files ++ [f]) := by
  refine ⟨resolve_put h.resolve h.isDir, isDir_put.2 (.inl h.isDir), fun rest c hne => ?_,
    fun rest hne hrest => ?_⟩
  · show (t.put (destination t.home dir ++ [f.1]) (some f.2)).content?
      (destination t.home dir ++ rest) = some c ↔ _
    simp only [content?_put, List.append_right_inj, List.mem_append, List.mem_singleton,
      or_and_right, exists_or, exists_eq_left]
    by_cases hrest : rest = [f.1]
    · rw [if_pos hrest, Option.some.injEq, eq_comm, or_iff_right, and_iff_right hrest]
      rintro ⟨g, hg, heq, -⟩
      have heq : f.1 = g.1 := List.singleton_inj.1 (hrest.symm.trans heq)
      exact hname (heq ▸ List.mem_map_of_mem hg)
    · rw [if_neg hrest, h.content_iff rest c hne, or_iff_left fun hf => hrest hf.1]
  · rcases isDir_put.1 hrest with hrest | habove
    · exact h.passed_of_isDir rest hne hrest
    · obtain ⟨n, tail, heq⟩ := isAbove_iff.1 habove
      rw [List.append_assoc] at heq
      have hlength := congrArg List.length (List.append_cancel_left heq)
      have hpos := List.length_pos_iff.2 hne
      simp at hlength
      omega

theorem performAll_cons_eq_ok {a : FileAction} {as : List FileAction} :
    t.performAll (a :: as) = (t', .ok ()) ↔
      ∃ t₁, t.perform a = (t₁, .ok ()) ∧ t₁.performAll as = (t', .ok ()) := by
  rw [performAll]
  rcases t.perform a with ⟨t₁, e | _⟩ <;> simp

theorem perform_write_eq_ok {text : String} :
    t.perform (.write path text) = (t', .ok ()) ↔ t.write path text = .ok t' := by
  rw [perform]
  cases t.write path text <;> simp

theorem perform_makeDirectory_eq_ok :
    t.perform (.makeDirectory path) = (t', .ok ()) ↔ t.makeDirectory path = .ok t' := by
  rw [perform]
  cases t.makeDirectory path <;> simp

/-- Files with different names are all there once they have been written one after the other. -/
theorem HoldsOnly.performAll {dir : String} {done files : List (String × String)}
    (hnames : ((done ++ files).map Prod.fst).Nodup) (hentries : ∀ f ∈ files, IsEntry f.1)
    (h : t.HoldsOnly dir done)
    (hperform : t.performAll (files.map fun f => .write (join dir f.1) f.2) = (t', .ok ())) :
    t'.HoldsOnly dir (done ++ files) := by
  induction files generalizing t done with
  | nil =>
      obtain rfl : t = t' := (Prod.mk.inj hperform).1
      simpa using h
  | cons f files ih =>
      rw [List.forall_mem_cons] at hentries
      obtain ⟨t₁, hwrite, hperform⟩ := performAll_cons_eq_ok.1 hperform
      obtain rfl := write_join_eq_ok h.resolve hentries.1 (perform_write_eq_ok.1 hwrite)
      have hfresh : f.1 ∉ done.map Prod.fst := by
        rw [List.map_append, List.map_cons, List.nodup_append] at hnames
        exact fun hmem => hnames.2.2 _ hmem _ List.mem_cons_self rfl
      rw [List.append_cons] at hnames ⊢
      exact ih hnames hentries.2 (h.put hfresh) hperform

end SchemaGraph.FileTree
