import SchemaGraph.Proofs.RustIdentifiers

/-!
Snake case as a change to a text. It puts all letters in lower case and underscores in front of some
of them, and changes nothing else. Which letters get an underscore can be told from the characters
next to them. None is put in after another, since what stands in front of a new word is a letter or
a digit: a writer that looks at the end of its text before each underscore writes the same.
-/

namespace SchemaGraph.RustNames

/-! ### Underscores put in -/

/-- The second text is the first one with underscores put in, where `before` is the character in
front of both. None is put in at the start, and none after an underscore, be it an old or a new
one. -/
inductive Spaced : Option Char → List Char → List Char → Prop
  | nil {before : Option Char} : Spaced before [] []
  | keep {before : Option Char} {c : Char} {s t : List Char} :
      Spaced (some c) s t → Spaced before (c :: s) (c :: t)
  | insert {p : Char} {s t : List Char} :
      p ≠ '_' → Spaced (some '_') s t → Spaced (some p) s ('_' :: t)

variable {before after : Option Char} {p : Char} {s t cs written : List Char}

theorem Spaced.filter_eq (h : Spaced before s t) :
    t.filter (· ≠ '_') = s.filter (· ≠ '_') := by
  induction h with
  | nil => rfl
  | keep _ ih => rw [List.filter_cons, List.filter_cons, ih]
  | insert _ _ ih => exact ih

theorem Spaced.any_eq {P : Char → Bool} (h : Spaced before s t) (hmark : P '_' = false) :
    t.any P = s.any P := by
  induction h with
  | nil => rfl
  | keep _ ih => rw [List.any_cons, List.any_cons, ih]
  | insert _ _ ih => rw [List.any_cons, hmark, Bool.false_or, ih]

/-! ### Words -/

theorem isAlphanum_of_beginsWord (h : beginsWord (some p) after = true) : p.isAlphanum = true := by
  simp only [beginsWord, Bool.or_eq_true, Bool.and_eq_true] at h
  rw [Char.isAlphanum, Char.isAlpha, Bool.or_eq_true, Bool.or_eq_true]
  tauto

theorem toLower_ne_underscore (h : p.isAlphanum = true) : p.toLower ≠ '_' := by
  have hlower : p.toLower.isAlphanum = p.isAlphanum :=
    Text.apply_toLower (fun c hc => by rw [Char.isAlphanum, hc, Bool.true_or]) p
  intro heq
  rw [heq, h] at hlower
  contradiction

/-- There is a character in front of a word that begins, and it is not written as an underscore. -/
theorem exists_of_beginsWord (h : beginsWord before after = true) :
    ∃ p, before = some p ∧ p.toLower ≠ '_' := by
  cases before with
  | none => contradiction
  | some p => exact ⟨p, rfl, toLower_ne_underscore (isAlphanum_of_beginsWord h)⟩

/-- The letter at this place begins a word that is not the first: it is in upper case, and it
follows a lower-case letter or a digit, or it is the last of several upper-case letters and goes on
in lower case. -/
def BeginsWordAt (s : List Char) : Nat → Prop
  | 0 => False
  | i + 1 => ∃ p ∈ s[i]?, ∃ c ∈ s[i + 1]?, c.isUpper = true ∧
      (p.isLower = true ∨ p.isDigit = true ∨
        p.isUpper = true ∧ ∃ d ∈ s[i + 2]?, d.isLower = true)

instance (s : List Char) : DecidablePred (BeginsWordAt s)
  | 0 => inferInstanceAs (Decidable False)
  | i + 1 => inferInstanceAs (Decidable (∃ p ∈ s[i]?, ∃ c ∈ s[i + 1]?, _))

/-- What is written for the character `c` at this place of a text. -/
def wordPiece (s : List Char) (i : Nat) (c : Char) : List Char :=
  if BeginsWordAt s i then ['_', c.toLower] else [c.toLower]

theorem beginsWordAt_length (front : List Char) (c : Char) (cs : List Char) :
    BeginsWordAt (front ++ c :: cs) front.length ↔
      c.isUpper = true ∧ beginsWord front.getLast? cs.head? = true := by
  obtain rfl | ⟨init, p, rfl⟩ := List.eq_nil_or_concat' front
  · simp [BeginsWordAt, beginsWord]
  · have hnext : (init ++ p :: c :: cs)[init.length + 2]? = cs.head? := by
      rw [List.getElem?_append_right (by omega), List.head?_eq_getElem?]
      simp
    simp [BeginsWordAt, beginsWord, hnext, or_assoc, Option.any_eq_true]

/-! ### Snake case -/

/-- What has been written ends with the last character of what has been read, in lower case. So the
condition on a word, which looks at the latter, keeps underscores apart. -/
theorem spaced_snakeFrom (before : Option Char) (cs : List Char) :
    Spaced (before.map Char.toLower) (cs.map Char.toLower) (snakeFrom before cs) := by
  induction cs generalizing before with
  | nil => exact .nil
  | cons c cs ih =>
      rw [snakeFrom_cons]
      split
      · rename_i h
        obtain ⟨p, rfl, hp⟩ := exists_of_beginsWord h.2
        exact .insert hp (.keep (ih (some c)))
      · exact .keep (ih (some c))

/-- The rest of a text is written piece by piece, with places counted from the start of the text. -/
theorem snakeFrom_eq_pieces (front cs : List Char) :
    snakeFrom front.getLast? cs =
      (cs.mapIdx fun i => wordPiece (front ++ cs) (front.length + i)).flatten := by
  induction cs generalizing front with
  | nil => rfl
  | cons c cs ih =>
      have hpiece : wordPiece (front ++ c :: cs) front.length c =
          if c.isUpper = true ∧ beginsWord front.getLast? cs.head? = true then ['_', c.toLower]
          else [c.toLower] :=
        if_congr (beginsWordAt_length front c cs) rfl rfl
      have hrest : snakeFrom (some c) cs =
          (cs.mapIdx fun i => wordPiece (front ++ c :: cs) (front.length + (i + 1))).flatten := by
        have hplace : ∀ i, front.length + 1 + i = front.length + (i + 1) := by omega
        have h := ih (front ++ [c])
        rw [List.getLast?_concat, ← List.append_cons, List.length_append,
          List.length_singleton] at h
        simpa only [hplace] using h
      rw [snakeFrom_cons, List.mapIdx_cons, List.flatten_cons, Nat.add_zero, hpiece, hrest]

/-- A text without upper-case letters is in snake case already. -/
theorem snakeFrom_eq_self (h : cs.any Char.isUpper = false) : snakeFrom before cs = cs := by
  induction cs generalizing before with
  | nil => rfl
  | cons c cs ih =>
      rw [List.any_cons, Bool.or_eq_false_iff] at h
      rw [snakeFrom, h.1, ih h.2]
      rfl

theorem any_isUpper_snakeFrom : (snakeFrom before cs).any Char.isUpper = false := by
  rw [(spaced_snakeFrom before cs).any_eq (by decide), List.any_map, List.any_eq_false]
  intro c _
  simp [Char.isUpper_toLower_eq_false]

/-- Snake case as a text that grows at its end, with a look at this end before an underscore is put
in. -/
def snakeOnto (written : List Char) (before : Option Char) : List Char → List Char
  | [] => written
  | c :: cs =>
    if c.isUpper then
      if beginsWord before cs.head? && written.getLast? != some '_' then
        snakeOnto (written ++ ['_', c.toLower]) (some c) cs
      else snakeOnto (written ++ [c.toLower]) (some c) cs
    else snakeOnto (written ++ [c]) (some c) cs

/-- The look at the end never keeps an underscore back. -/
theorem snakeOnto_eq (h : written.getLast? = before.map Char.toLower) :
    snakeOnto written before cs = written ++ snakeFrom before cs := by
  induction cs generalizing written before with
  | nil => rw [snakeOnto, snakeFrom, List.append_nil]
  | cons c cs ih =>
      have hlook : (beginsWord before cs.head? && written.getLast? != some '_') =
          beginsWord before cs.head? := by
        rw [Bool.and_eq_left_iff_imp]
        intro hword
        obtain ⟨p, rfl, hp⟩ := exists_of_beginsWord hword
        simpa [h] using hp
      rw [snakeOnto, hlook, snakeFrom]
      split
      · split
        · rw [ih (by simp), List.append_assoc]
          rfl
        · rw [ih (by simp), List.append_assoc]
          rfl
      · rename_i hupper
        rw [ih (by simp [Char.toLower_eq_of_not_isUpper hupper]), List.append_assoc]
        rfl

/-- Snake case leaves no upper-case letter, and is the text in lower case but for underscores. All
underscores of the text are kept, and none is put in at the start or after another. New ones are put
in front of the letters that begin a word, but for the first word, whether or not the end of what is
written is looked at before. Snake case is an identifier just if the text is one, and does not
change when it is put in snake case again. -/
theorem snakeCase_loses_nothing (name : String) :
    (snakeCase name).toList.any Char.isUpper = false ∧
      (snakeCase name).toList.filter (· ≠ '_') = name.toLower.toList.filter (· ≠ '_') ∧
      Spaced none name.toLower.toList (snakeCase name).toList ∧
      (snakeCase name).toList = (name.toList.mapIdx (wordPiece name.toList)).flatten ∧
      (snakeCase name).toList = snakeOnto [] none name.toList ∧
      Text.isIdentifier (snakeCase name) = Text.isIdentifier name ∧
      snakeCase (snakeCase name) = snakeCase name := by
  have hchars : (snakeCase name).toList = snakeFrom none name.toList := String.toList_ofList
  have hlower : (snakeCase name).toList.any Char.isUpper = false := by
    rw [hchars, any_isUpper_snakeFrom]
  have hspaced : Spaced none name.toLower.toList (snakeCase name).toList := by
    rw [hchars, String.toLower, String.toList_map]
    exact spaced_snakeFrom none name.toList
  refine ⟨hlower, hspaced.filter_eq, hspaced, ?_, ?_, Text.isIdentifier_snakeCase, ?_⟩
  · rw [hchars]
    simpa using snakeFrom_eq_pieces [] name.toList
  · rw [hchars, snakeOnto_eq rfl, List.nil_append]
  · rw [snakeCase, snakeFrom_eq_self hlower, String.ofList_toList]

example : snakeCase "HTTPServer_Id2Name" = "http_server_id2_name" := by cbv

end SchemaGraph.RustNames
