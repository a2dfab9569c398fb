import SchemaGraph.Emission.RustItem
import SchemaGraph.Proofs.Names
import SchemaGraph.Proofs.Success

/-!
What becomes of a name as a Rust identifier. Spelling an identifier loses nothing, since no name has
the mark of raw identifiers itself. Snake case does lose something, but never a letter or a digit:
names with the same snake case differ in case and in underscores only.
-/

namespace SchemaGraph

open Text

/-! ### Spelling -/

namespace RustNames

variable {name other id : String}

/-- A name as Rust spells it. -/
def spelled (name : String) : String :=
  if name ∈ keywords then rawMark ++ name else name

theorem identifier_eq_ok : identifier name = .ok id ↔ name ∉ forbidden ∧ spelled name = id := by
  rw [identifier, spelled, check_eq_ok]
  split <;> simp

theorem withoutRawMark_spelled (h : '#' ∉ name.toList) : withoutRawMark (spelled name) = name := by
  rw [spelled]
  split
  · simp [rawMark, withoutRawMark]
  · rw [withoutRawMark]
    split
    · rename_i rest hrest
      simp [hrest] at h
    · rfl

theorem spelled_inj (h : '#' ∉ name.toList) (h' : '#' ∉ other.toList) :
    spelled name = spelled other ↔ name = other := by
  refine ⟨fun heq => ?_, congrArg spelled⟩
  rw [← withoutRawMark_spelled h, heq, withoutRawMark_spelled h']

/-- Only texts without a raw mark are told apart by their spelling. -/
theorem eq_of_identifier (h : '#' ∉ name.toList) (h' : '#' ∉ other.toList)
    (hname : identifier name = .ok id) (hother : identifier other = .ok id) : name = other := by
  rw [identifier_eq_ok] at hname hother
  exact (spelled_inj h h').1 (hname.2.trans hother.2.symm)

/-- Keywords are in lower case. -/
theorem isLower_of_mem_keywords (h : name ∈ keywords) : ∀ c ∈ name.toList, c.isLower = true := by
  have hlower : keywords.all (fun word => word.toList.all Char.isLower) = true := by
    decide +kernel
  exact List.all_eq_true.1 (List.all_eq_true.1 hlower name h)

/-- Words that are no identifiers by themselves are in lower case after their first character. -/
theorem isLower_of_mem_tail (h : name ∈ keywords ++ forbidden) :
    ∀ c ∈ name.toList.tail, c.isLower = true := by
  have hlower : forbidden.all (fun word => word.toList.tail.all Char.isLower) = true := by decide
  rcases List.mem_append.1 h with h | h
  · exact fun c hc => isLower_of_mem_keywords h c (List.mem_of_mem_tail hc)
  · exact List.all_eq_true.1 (List.all_eq_true.1 hlower name h)

/-! ### Snake case -/

theorem snakeFrom_cons (before : Option Char) (c : Char) (cs : List Char) :
    snakeFrom before (c :: cs) =
      (if c.isUpper = true ∧ beginsWord before cs.head? = true then ['_', c.toLower]
        else [c.toLower]) ++ snakeFrom (some c) cs := by
  rw [snakeFrom]
  split
  · rename_i hupper
    split
    · rename_i hword
      rw [if_pos ⟨hupper, hword⟩]
      rfl
    · rename_i hword
      rw [if_neg fun h => hword h.2]
      rfl
  · rename_i hupper
    rw [if_neg fun h => hupper h.1, Char.toLower_eq_of_not_isUpper hupper]
    rfl

theorem forall_mem_snakeFrom {P : Char → Prop} (hmark : P '_') (hlower : ∀ c, P c.toLower ↔ P c)
    (before : Option Char) (cs : List Char) :
    (∀ c ∈ snakeFrom before cs, P c) ↔ ∀ c ∈ cs, P c := by
  induction cs generalizing before with
  | nil => rfl
  | cons c cs ih =>
      rw [snakeFrom_cons, List.forall_mem_append, ih]
      split <;> simp [hmark, hlower]

/-- The letters and digits of a text, all of them in lower case. -/
def folded (text : List Char) : List Char :=
  (text.map Char.toLower).filter (· ≠ '_')

theorem folded_append (s t : List Char) : folded (s ++ t) = folded s ++ folded t := by
  rw [folded, List.map_append, List.filter_append, ← folded, ← folded]

theorem folded_snakeFrom (before : Option Char) (cs : List Char) :
    folded (snakeFrom before cs) = folded cs := by
  induction cs generalizing before with
  | nil => rfl
  | cons c cs ih =>
      have hpiece : folded (if c.isUpper = true ∧ beginsWord before cs.head? = true then
          ['_', c.toLower] else [c.toLower]) = folded [c] := by
        split <;> simp [folded, Char.toLower_toLower_eq_toLower]
      rw [snakeFrom_cons, folded_append, hpiece, ih, ← folded_append, List.singleton_append]

/-- Names in the same snake case have the same letters and digits, if case does not matter. -/
theorem folded_eq_of_snakeCase (h : snakeCase name = snakeCase other) :
    folded name.toList = folded other.toList := by
  rw [← folded_snakeFrom none name.toList, String.ofList_injective h, folded_snakeFrom]

end RustNames

/-! ### Identifiers -/

namespace Text

variable {name : String} {c : Char}

/-- What is true of all letters does not depend on the case of one. -/
theorem apply_toLower {P : Char → Bool} (h : ∀ c, c.isAlpha = true → P c = true) (c : Char) :
    P c.toLower = P c := by
  by_cases hupper : c.isUpper
  · have hletter : c.isAlpha = true := by simp [Char.isAlpha, hupper]
    have hlower : c.toLower.isAlpha = true := by rwa [Char.isAlpha_toLower_eq_isAlpha]
    rw [h _ hletter, h _ hlower]
  · rw [Char.toLower_eq_of_not_isUpper hupper]

theorem isIdentifierStart_toLower : isIdentifierStart c.toLower = isIdentifierStart c :=
  apply_toLower (fun c hc => by simp [isIdentifierStart, hc]) c

theorem isIdentifierPart_toLower : isIdentifierPart c.toLower = isIdentifierPart c :=
  apply_toLower (fun c hc => by simp [isIdentifierPart, Char.isAlphanum, hc]) c

theorem all_isIdentifierPart_snakeFrom (before : Option Char) (cs : List Char) :
    (RustNames.snakeFrom before cs).all isIdentifierPart = cs.all isIdentifierPart := by
  rw [Bool.eq_iff_iff, List.all_eq_true, List.all_eq_true]
  refine RustNames.forall_mem_snakeFrom (P := fun c => isIdentifierPart c = true) (by decide) ?_ ..
  exact fun c => by rw [isIdentifierPart_toLower]

/-- Snake case never makes an identifier of what is none. -/
theorem isIdentifier_snakeCase : isIdentifier (RustNames.snakeCase name) = isIdentifier name := by
  rw [isIdentifier, isIdentifier, RustNames.snakeCase, String.toList_ofList]
  cases name.toList with
  | nil => rfl
  | cons c cs =>
      rw [RustNames.snakeFrom]
      split
      · simp [RustNames.beginsWord, isIdentifierChars, isIdentifierStart_toLower,
          all_isIdentifierPart_snakeFrom]
      · simp [isIdentifierChars, all_isIdentifierPart_snakeFrom]

theorem isIdentifierPart_snakeCase (h : isIdentifier name = true) :
    ∀ c ∈ (RustNames.snakeCase name).toList, isIdentifierPart c = true := fun _ =>
  isIdentifierPart_of_mem (isIdentifier_snakeCase.trans h)

theorem rawMark_notMem_identifier (h : isIdentifier name = true) : '#' ∉ name.toList := fun hmem =>
  absurd (isIdentifierPart_of_mem h hmem) (by decide)

theorem rawMark_notMem_snakeCase (h : isIdentifier name = true) :
    '#' ∉ (RustNames.snakeCase name).toList := fun hmem =>
  absurd (isIdentifierPart_snakeCase h _ hmem) (by decide)

end Text

namespace RustNames

variable {name other id : String}

/-- Fields and modules have different identifiers if their names differ in snake case. -/
theorem eq_of_snakeName (h : isIdentifier name = true) (h' : isIdentifier other = true)
    (hname : identifier (snakeCase name) = .ok id)
    (hother : identifier (snakeCase other) = .ok id) : snakeCase name = snakeCase other :=
  eq_of_identifier (rawMark_notMem_snakeCase h) (rawMark_notMem_snakeCase h') hname hother

theorem withoutRawMark_fieldName (h : isIdentifier name = true) (hname : fieldName name = .ok id) :
    withoutRawMark id = snakeCase name := by
  obtain ⟨-, rfl⟩ := identifier_eq_ok.1 hname
  exact withoutRawMark_spelled (rawMark_notMem_snakeCase h)

end RustNames

end SchemaGraph
