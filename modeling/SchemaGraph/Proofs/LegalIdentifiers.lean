import SchemaGraph.Proofs.TypePaths

/-!
Legal Rust identifiers. An identifier of the schema language becomes a legal one wherever it becomes
any. The namespace of a custom primitive comes from a setup, which does not look at it: its parts can
be any texts, and those that are no identifiers are spelled like themselves.
-/

namespace SchemaGraph

open RustNames RustSource

/-! ### Identifiers -/

/-- The words that Rust keeps for itself, strict keywords first and reserved ones after them. -/
def rustKeywords : List String :=
  ["as", "async", "await", "break", "const", "continue", "crate", "dyn", "else", "enum", "extern",
    "false", "fn", "for", "if", "impl", "in", "let", "loop", "match", "mod", "move", "mut", "pub",
    "ref", "return", "self", "Self", "static", "struct", "super", "trait", "true", "type", "unsafe",
    "use", "where", "while", "abstract", "become", "box", "do", "final", "gen", "macro", "override",
    "priv", "try", "typeof", "unsized", "virtual", "yield"]

/-- The keywords that have no raw form. -/
def pathKeywords : List String :=
  ["self", "Self", "super", "crate"]

/-- The text is the raw form of a keyword. -/
def IsRawKeyword (text : String) : Prop :=
  ∃ word ∈ rustKeywords, word ∉ pathKeywords ∧ text = "r#" ++ word

/-- A word of letters, digits and underscores that is no keyword, or the raw form of one. -/
def LegalIdentifier (text : String) : Prop :=
  (Text.isIdentifier text = true ∧ text ≠ "_" ∧ text ∉ rustKeywords) ∨ IsRawKeyword text

instance : DecidablePred IsRawKeyword := fun text =>
  inferInstanceAs (Decidable (∃ word ∈ rustKeywords, word ∉ pathKeywords ∧ text = "r#" ++ word))

instance : DecidablePred LegalIdentifier := fun text =>
  inferInstanceAs (Decidable (_ ∨ IsRawKeyword text))

section Identifiers

variable {name id : String}

theorem legal_spelled (hname : Text.isIdentifier name = true) (h : name ∉ forbidden) :
    LegalIdentifier (spelled name) := by
  have hraw : ∀ word ∈ keywords, word ∈ rustKeywords ∧ word ∉ pathKeywords := by decide +kernel
  have hkept : ∀ word ∈ rustKeywords, word ∈ keywords ∨ word ∈ forbidden := by decide +kernel
  rw [spelled]
  split
  · rename_i hkeyword
    exact .inr ⟨name, (hraw name hkeyword).1, (hraw name hkeyword).2, rfl⟩
  · rename_i hplain
    refine .inl ⟨hname, ?_, fun hmem => (hkept name hmem).elim hplain h⟩
    rintro rfl
    exact h (by decide)

/-- What identifiers of the schema language become is legal. -/
theorem legal_identifier (hname : Text.isIdentifier name = true) (h : identifier name = .ok id) :
    LegalIdentifier id := by
  obtain ⟨hforbidden, rfl⟩ := identifier_eq_ok.1 h
  exact legal_spelled hname hforbidden

theorem legal_fieldName (hname : Text.isIdentifier name = true) (h : fieldName name = .ok id) :
    LegalIdentifier id :=
  legal_identifier (Text.isIdentifier_snakeCase.trans hname) h

theorem keyword_ne_raw {word : String} (h : name ∈ keywords) : name ≠ "r#" ++ word := by
  rintro rfl
  exact absurd (isLower_of_mem_keywords h '#' (by simp)) (by decide)

/-- A text that is spelled in snake case becomes legal just if it is an identifier, or if it is raw
already. -/
theorem legal_spelled_snakeCase_iff (h : snakeCase name ∉ forbidden) :
    LegalIdentifier (spelled (snakeCase name)) ↔
      Text.isIdentifier name = true ∨ IsRawKeyword (snakeCase name) := by
  rw [← Text.isIdentifier_snakeCase]
  constructor
  · have hkeyword : ∀ k ∈ keywords, Text.isIdentifier k = true := by decide +kernel
    rw [spelled]
    split
    · rename_i hmem
      exact fun _ => .inl (hkeyword _ hmem)
    · exact Or.imp_left And.left
  · rintro (hname | hraw)
    · exact legal_spelled hname h
    · obtain ⟨word, -, -, heq⟩ := id hraw
      rw [spelled, if_neg fun hmem => keyword_ne_raw hmem heq]
      exact .inr hraw

/-! ### Made names -/

theorem isIdentifier_append {suffix : String} (hname : Text.isIdentifier name = true)
    (hsuffix : ∀ c ∈ suffix.toList, Text.isIdentifierPart c = true) :
    Text.isIdentifier (name ++ suffix) = true := by
  rw [Text.isIdentifier, String.toList_append] at *
  cases hchars : name.toList with
  | nil => simp [hchars, Text.isIdentifierChars] at hname
  | cons c cs =>
      rw [hchars, Text.isIdentifierChars, Bool.and_eq_true] at hname
      rw [List.cons_append, Text.isIdentifierChars, List.all_append, hname.1, hname.2,
        List.all_eq_true.2 hsuffix]
      rfl

/-- A name that is not in lower case after its first character is legal as it is. -/
theorem legal_of_mem_tail {c : Char} (hname : Text.isIdentifier name = true)
    (hc : c ∈ name.toList.tail) (hlower : ¬c.isLower = true) : LegalIdentifier name := by
  have hword : name ∉ keywords ++ forbidden := fun hmem =>
    hlower (isLower_of_mem_tail hmem c hc)
  have hplain : name ∉ keywords := fun hmem => hword (List.mem_append_left _ hmem)
  have hlegal := legal_spelled hname fun hmem => hword (List.mem_append_right _ hmem)
  rwa [spelled, if_neg hplain] at hlegal

theorem legal_append {suffix : String} {c : Char} (hname : Text.isIdentifier name = true)
    (hparts : ∀ c ∈ suffix.toList, Text.isIdentifierPart c = true) (hc : c ∈ suffix.toList)
    (hlower : ¬c.isLower = true) : LegalIdentifier (name ++ suffix) := by
  refine legal_of_mem_tail (isIdentifier_append hname hparts) ?_ hlower
  rw [String.toList_append]
  cases hchars : name.toList with
  | nil => simp [Text.isIdentifier, hchars, Text.isIdentifierChars] at hname
  | cons d ds => exact List.mem_append_right ds hc

theorem legal_keyAlias (hname : Text.isIdentifier name = true) : LegalIdentifier (keyAlias name) :=
  legal_append (c := 'K') hname (List.all_eq_true.1 (by decide)) (by decide) (by decide)

theorem legal_registryName (hname : Text.isIdentifier name = true) :
    LegalIdentifier (registryName name) :=
  legal_append (c := 'R') hname (List.all_eq_true.1 (by decide)) (by decide) (by decide)

theorem legal_inserterName (hname : Text.isIdentifier name = true)
    (h : fieldName name = .ok id) : LegalIdentifier (RustItem.inserterName id) := by
  rw [RustItem.inserterName, withoutRawMark_fieldName hname h]
  refine legal_of_mem_tail (c := '_') (isIdentifier_append (by decide) ?_) ?_ (by decide)
  · exact Text.isIdentifierPart_snakeCase hname
  · simp [String.toList_append]

end Identifiers

/-! ### Paths -/

/-- All parts of a path are legal, but for `super` at its beginning. -/
def LegalPath (path : RustPath) : Prop :=
  ∀ id ∈ (if path.head? = some "super" then path.tail else path), LegalIdentifier id

instance : DecidablePred LegalPath := fun path =>
  inferInstanceAs
    (Decidable (∀ id ∈ (if path.head? = some "super" then path.tail else path), LegalIdentifier id))

section Paths

variable {path : RustPath}

theorem legalPath_iff (h : "super" ∉ path) : LegalPath path ↔ ∀ id ∈ path, LegalIdentifier id := by
  rw [LegalPath, if_neg fun hhead : path.head? = some "super" => h (List.mem_of_mem_head? hhead)]

theorem legalPath_singleton {id : String} (h : LegalIdentifier id) : LegalPath [id] := by
  rw [LegalPath]
  split
  · simp
  · simpa using h

/-- The parts of the namespace become legal modules: they are identifiers, or raw already. -/
def LegalNamespace (ns : String) : Prop :=
  ∀ n ∈ namespaceNames ns, Text.isIdentifier n = true ∨ IsRawKeyword (snakeCase n)

theorem legalNamespace_of_isNamespace {ns : String} (h : Text.isNamespace ns = true) :
    LegalNamespace ns := by
  rw [LegalNamespace, namespaceNames]
  split
  · simp
  · rename_i hne
    rw [Text.isNamespace, Bool.or_eq_true, or_iff_right hne, List.all_eq_true] at h
    rw [Text.segments, List.forall_mem_map]
    intro piece hpiece
    rw [Text.isIdentifier, String.toList_ofList]
    exact .inl (h piece hpiece)

/-- The path of a custom primitive is legal just if its name and its namespace are. -/
theorem legalPath_customPath_iff {p : Primitive} (h : customPath p = .ok path) :
    LegalPath path ↔ LegalIdentifier (spelled p.name) ∧ LegalNamespace p.namespace := by
  obtain ⟨rfl, hname, hmodules⟩ := customPath_eq_ok.1 h
  have hsuper : "super" ∉ namespaceModules p.namespace ++ [spelled p.name] := by
    rw [List.mem_append, List.mem_singleton, not_or]
    exact ⟨super_notMem_namespaceModules hmodules, (spelled_ne_super hname).symm⟩
  rw [legalPath_iff hsuper, List.forall_mem_append, List.forall_mem_singleton, and_comm,
    namespaceModules_eq, List.forall_mem_map]
  refine and_congr_right fun _ => forall₂_congr fun n hn => ?_
  exact legal_spelled_snakeCase_iff (hmodules n hn)

theorem legalPath_scalar {k : PrimitiveKind} {text : String} (h : k.scalar? = some text) :
    LegalPath [text] := by
  cases k <;> cases h <;> decide

end Paths

end SchemaGraph
