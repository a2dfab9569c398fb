import SchemaGraph.Proofs.Drafts
import SchemaGraph.Proofs.Texts

/-!
The notation of types. A text spells a path or a container of paths, with white space allowed around
each path (`TypeSpelling`); the reader of compact notation accepts exactly these texts, and reads
what they spell. A text that spells an expression is cut by its mark, if it has one, into paths;
this refuses every text with a mark too many, with a mark or a dot where a name should be, or with
a path of three parts (`Malformed`).

What is displayed for an expression that was read, in compact notation or as the name of a container
with attributes, is a spelling of it, so it is read as the same expression, unless it is the name of
a container.
-/

namespace SchemaGraph

open Text

/-! ### Spellings of paths -/

/-- One or two identifiers with a dot between them. -/
inductive PathSpelling : List Char → TypePath → Prop
  | name {n : List Char} (hn : isIdentifierChars n = true) : PathSpelling n ⟨none, String.ofList n⟩
  | qualified {a n : List Char} (ha : isIdentifierChars a = true)
      (hn : isIdentifierChars n = true) :
      PathSpelling (a ++ '.' :: n) ⟨some (String.ofList a), String.ofList n⟩

/-- The spelling of a path with white space around it, if any. -/
def SpacedPath (s : List Char) (p : TypePath) : Prop :=
  ∃ l core r, Blank l ∧ Blank r ∧ PathSpelling core p ∧ s = l ++ core ++ r

section Paths

variable {s t n : List Char} {p : TypePath} {c : Char}

theorem dot_notMem_identifier (h : isIdentifierChars n = true) : '.' ∉ n := fun hmem =>
  absurd (isIdentifierPart_of_mem h hmem) (by decide)

theorem ne_nil_of_identifier (h : isIdentifierChars n = true) : n ≠ [] := by
  rintro rfl
  contradiction

namespace PathSpelling

theorem ne_nil (h : PathSpelling s p) : s ≠ [] := by
  cases h with
  | name hn => exact ne_nil_of_identifier hn
  | qualified => simp

theorem mem (h : PathSpelling s p) (hc : c ∈ s) : isIdentifierPart c = true ∨ c = '.' := by
  cases h with
  | name hn => exact .inl (isIdentifierPart_of_mem hn hc)
  | qualified ha hn =>
      rw [List.mem_append, List.mem_cons] at hc
      rcases hc with hc | hc | hc
      · exact .inl (isIdentifierPart_of_mem ha hc)
      · exact .inr hc
      · exact .inl (isIdentifierPart_of_mem hn hc)

theorem solid (h : PathSpelling s p) : Solid s := by
  intro c hc
  rcases h.mem hc with hpart | rfl
  · exact isBlank_of_isIdentifierPart hpart
  · decide

theorem toList_render (h : PathSpelling s p) : p.render.toList = s := by
  cases h with
  | name => simp [TypePath.render]
  | qualified => simp [TypePath.render, String.toList_append]

/-- Spellings of paths in terms of the pieces between the dots. -/
theorem iff_pieces :
    PathSpelling s p ↔
      (∃ n, pieces '.' s = [n] ∧ isIdentifierChars n = true ∧ ⟨none, String.ofList n⟩ = p) ∨
      ∃ a n, pieces '.' s = [a, n] ∧ (isIdentifierChars a = true ∧ isIdentifierChars n = true) ∧
        ⟨some (String.ofList a), String.ofList n⟩ = p := by
  have hjoined := joined_pieces '.' s
  constructor
  · intro h
    cases h with
    | name hn => exact .inl ⟨s, pieces_of_notMem (dot_notMem_identifier hn), hn, rfl⟩
    | @qualified a n ha hn =>
        refine .inr ⟨a, n, ?_, ⟨ha, hn⟩, rfl⟩
        rw [pieces_append_break, pieces_of_notMem (dot_notMem_identifier ha),
          pieces_of_notMem (dot_notMem_identifier hn)]
        rfl
  · rintro (⟨n, hpieces, hn, rfl⟩ | ⟨a, n, hpieces, ⟨ha, hn⟩, rfl⟩)
    · rw [hpieces] at hjoined
      obtain rfl : n = s := by simpa [joined] using hjoined
      exact .name hn
    · rw [hpieces] at hjoined
      obtain rfl : a ++ '.' :: n = s := by simpa [joined] using hjoined
      exact .qualified ha hn

end PathSpelling

/-- The reader of paths accepts exactly their spellings. -/
theorem TypePath.parseChars_eq_ok : parseChars s = .ok p ↔ SpacedPath s p := by
  have htrimmed : parseChars s = .ok p ↔ PathSpelling (trimChars s) p := by
    rw [PathSpelling.iff_pieces]
    simp only [parseChars]
    split
    · rename_i n hpieces
      by_cases hn : isIdentifierChars n = true <;> simp [hpieces, hn]
    · rename_i a n hpieces
      by_cases hn : isIdentifierChars a = true ∧ isIdentifierChars n = true <;>
        simp [hpieces, ← and_assoc, hn]
    · rename_i hone htwo
      refine iff_of_false (by simp) ?_
      rintro (⟨n, hpieces, -⟩ | ⟨a, n, hpieces, -⟩)
      · exact hone n hpieces
      · exact htwo a n hpieces
  rw [htrimmed]
  constructor
  · intro h
    obtain ⟨l, r, hl, hr, hs⟩ := trimChars_spec s
    exact ⟨l, _, r, hl, hr, h, hs⟩
  · rintro ⟨l, core, r, hl, hr, hcore, rfl⟩
    rwa [trimChars_padded hl hcore.solid hr hcore.ne_nil]

namespace SpacedPath

theorem ne_blank (h : SpacedPath s p) : ¬Blank s := by
  obtain ⟨l, core, r, -, -, hcore, rfl⟩ := h
  obtain ⟨c, cs, rfl⟩ := List.exists_cons_of_ne_nil hcore.ne_nil
  intro hblank
  have hc := hblank c (by simp)
  rw [hcore.solid c List.mem_cons_self] at hc
  contradiction

/-- What is displayed for a path has no white space. -/
theorem render (h : SpacedPath s p) : SpacedPath p.render.toList p ∧ Solid p.render.toList := by
  obtain ⟨l, core, r, -, -, hcore, -⟩ := h
  rw [hcore.toList_render]
  exact ⟨⟨[], core, [], nofun, nofun, hcore, by simp⟩, hcore.solid⟩

theorem mem (h : SpacedPath s p) (hc : c ∈ s) :
    isIdentifierPart c = true ∨ c = '.' ∨ isBlank c = true := by
  obtain ⟨l, core, r, hl, hr, hcore, rfl⟩ := h
  simp only [List.mem_append] at hc
  rcases hc with (hc | hc) | hc
  · exact .inr (.inr (hl c hc))
  · exact (hcore.mem hc).imp_right .inl
  · exact .inr (.inr (hr c hc))

end SpacedPath

end Paths

/-! ### Marks -/

/-- What marks a container of a shape in compact notation: it stands after the value, or between key
and value of a map. -/
def Shape.mark : Shape → List Char
  | .list => ['[', ']']
  | .set => ['\x7b', '\x7d']
  | .map => ['-', '>']
  | .optional => ['?']

def isMarkChar (c : Char) : Bool :=
  Shape.all.any fun shape => shape.mark.contains c

/-- A text without any part of a mark. -/
def Unmarked (s : List Char) : Prop :=
  ∀ c ∈ s, isMarkChar c = false

section Marks

variable {s t a b : List Char} {p : TypePath} {shape shape' : Shape}

theorem isMarkChar_of_mem {c : Char} (h : c ∈ shape.mark) : isMarkChar c = true :=
  List.any_eq_true.2 ⟨shape, by cases shape <;> decide, List.contains_iff_mem.2 h⟩

theorem mark_ne_nil (shape : Shape) : shape.mark ≠ [] := by
  cases shape <;> decide

theorem isMarkChar_cases {c : Char} (h : isMarkChar c = true) :
    isIdentifierPart c = false ∧ c ≠ '.' ∧ isBlank c = false := by
  have hall : (Shape.all.flatMap Shape.mark).all
      (fun c => !isIdentifierPart c && c != '.' && !isBlank c) = true := by decide
  obtain ⟨shape, hshape, hc⟩ := List.any_eq_true.1 h
  have hmem : c ∈ Shape.all.flatMap Shape.mark :=
    List.mem_flatMap.2 ⟨shape, hshape, List.contains_iff_mem.1 hc⟩
  simpa [and_assoc] using List.all_eq_true.1 hall c hmem

theorem SpacedPath.unmarked (h : SpacedPath s p) : Unmarked s := by
  intro c hc
  rw [Bool.eq_false_iff]
  intro hmark
  obtain ⟨hpart, hdot, hblank⟩ := isMarkChar_cases hmark
  rcases h.mem hc with h | h | h
  · rw [hpart] at h
    contradiction
  · exact hdot h
  · rw [hblank] at h
    contradiction

theorem filter_unmarked (h : Unmarked s) : s.filter isMarkChar = [] :=
  List.filter_eq_nil_iff.2 fun c hc => by rw [h c hc]; exact Bool.false_ne_true

theorem filter_mark (shape : Shape) : shape.mark.filter isMarkChar = shape.mark :=
  List.filter_eq_self.2 fun _ => isMarkChar_of_mem

theorem eq_of_mark_sublist (h : shape.mark.Sublist shape'.mark) : shape = shape' := by
  revert h
  cases shape <;> cases shape' <;> decide

/-- A text with one mark has no other. -/
theorem mark_unique (hs : Unmarked s) (ht : Unmarked t)
    (h : a ++ shape.mark ++ b = s ++ shape'.mark ++ t) : shape = shape' ∧ a = s ∧ b = t := by
  have hmarks := congrArg (List.filter isMarkChar) h
  simp only [List.filter_append, filter_unmarked hs, filter_unmarked ht, filter_mark,
    List.nil_append, List.append_nil] at hmarks
  have hsub : shape.mark.Sublist shape'.mark := by
    rw [← hmarks]
    exact (List.sublist_append_right _ _).trans (List.sublist_append_left _ _)
  obtain rfl := eq_of_mark_sublist hsub
  have hlength := congrArg List.length hmarks
  simp only [List.length_append] at hlength
  have ha : Unmarked a := by
    intro c hc
    have hnil : a.filter isMarkChar = [] := List.length_eq_zero_iff.1 (by omega)
    exact Bool.eq_false_iff.2 (List.filter_eq_nil_iff.1 hnil c hc)
  have hhead : ∀ x : List Char, ∀ c ∈ (shape.mark ++ x).head?, (!isMarkChar c) = false := by
    intro x c hc
    rw [List.head?_append_of_ne_nil _ (mark_ne_nil shape)] at hc
    rw [isMarkChar_of_mem (List.mem_of_mem_head? hc)]
    rfl
  rw [List.append_assoc, List.append_assoc] at h
  obtain ⟨rfl, hrest⟩ := word_append_inj (P := fun c => !isMarkChar c)
    (fun c hc => by rw [ha c hc]; rfl) (fun c hc => by rw [hs c hc]; rfl) (hhead b) (hhead t) h
  exact ⟨rfl, rfl, List.append_cancel_left hrest⟩

end Marks

/-! ### Spellings of expressions -/

/-- A path, or paths with the mark of a container. -/
inductive TypeSpelling : List Char → TypeExpr → Prop
  | named {s : List Char} {p : TypePath} (hp : SpacedPath s p) : TypeSpelling s (.named p)
  | marked {shape : Shape} {s : List Char} {v : TypePath} (hshape : shape ≠ .map)
      (hv : SpacedPath s v) : TypeSpelling (s ++ shape.mark) (.container shape none v)
  | map {s t : List Char} {k v : TypePath} (hk : SpacedPath s k) (hv : SpacedPath t v) :
      TypeSpelling (s ++ Shape.map.mark ++ t) (.container .map (some k) v)

namespace TypeSpelling

variable {s a b : List Char} {e : TypeExpr} {shape : Shape}

theorem ne_blank (h : TypeSpelling s e) : ¬Blank s := by
  cases h with
  | named hp => exact hp.ne_blank
  | marked _ hv => exact fun h => hv.ne_blank fun c hc => h c (by simp [hc])
  | map hk _ => exact fun h => hk.ne_blank fun c hc => h c (by simp [hc])

/-- In the spelling of an expression a mark stands after a path. What is after an arrow is a path
too; after another mark there is nothing. -/
theorem around_mark (h : TypeSpelling (a ++ shape.mark ++ b) e) :
    (∃ p, SpacedPath a p) ∧ (shape = .map → ∃ p, SpacedPath b p) ∧ (shape ≠ .map → b = []) := by
  generalize hs : a ++ shape.mark ++ b = s at h
  cases h with
  | named hp =>
      obtain ⟨c, cs, hmark⟩ := List.exists_cons_of_ne_nil (mark_ne_nil shape)
      have hmem : c ∈ shape.mark := by simp [hmark]
      have hc := hp.unmarked c (by simp [← hs, hmark])
      rw [isMarkChar_of_mem hmem] at hc
      contradiction
  | @marked shape' s v hshape hv =>
      rw [← List.append_nil (s ++ _)] at hs
      obtain ⟨rfl, rfl, rfl⟩ := mark_unique hv.unmarked (by simp [Unmarked]) hs
      exact ⟨⟨v, hv⟩, fun h => absurd h hshape, fun _ => rfl⟩
  | @map s t k v hk hv =>
      obtain ⟨rfl, rfl, rfl⟩ := mark_unique hk.unmarked hv.unmarked hs
      exact ⟨⟨k, hk⟩, fun _ => ⟨v, hv⟩, fun h => absurd rfl h⟩

end TypeSpelling

namespace TypeExpr

variable {s : List Char} {e : TypeExpr} {catalog : ContainerCatalog} {text : String}

/-- Without one of the marks that end a text, it is a path or has an arrow. -/
theorem parseCompact_of_getLast?
    (h : ∀ c ∈ s.getLast?, c ≠ ']' ∧ c ≠ '\x7d' ∧ c ≠ '?') :
    parseCompact s = match arrowPieces s with
      | [k, v] => do
        let key ← TypePath.parseChars k
        return .container .map (some key) (← TypePath.parseChars v)
      | _ :: _ :: _ => .error .manyArrows
      | _ => .named <$> TypePath.parseChars s := by
  rw [← List.head?_reverse] at h
  rw [parseCompact]
  split
  · rename_i hs
    rw [hs] at h
    exact absurd rfl (h _ rfl).1
  · rename_i hs
    rw [hs] at h
    exact absurd rfl (h _ rfl).2.1
  · rename_i hs
    rw [hs] at h
    exact absurd rfl (h _ rfl).2.2
  · rfl

theorem parseCompact_mark {shape : Shape} (h : shape ≠ .map) (s : List Char) :
    parseCompact (s ++ shape.mark) = .container shape none <$> TypePath.parseChars s := by
  cases shape with
  | map => contradiction
  | list => simp [parseCompact, Shape.mark]
  | set => simp [parseCompact, Shape.mark]
  | optional => simp [parseCompact, Shape.mark]

theorem arrow_notMem_unmarked (h : Unmarked s) : '-' ∉ s := fun hmem =>
  absurd (h '-' hmem) (by decide)

theorem parseCompact_spelled (h : TypeSpelling s e) : parseCompact s = .ok e := by
  have hlast : ∀ {t : List Char}, Unmarked t →
      ∀ c ∈ t.getLast?, c ≠ ']' ∧ c ≠ '\x7d' ∧ c ≠ '?' := by
    intro t ht c hc
    have hmark := ht c (List.mem_of_mem_getLast? hc)
    refine ⟨?_, ?_, ?_⟩ <;>
    · rintro rfl
      contradiction
  cases h with
  | named hp =>
      rw [parseCompact_of_getLast? (hlast hp.unmarked), arrowPieces,
        piecesAtPair_of_notMem (arrow_notMem_unmarked hp.unmarked)]
      exact map_eq_ok.2 ⟨_, TypePath.parseChars_eq_ok.2 hp, rfl⟩
  | marked hshape hv =>
      rw [parseCompact_mark hshape]
      exact map_eq_ok.2 ⟨_, TypePath.parseChars_eq_ok.2 hv, rfl⟩
  | @map s t k v hk hv =>
      have hne : t ≠ [] := by
        rintro rfl
        exact hv.ne_blank (by simp [Blank])
      have hend : (s ++ Shape.map.mark ++ t).getLast? = t.getLast? :=
        List.getLast?_append_of_ne_nil _ hne
      have harrow : s ++ Shape.map.mark ++ t = s ++ '-' :: '>' :: t := by simp [Shape.mark]
      rw [parseCompact_of_getLast? (by rw [hend]; exact hlast hv.unmarked), arrowPieces, harrow,
        piecesAtPair_append_pair (arrow_notMem_unmarked hk.unmarked),
        piecesAtPair_of_notMem (arrow_notMem_unmarked hv.unmarked)]
      exact bind_eq_ok.2 ⟨k, TypePath.parseChars_eq_ok.2 hk,
        bind_eq_ok.2 ⟨v, TypePath.parseChars_eq_ok.2 hv, rfl⟩⟩

theorem spelled_of_parseCompact (h : parseCompact s = .ok e) : TypeSpelling s e := by
  have hmarked : ∀ {shape : Shape} {r : List Char}, shape ≠ .map →
      s.reverse = shape.mark.reverse ++ r →
      TypeExpr.container shape none <$> TypePath.parseChars r.reverse = .ok e →
      TypeSpelling s e := by
    intro shape r hshape hs h
    obtain ⟨v, hv, rfl⟩ := map_eq_ok.1 h
    obtain rfl : s = r.reverse ++ shape.mark := by
      rw [← List.reverse_reverse s, hs, List.reverse_append, List.reverse_reverse]
    exact .marked hshape (TypePath.parseChars_eq_ok.1 hv)
  have hjoined := joined_piecesAtPair '-' '>' s
  rw [parseCompact] at h
  split at h
  · exact hmarked (by decide) ‹_› h
  · exact hmarked (by decide) ‹_› h
  · exact hmarked (by decide) ‹_› h
  · split at h
    · rename_i k v hpieces
      obtain ⟨key, hk, h⟩ := bind_eq_ok.1 h
      obtain ⟨value, hv, h⟩ := bind_eq_ok.1 h
      obtain rfl := pure_eq_ok.1 h
      obtain rfl : k ++ Shape.map.mark ++ v = s := by
        rw [← hjoined, ← arrowPieces, hpieces]
        simp [joined, Shape.mark]
      exact .map (TypePath.parseChars_eq_ok.1 hk) (TypePath.parseChars_eq_ok.1 hv)
    · contradiction
    · obtain ⟨p, hp, rfl⟩ := map_eq_ok.1 h
      exact .named (TypePath.parseChars_eq_ok.1 hp)

/-- The reader of compact notation accepts exactly the spellings of expressions. -/
theorem parseCompact_eq_ok : parseCompact s = .ok e ↔ TypeSpelling s e :=
  ⟨spelled_of_parseCompact, parseCompact_spelled⟩

theorem spelled_of_parseLong {shape : Shape} {key value : Option String}
    (h : parseLong shape key value = .ok e) : ∃ s, TypeSpelling s e := by
  rw [parseLong] at h
  split at h
  · obtain ⟨v, hv, h⟩ := bind_eq_ok.1 h
    have hvalue := TypePath.parseChars_eq_ok.1 hv
    cases hshape : shape.hasKey with
    | true =>
        obtain rfl : shape = .map := of_decide_eq_true hshape
        rw [hshape] at h
        simp only at h
        split at h
        · obtain ⟨k, hk, h⟩ := bind_eq_ok.1 h
          obtain rfl := pure_eq_ok.1 h
          exact ⟨_, .map (TypePath.parseChars_eq_ok.1 hk) hvalue⟩
        · contradiction
    | false =>
        rw [hshape] at h
        cases key with
        | none =>
            obtain rfl := pure_eq_ok.1 h
            exact ⟨_, .marked (of_decide_eq_false hshape) hvalue⟩
        | some _ => contradiction
  · contradiction

theorem shape?_eq_none_iff {name : String} : catalog.shape? name = none ↔ name ∉ catalog.names := by
  simp [ContainerCatalog.shape?, ContainerCatalog.names]

/-- A text that is not the name of a container is read as compact notation. -/
theorem parse_eq_ok_of_notMem (h : trim text ∉ catalog.names) :
    parse catalog text none none = .ok e ↔ TypeSpelling (trim text).toList e := by
  have hshape : catalog.shape? (String.ofList (trimChars text.toList)) = none :=
    shape?_eq_none_iff.2 h
  rw [trim, String.toList_ofList, ← parseCompact_eq_ok, parse]
  split
  · rename_i hempty
    have hcompact : ∃ problem, parseCompact [] = .error problem := ⟨_, rfl⟩
    obtain ⟨problem, hcompact⟩ := hcompact
    rw [hempty, hcompact]
    simp
  · rw [hshape]
    rfl

/-- The name of a container alone is no type. -/
theorem parse_eq_error_of_mem (h : trim text ∈ catalog.names) :
    parse catalog text none none = .error (if trim text = "" then .empty else .missingValue) := by
  rw [parse]
  split
  · rename_i hempty
    rw [trim, hempty]
    rfl
  · rename_i hne
    have hne : trim text ≠ "" := fun hempty => hne (by simpa [trim] using hempty)
    rw [if_neg hne]
    cases hshape : catalog.shape? (String.ofList (trimChars text.toList)) with
    | none => exact absurd h (shape?_eq_none_iff.1 hshape)
    | some shape => rfl

/-- Every expression that is read has a spelling, also if its key and value are given apart. -/
theorem spelled_of_parse {key value : Option String} (h : parse catalog text key value = .ok e) :
    ∃ s, TypeSpelling s e := by
  rw [parse] at h
  split at h
  · cases h
  · split at h
    · exact spelled_of_parseLong h
    · split at h
      · cases h
      · exact ⟨_, spelled_of_parseCompact h⟩

end TypeExpr

/-! ### Texts that spell nothing -/

/-- The ways in which a text fails to spell an expression: a second mark; nothing in the place of a
path; a dot without a name on one of its sides; a path of three parts or more. -/
inductive Malformed : List Char → Prop
  | twoMarks (a b c : List Char) (m m' : Shape) : Malformed (a ++ m.mark ++ (b ++ m'.mark ++ c))
  | noPathBefore {a : List Char} (ha : Blank a) (m : Shape) (b : List Char) :
      Malformed (a ++ m.mark ++ b)
  | noPathAfter {b : List Char} (hb : Blank b) (a : List Char) :
      Malformed (a ++ Shape.map.mark ++ b)
  | emptySegment {a b : List Char}
      (h : (∀ c ∈ a.getLast?, isIdentifierPart c = false) ∨
        ∀ c ∈ b.head?, isIdentifierPart c = false) : Malformed (a ++ '.' :: b)
  | threeParts {b : List Char} (hb : ¬Shape.map.mark <:+: b) (a c : List Char) :
      Malformed (a ++ '.' :: (b ++ '.' :: c))

/-- Each dot of a text stands between two parts of names. -/
def JoinedByDots (s : List Char) : Prop :=
  ∀ a b, s = a ++ '.' :: b →
    (∃ c ∈ a.getLast?, isIdentifierPart c = true) ∧ ∃ c ∈ b.head?, isIdentifierPart c = true

section Dots

variable {s t a b : List Char} {p : TypePath}

/-- A dot of a text in two parts is in one of them. -/
theorem dot_of_append (h : s ++ t = a ++ '.' :: b) :
    (∃ b', s = a ++ '.' :: b' ∧ b = b' ++ t) ∨ ∃ a', a = s ++ a' ∧ t = a' ++ '.' :: b := by
  obtain ⟨a', ha, ht⟩ | ⟨x, hs, hx⟩ := List.append_eq_append_iff.1 h
  · exact .inr ⟨a', ha, ht⟩
  · cases x with
    | nil => exact .inr ⟨[], by simpa using hs.symm, by simpa using hx.symm⟩
    | cons c cs =>
        obtain ⟨rfl, rfl⟩ := List.cons.inj hx
        exact .inl ⟨cs, hs, rfl⟩

theorem JoinedByDots.of_notMem (h : '.' ∉ s) : JoinedByDots s := by
  rintro a b rfl
  exact absurd (by simp) h

theorem JoinedByDots.append (hs : JoinedByDots s) (ht : JoinedByDots t) :
    JoinedByDots (s ++ t) := by
  intro a b h
  rcases dot_of_append h with ⟨b', hs', rfl⟩ | ⟨a', rfl, ht'⟩
  · obtain ⟨hlast, c, hc, hpart⟩ := hs a b' hs'
    exact ⟨hlast, c, by simp_all, hpart⟩
  · obtain ⟨⟨c, hc, hpart⟩, hhead⟩ := ht a' b ht'
    exact ⟨⟨c, by simp_all, hpart⟩, hhead⟩

theorem dot_notMem_blank (h : Blank s) : '.' ∉ s := fun hmem => absurd (h '.' hmem) (by decide)

theorem dot_notMem_mark (shape : Shape) : '.' ∉ shape.mark := by
  cases shape <;> decide

theorem dot_of_mark_append {shape : Shape} (h : shape.mark ++ t = a ++ '.' :: b) :
    ∃ a', a = shape.mark ++ a' ∧ t = a' ++ '.' :: b := by
  rcases dot_of_append h with ⟨b', hmark, -⟩ | h
  · exact absurd (by simp [hmark]) (dot_notMem_mark shape)
  · exact h

theorem ends_of_identifier {n : List Char} (h : isIdentifierChars n = true) :
    (∃ c ∈ n.getLast?, isIdentifierPart c = true) ∧ ∃ c ∈ n.head?, isIdentifierPart c = true := by
  have hne := ne_nil_of_identifier h
  exact ⟨⟨n.getLast hne, List.getLast?_eq_some_getLast hne,
      isIdentifierPart_of_mem h (List.getLast_mem hne)⟩,
    n.head hne, List.head?_eq_some_head hne, isIdentifierPart_of_mem h (List.head_mem hne)⟩

theorem joinedByDots_pair {n : List Char} (ha : isIdentifierChars a = true)
    (hn : isIdentifierChars n = true) : JoinedByDots (a ++ '.' :: n) := by
  intro x y h
  rcases dot_of_append h with ⟨b', rfl, -⟩ | ⟨a', rfl, hy⟩
  · exact absurd (by simp) (dot_notMem_identifier ha)
  · cases a' with
    | nil =>
        obtain rfl : n = y := by simpa using hy
        rw [List.append_nil]
        exact ⟨(ends_of_identifier ha).1, (ends_of_identifier hn).2⟩
    | cons c cs =>
        obtain ⟨rfl, rfl⟩ := List.cons.inj hy
        exact absurd (by simp) (dot_notMem_identifier hn)

namespace SpacedPath

theorem joinedByDots (h : SpacedPath s p) : JoinedByDots s := by
  obtain ⟨l, core, r, hl, hr, hcore, rfl⟩ := h
  have hcore : JoinedByDots core := by
    cases hcore with
    | name hn => exact .of_notMem (dot_notMem_identifier hn)
    | qualified ha hn => exact joinedByDots_pair ha hn
  exact ((JoinedByDots.of_notMem (dot_notMem_blank hl)).append hcore).append
    (.of_notMem (dot_notMem_blank hr))

theorem count_dot_le (h : SpacedPath s p) : s.count '.' ≤ 1 := by
  obtain ⟨l, core, r, hl, hr, hcore, rfl⟩ := h
  rw [List.count_append, List.count_append, List.count_eq_zero.2 (dot_notMem_blank hl),
    List.count_eq_zero.2 (dot_notMem_blank hr), Nat.zero_add, Nat.add_zero]
  cases hcore with
  | name hn => simp [List.count_eq_zero.2 (dot_notMem_identifier hn)]
  | qualified ha hn =>
      simp [List.count_eq_zero.2 (dot_notMem_identifier ha),
        List.count_eq_zero.2 (dot_notMem_identifier hn)]

end SpacedPath

end Dots

namespace TypeSpelling

variable {s a b c : List Char} {e : TypeExpr}

theorem joinedByDots (h : TypeSpelling s e) : JoinedByDots s := by
  cases h with
  | named hp => exact hp.joinedByDots
  | marked _ hv => exact hv.joinedByDots.append (.of_notMem (dot_notMem_mark _))
  | map hk hv =>
      exact (hk.joinedByDots.append (.of_notMem (dot_notMem_mark _))).append hv.joinedByDots

/-- Between two dots of a spelling there is an arrow. -/
theorem arrow_between (h : TypeSpelling (a ++ '.' :: (b ++ '.' :: c)) e) :
    Shape.map.mark <:+: b := by
  have htwo : ∀ {a b c : List Char}, ¬(a ++ '.' :: (b ++ '.' :: c)).count '.' ≤ 1 := by
    intro a b c
    simp only [List.count_append, List.count_cons_self]
    omega
  generalize hs : a ++ '.' :: (b ++ '.' :: c) = s at h
  cases h with
  | named hp =>
      subst hs
      exact absurd hp.count_dot_le htwo
  | @marked shape s _ _ hv =>
      have hcount : (a ++ '.' :: (b ++ '.' :: c)).count '.' ≤ 1 := by
        rw [hs, List.count_append, List.count_eq_zero.2 (dot_notMem_mark shape), Nat.add_zero]
        exact hv.count_dot_le
      exact absurd hcount htwo
  | @map s t _ _ hk hv =>
      rw [List.append_assoc] at hs
      -- A path has one dot at most, so the first dot is in the key and the second in the value.
      rcases dot_of_append hs.symm with ⟨rest, rfl, hrest⟩ | ⟨a', -, ht⟩
      · rcases dot_of_append hrest.symm with ⟨rest', rfl, -⟩ | ⟨b', rfl, ht⟩
        · exact absurd hk.count_dot_le htwo
        · obtain ⟨b', rfl, -⟩ := dot_of_mark_append ht
          exact ⟨rest, b', List.append_assoc ..⟩
      · obtain ⟨a'', -, rfl⟩ := dot_of_mark_append ht
        exact absurd hv.count_dot_le htwo

end TypeSpelling

/-- A text that is malformed in one of these ways spells no expression. -/
theorem Malformed.not_spelled {s : List Char} (h : Malformed s) (e : TypeExpr) :
    ¬TypeSpelling s e := by
  intro hspelled
  cases h with
  | twoMarks a b c m m' =>
      obtain ⟨-, hmap, hother⟩ := hspelled.around_mark
      by_cases hm : m = .map
      · obtain ⟨p, hp⟩ := hmap hm
        obtain ⟨c, cs, hmark⟩ := List.exists_cons_of_ne_nil (mark_ne_nil m')
        have hmem : c ∈ m'.mark := by simp [hmark]
        have hc := hp.unmarked c (by simp [hmem])
        rw [isMarkChar_of_mem hmem] at hc
        contradiction
      · simpa [mark_ne_nil] using hother hm
  | noPathBefore ha m b =>
      obtain ⟨⟨p, hp⟩, -⟩ := hspelled.around_mark
      exact hp.ne_blank ha
  | noPathAfter hb a =>
      obtain ⟨-, hmap, -⟩ := hspelled.around_mark
      obtain ⟨p, hp⟩ := hmap rfl
      exact hp.ne_blank hb
  | @emptySegment a b h =>
      obtain ⟨⟨c, hc, hpart⟩, d, hd, hpart'⟩ := hspelled.joinedByDots a b rfl
      rcases h with h | h
      · rw [h c hc] at hpart
        contradiction
      · rw [h d hd] at hpart'
        contradiction
  | threeParts hb a c => exact hb hspelled.arrow_between

/-- A text that is not the name of a container is read if and only if, once trimmed, it spells an
expression, and then as that expression. A malformed text is always refused. -/
theorem compact_notation_exact (catalog : ContainerCatalog) (text : String) :
    (trim text ∉ catalog.names →
      ∀ e, TypeExpr.parse catalog text none none = .ok e ↔ TypeSpelling (trim text).toList e) ∧
    (Malformed (trim text).toList →
      ∃ problem, TypeExpr.parse catalog text none none = .error problem) := by
  refine ⟨fun h _ => TypeExpr.parse_eq_ok_of_notMem h, fun hmalformed => ?_⟩
  by_cases h : trim text ∈ catalog.names
  · exact ⟨_, TypeExpr.parse_eq_error_of_mem h⟩
  · cases hparse : TypeExpr.parse catalog text none none with
    | error problem => exact ⟨problem, rfl⟩
    | ok e => exact absurd ((TypeExpr.parse_eq_ok_of_notMem h).1 hparse) (hmalformed.not_spelled e)

theorem compact_notation_optional :
    TypeSpelling "Geo.Country ?".toList (.container .optional none ⟨some "Geo", "Country"⟩) ∧
    TypeExpr.parse {} " Geo.Country ? " none none =
      .ok (.container .optional none ⟨some "Geo", "Country"⟩) ∧
    Malformed "int32[][]".toList ∧
    ∃ problem, TypeExpr.parse {} "int32[][]" none none = .error problem := by
  have hpath : SpacedPath "Geo.Country ".toList ⟨some "Geo", "Country"⟩ :=
    ⟨[], "Geo.Country".toList, [' '], by simp [Blank], by simp [Blank, isBlank, blankPoints],
      .qualified (a := "Geo".toList) (n := "Country".toList) (by decide) (by decide), rfl⟩
  have hspelled := TypeSpelling.marked (by decide : Shape.optional ≠ .map) hpath
  have hmalformed : Malformed "int32[][]".toList := .twoMarks "int32".toList [] [] .list .list
  exact ⟨hspelled, ((compact_notation_exact {} " Geo.Country ? ").1 (by decide) _).2 hspelled,
    hmalformed, (compact_notation_exact {} "int32[][]").2 hmalformed⟩

/-! ### Displayed expressions -/

namespace TypeSpelling

variable {s : List Char} {e : TypeExpr}

theorem solid_mark (shape : Shape) : Solid shape.mark := fun _ hc =>
  (isMarkChar_cases (isMarkChar_of_mem hc)).2.2

theorem toList_render_marked {shape : Shape} (h : shape ≠ .map) (key : Option TypePath)
    (v : TypePath) :
    (TypeExpr.container shape key v).render.toList = v.render.toList ++ shape.mark := by
  cases shape with
  | map => contradiction
  | list => exact String.toList_append
  | set => exact String.toList_append
  | optional => exact String.toList_append

theorem toList_render_map (k v : TypePath) :
    (TypeExpr.container .map (some k) v).render.toList =
      k.render.toList ++ Shape.map.mark ++ v.render.toList := by
  rw [TypeExpr.render, String.toList_append, String.toList_append]
  rfl

/-- What is displayed for an expression with a spelling is a spelling too, without white space. -/
theorem render (h : TypeSpelling s e) :
    TypeSpelling e.render.toList e ∧ Solid e.render.toList := by
  cases h with
  | named hp => exact ⟨.named hp.render.1, hp.render.2⟩
  | marked hshape hv =>
      rw [toList_render_marked hshape]
      exact ⟨.marked hshape hv.render.1, hv.render.2.append (solid_mark _)⟩
  | map hk hv =>
      rw [toList_render_map]
      exact ⟨.map hk.render.1 hv.render.1, (hk.render.2.append (solid_mark _)).append hv.render.2⟩

end TypeSpelling

/-- The displayed text of an expression that was read is read as the same expression, so that it is
displayed the same way again; unless it is the name of a container, which needs a value. -/
theorem displayed_reads_back {catalog : ContainerCatalog} {text : String}
    {key value : Option String} {e : TypeExpr}
    (h : TypeExpr.parse catalog text key value = .ok e) :
    (e.render ∉ catalog.names →
      TypeExpr.parse catalog e.render none none = .ok e ∧
      (TypeExpr.parse catalog e.render none none).map TypeExpr.render = .ok e.render) ∧
    (e.render ∈ catalog.names →
      TypeExpr.parse catalog e.render none none = .error .missingValue) := by
  obtain ⟨s, hs⟩ := TypeExpr.spelled_of_parse h
  obtain ⟨hspelled, hsolid⟩ := hs.render
  have htrim : trim e.render = e.render := by
    rw [trim, trimChars_eq_self hsolid, String.ofList_toList]
  refine ⟨fun hnames => ?_, fun hnames => ?_⟩
  · have hparse : TypeExpr.parse catalog e.render none none = .ok e := by
      rw [TypeExpr.parse_eq_ok_of_notMem (htrim.symm ▸ hnames), htrim]
      exact hspelled
    exact ⟨hparse, by rw [hparse]; rfl⟩
  · have hne : e.render ≠ "" := by
      intro hempty
      rw [hempty] at hspelled
      exact hspelled.ne_blank (by simp [Blank])
    rw [TypeExpr.parse_eq_error_of_mem (htrim.symm ▸ hnames), htrim, if_neg hne]

theorem displayed_reads_back_long_form :
    TypeExpr.parse {} "Map" (some " string ") (some "Geo.City") =
      .ok (.container .map (some ⟨none, "string"⟩) ⟨some "Geo", "City"⟩) ∧
    TypeExpr.parse {} "string->Geo.City" none none =
      .ok (.container .map (some ⟨none, "string"⟩) ⟨some "Geo", "City"⟩) := by
  have hlong : TypeExpr.parse {} "Map" (some " string ") (some "Geo.City") =
      .ok (.container .map (some ⟨none, "string"⟩) ⟨some "Geo", "City"⟩) := by rfl
  exact ⟨hlong, ((displayed_reads_back hlong).1 (by decide)).1⟩

end SchemaGraph
