import SchemaGraph.Text.Blank
import SchemaGraph.Text.Identifier
import Mathlib.Data.List.TakeWhile

/-!
Texts that are cut at a separator or freed of the white space at their ends. The pieces of a text
with the separator between them are the text again; a text that does not have the separator is one
piece.
-/

namespace SchemaGraph.Text

variable {sep a b c : Char} {s t : List Char}

/-! ### Pieces -/

theorem pieces_append_break (sep : Char) (a b : List Char) :
    pieces sep (a ++ sep :: b) = pieces sep a ++ pieces sep b := by
  induction a with
  | nil => simp [pieces]
  | cons c cs ih =>
      by_cases hc : c = sep
      · simp [pieces, hc, ih]
      · rw [List.cons_append, pieces, pieces, if_neg hc, if_neg hc, ih]
        obtain ⟨p, ps, hcs⟩ := List.exists_cons_of_ne_nil (pieces_ne_nil sep cs)
        rw [hcs]
        rfl

theorem pieces_append {a b p : List Char} {ps : List (List Char)} (ha : sep ∉ a)
    (hb : pieces sep b = p :: ps) : pieces sep (a ++ b) = (a ++ p) :: ps := by
  induction a with
  | nil => exact hb
  | cons c cs ih =>
      rw [List.mem_cons, not_or] at ha
      rw [List.cons_append, pieces, if_neg (Ne.symm ha.1), ih ha.2]
      rfl

theorem pieces_of_notMem (h : sep ∉ s) : pieces sep s = [s] := by
  simpa using pieces_append (b := []) h rfl

theorem mem_pieces (hc : c ∈ s) (hne : c ≠ sep) : ∃ p ∈ pieces sep s, c ∈ p := by
  induction s with
  | nil => contradiction
  | cons d ds ih =>
      obtain ⟨p, ps, hds⟩ := List.exists_cons_of_ne_nil (pieces_ne_nil sep ds)
      rw [pieces]
      split
      · rename_i hd
        have hmem : c ∈ ds := (List.mem_cons.1 hc).resolve_left fun h => hne (h.trans hd)
        obtain ⟨q, hq, hcq⟩ := ih hmem
        exact ⟨q, List.mem_cons_of_mem _ hq, hcq⟩
      · rw [hds] at ih ⊢
        rcases List.mem_cons.1 hc with rfl | hc
        · exact ⟨c :: p, by simp [consPiece], by simp⟩
        · obtain ⟨q, hq, hcq⟩ := ih hc
          rcases List.mem_cons.1 hq with rfl | hq
          · exact ⟨d :: q, by simp [consPiece], by simp [hcq]⟩
          · exact ⟨q, by simp [consPiece, hq], hcq⟩

theorem sep_notMem_of_mem_pieces {p : List Char} (h : p ∈ pieces sep s) : sep ∉ p := by
  induction s generalizing p with
  | nil => simp_all [pieces]
  | cons c cs ih =>
      obtain ⟨q, qs, hcs⟩ := List.exists_cons_of_ne_nil (pieces_ne_nil sep cs)
      rw [hcs] at ih
      rw [pieces] at h
      split at h
      · rw [hcs] at h
        rcases List.mem_cons.1 h with rfl | h
        · simp
        · exact ih h
      · rename_i hc
        rw [hcs] at h
        rcases List.mem_cons.1 h with rfl | h
        · exact List.not_mem_cons_of_ne_of_not_mem (Ne.symm hc) (ih (List.mem_cons_self ..))
        · exact ih (List.mem_cons_of_mem q h)

/-- The text of pieces with a separator between them. -/
abbrev joined (sep : List Char) (ps : List (List Char)) : List Char :=
  sep.intercalate ps

theorem joined_consPiece (sep : List Char) (c : Char) {ps : List (List Char)} (h : ps ≠ []) :
    joined sep (consPiece c ps) = c :: joined sep ps := by
  obtain ⟨p, ps, rfl⟩ := List.exists_cons_of_ne_nil h
  cases ps <;> simp [consPiece, joined, List.intercalate_cons_cons]

theorem joined_nil_cons (sep : List Char) {ps : List (List Char)} (h : ps ≠ []) :
    joined sep ([] :: ps) = sep ++ joined sep ps := by
  obtain ⟨p, ps, rfl⟩ := List.exists_cons_of_ne_nil h
  simp [joined, List.intercalate_cons_cons]

theorem joined_pieces (sep : Char) (s : List Char) : joined [sep] (pieces sep s) = s := by
  induction s with
  | nil => rfl
  | cons c cs ih =>
      rw [pieces]
      split
      · rename_i hc
        rw [joined_nil_cons _ (pieces_ne_nil sep cs), ih, hc]
        rfl
      · rw [joined_consPiece _ _ (pieces_ne_nil sep cs), ih]

/-! ### Pieces at a pair of characters -/

theorem consPiece_ne_nil (c : Char) (ps : List (List Char)) : consPiece c ps ≠ [] := by
  cases ps <;> simp [consPiece]

theorem piecesAtPair_ne_nil (a b : Char) (s : List Char) : piecesAtPair a b s ≠ [] := by
  fun_cases piecesAtPair a b s <;> simp [consPiece_ne_nil]

theorem joined_piecesAtPair (a b : Char) (s : List Char) :
    joined [a, b] (piecesAtPair a b s) = s := by
  fun_induction piecesAtPair a b s with
  | case1 => rfl
  | case2 c => simp [joined]
  | case3 c d cs h ih =>
      rw [joined_nil_cons _ (piecesAtPair_ne_nil a b cs), ih, h.1, h.2]
      rfl
  | case4 c d cs _ ih => rw [joined_consPiece _ _ (piecesAtPair_ne_nil a b _), ih]

theorem piecesAtPair_cons (h : c ≠ a) (s : List Char) :
    piecesAtPair a b (c :: s) = consPiece c (piecesAtPair a b s) := by
  cases s with
  | nil => rfl
  | cons d ds => rw [piecesAtPair, if_neg fun hpair => h hpair.1]

theorem piecesAtPair_append_pair (h : a ∉ s) (t : List Char) :
    piecesAtPair a b (s ++ a :: b :: t) = s :: piecesAtPair a b t := by
  induction s with
  | nil => rw [List.nil_append, piecesAtPair, if_pos ⟨rfl, rfl⟩]
  | cons c cs ih =>
      rw [List.mem_cons, not_or] at h
      rw [List.cons_append, piecesAtPair_cons (Ne.symm h.1), ih h.2]
      rfl

theorem piecesAtPair_of_notMem (h : a ∉ s) : piecesAtPair a b s = [s] := by
  induction s with
  | nil => rfl
  | cons c cs ih =>
      rw [List.mem_cons, not_or] at h
      rw [piecesAtPair_cons (Ne.symm h.1), ih h.2]
      rfl

/-! ### Words -/

/-- A word can be read off from a text that goes on with something else. -/
theorem takeWhile_word {P : Char → Bool} {word rest : List Char} (hword : ∀ c ∈ word, P c = true)
    (hrest : ∀ c ∈ rest.head?, P c = false) : (word ++ rest).takeWhile P = word := by
  rw [List.takeWhile_append_of_pos hword]
  cases rest with
  | nil => simp
  | cons c cs => simp [hrest c rfl]

/-- What follows a word is what it goes on with. -/
theorem dropWhile_word {P : Char → Bool} {word rest : List Char} (hword : ∀ c ∈ word, P c = true)
    (hrest : ∀ c ∈ rest.head?, P c = false) : (word ++ rest).dropWhile P = rest := by
  rw [List.dropWhile_append_of_pos hword]
  cases rest with
  | nil => rfl
  | cons c cs => rw [List.dropWhile_cons_of_neg (by simp [hrest c rfl])]

theorem word_append_inj {P : Char → Bool} {a b x y : List Char} (ha : ∀ c ∈ a, P c = true)
    (hb : ∀ c ∈ b, P c = true) (hx : ∀ c ∈ x.head?, P c = false)
    (hy : ∀ c ∈ y.head?, P c = false) (h : a ++ x = b ++ y) : a = b ∧ x = y := by
  obtain rfl : a = b := by rw [← takeWhile_word ha hx, h, takeWhile_word hb hy]
  exact ⟨rfl, List.append_cancel_left h⟩

/-! ### Identifiers -/

theorem isIdentifierPart_of_mem {name : List Char} (h : isIdentifierChars name = true)
    (hc : c ∈ name) : isIdentifierPart c = true := by
  cases name with
  | nil => contradiction
  | cons d ds =>
      rw [isIdentifierChars, Bool.and_eq_true, List.all_eq_true] at h
      rcases List.mem_cons.1 hc with rfl | hc
      · have hstart := h.1
        simp only [isIdentifierStart, Bool.or_eq_true] at hstart
        rw [isIdentifierPart, Char.isAlphanum, Bool.or_eq_true, Bool.or_eq_true]
        exact hstart.imp_left .inl
      · exact h.2 c hc

theorem isBlank_of_isIdentifierPart (h : isIdentifierPart c = true) : isBlank c = false := by
  have hpoints : ∀ n ∈ blankPoints, isIdentifierPart (Char.ofNat n) = false := by decide
  rw [Bool.eq_false_iff]
  intro hblank
  have hc := hpoints c.toNat (List.contains_iff_mem.1 hblank)
  rw [Char.ofNat_toNat, h] at hc
  contradiction

/-! ### White space -/

/-- White space only, if anything. -/
def Blank (s : List Char) : Prop :=
  ∀ c ∈ s, isBlank c = true

/-- A text without white space. -/
def Solid (s : List Char) : Prop :=
  ∀ c ∈ s, isBlank c = false

theorem Solid.append (hs : Solid s) (ht : Solid t) : Solid (s ++ t) := fun c hc =>
  (List.mem_append.1 hc).elim (hs c) (ht c)

theorem dropWhile_blank_append {l : List Char} (hl : Blank l) (hs : Solid s) (t : List Char)
    (hne : s ≠ []) : (l ++ (s ++ t)).dropWhile isBlank = s ++ t := by
  obtain ⟨c, cs, rfl⟩ := List.exists_cons_of_ne_nil hne
  rw [List.dropWhile_append_of_pos hl, List.cons_append,
    List.dropWhile_cons_of_neg (by simp [hs c (List.mem_cons_self ..)])]

/-- Trimming takes off just the white space around a text that has none itself. -/
theorem trimChars_padded {l r : List Char} (hl : Blank l) (hs : Solid s) (hr : Blank r)
    (hne : s ≠ []) : trimChars (l ++ s ++ r) = s := by
  have hr' : Blank r.reverse := fun c hc => hr c (List.mem_reverse.1 hc)
  have hs' : Solid s.reverse := fun c hc => hs c (List.mem_reverse.1 hc)
  have hback := dropWhile_blank_append hr' hs' [] (by simpa using hne)
  rw [List.append_nil] at hback
  rw [trimChars, List.append_assoc, dropWhile_blank_append hl hs r hne, List.reverse_append, hback,
    List.reverse_reverse]

theorem trimChars_eq_self (hs : Solid s) : trimChars s = s := by
  by_cases hne : s = []
  · rw [hne, trimChars_nil]
  · have hnil : Blank [] := fun c hc => by contradiction
    simpa using trimChars_padded hnil hs hnil hne

theorem trimChars_spec (s : List Char) :
    ∃ l r, Blank l ∧ Blank r ∧ s = l ++ trimChars s ++ r := by
  let front := s.dropWhile isBlank
  refine ⟨s.takeWhile isBlank, (front.reverse.takeWhile isBlank).reverse,
    fun c hc => List.mem_takeWhile_imp hc,
    fun c hc => List.mem_takeWhile_imp (List.mem_reverse.1 hc), ?_⟩
  have hback : trimChars s ++ (front.reverse.takeWhile isBlank).reverse = front := by
    rw [trimChars, ← List.reverse_append, List.takeWhile_append_dropWhile, List.reverse_reverse]
  rw [List.append_assoc, hback, List.takeWhile_append_dropWhile]

end SchemaGraph.Text
