import Mathlib.Data.List.TakeDrop
import SchemaGraph.Json.Reader
import SchemaGraph.Proofs.Decimals
import SchemaGraph.Proofs.Texts

/-!
JSON values and the documents that their texts are read as. Reading undoes writing: the text of a
value is one document, with the value's own parts in it and no fault, if the numbers of the value
are integers of 64 bits.
-/

namespace SchemaGraph.Json

open Document Text

/-! ### Values as documents -/

mutual

/-- The value as a document without faults. -/
def document : Json → Document
  | .null => .null
  | .bool b => .bool b
  | .number n => .number (.ok n)
  | .text s => .text (.ok s)
  | .list items => .list (documents items) none
  | .record fields => .record (fieldDocuments fields) none

def documents : List Json → List Document
  | [] => []
  | j :: js => j.document :: documents js

def fieldDocuments : List (String × Json) → List (Except Fault String × Document)
  | [] => []
  | (k, j) :: fs => (.ok k, j.document) :: fieldDocuments fs

end

theorem documents_eq_map (js : List Json) : documents js = js.map document := by
  induction js with
  | nil => rfl
  | cons j js ih => rw [documents, ih, List.map_cons]

theorem fieldDocuments_eq_map (fs : List (String × Json)) :
    fieldDocuments fs = fs.map fun f => (.ok f.1, f.2.document) := by
  induction fs with
  | nil => rfl
  | cons f fs ih => rw [fieldDocuments, ih, List.map_cons]

/-- All numbers of the value are integers of 64 bits, and its lists and records are nested at most
`n` deep. -/
inductive Nests : Nat → Json → Prop
  | null {n : Nat} : Nests n .null
  | bool {n : Nat} (b : Bool) : Nests n (.bool b)
  | int {n : Nat} {i : Int} (hlow : Decimal.leastInt64 ≤ i) (hhigh : i ≤ Decimal.greatestUInt64) :
      Nests n (.number (.int i))
  | text {n : Nat} (s : String) : Nests n (.text s)
  | list {n : Nat} {items : List Json} (h : ∀ j ∈ items, Nests n j) : Nests (n + 1) (.list items)
  | record {n : Nat} {fields : List (String × Json)} (h : ∀ f ∈ fields, Nests n f.2) :
      Nests (n + 1) (.record fields)

/-! ### Strings -/

theorem hexNumber?_control :
    ∀ n < 32, hexNumber? ['0', '0', Nat.digitChar (n / 16), Nat.digitChar (n % 16)] = some n := by
  decide

theorem scanString_cons {c : Char} (hquote : c ≠ '"') (hslash : c ≠ '\\')
    (hcontrol : ¬c.toNat < 0x20) (s : List Char) :
    scanString none (c :: s) = (scanString none s).map (c :: ·) := by
  rw [scanString, if_neg hcontrol]
  · rfl
  all_goals simp [hquote, hslash]

theorem scanString_escapeChar (c : Char) (s : List Char) :
    scanString none (escapeChar c ++ s) = (scanString none s).map (c :: ·) := by
  by_cases hshort : c ∈ ['"', '\\', '\n', '\t', '\r', '\x08', '\x0c']
  · simp only [List.mem_cons, List.not_mem_nil, or_false] at hshort
    rcases hshort with rfl | rfl | rfl | rfl | rfl | rfl | rfl <;> rfl
  · simp only [List.mem_cons, List.not_mem_nil, or_false, not_or] at hshort
    obtain ⟨hquote, hslash, hline, htab, hreturn, hback, hpage⟩ := hshort
    simp only [escapeChar, hquote, hslash, hline, htab, hreturn, hback, hpage, if_false]
    split
    · rename_i hcontrol
      have hhex := hexNumber?_control c.toNat hcontrol
      have hleading : isLeading c.toNat = false := by
        rw [isLeading, Bool.and_eq_false_iff, decide_eq_false_iff_not]
        omega
      have htrailing : isTrailing c.toNat = false := by
        rw [isTrailing, Bool.and_eq_false_iff, decide_eq_false_iff_not]
        omega
      simp only [List.cons_append, List.nil_append, scanString, hhex, hleading, htrailing,
        Char.ofNat_toNat]
      rfl
    · rename_i hcontrol
      exact scanString_cons hquote hslash hcontrol s

theorem scanString_escaped (s rest : List Char) :
    scanString none (s.flatMap escapeChar ++ '"' :: rest) = ⟨.ok s, .ok rest⟩ := by
  induction s with
  | nil => rfl
  | cons c cs ih =>
      rw [List.flatMap_cons, List.append_assoc, scanString_escapeChar, ih]
      rfl

/-! ### Numbers -/

/-- A value ends here: the text ends, or a list or record goes on. -/
def Ends (rest : List Char) : Prop :=
  ∀ c ∈ rest.head?, c = ',' ∨ c = ']' ∨ c = '\x7d'

theorem Ends.isDigit {rest : List Char} (h : Ends rest) : ∀ c ∈ rest.head?, c.isDigit = false := by
  intro c hc
  rcases h c hc with rfl | rfl | rfl <;> rfl

theorem span_isDigit {digits rest : List Char} (hdigits : ∀ c ∈ digits, c.isDigit = true)
    (hrest : Ends rest) : (digits ++ rest).span Char.isDigit = (digits, rest) := by
  rw [List.span_eq_takeWhile_dropWhile, takeWhile_word hdigits hrest.isDigit,
    dropWhile_word hdigits hrest.isDigit]

theorem scanMagnitude_digits (negative : Bool) (n : Nat) {rest : List Char} (hrest : Ends rest) :
    scanMagnitude negative (n.repr.toList ++ rest) =
      ⟨wholeNumber negative n.repr.toList, .ok rest⟩ := by
  rw [scanMagnitude, span_isDigit (fun _ => Decimal.isDigit_of_mem_digits) hrest]
  simp only
  split
  · rename_i hnil
    exact absurd hnil (Decimal.digits_ne_nil n)
  · rename_i hzero
    exact absurd hzero (Decimal.digits_ne_zero_cons n _ _)
  · split
    · exact absurd (hrest _ rfl) (by decide)
    · exact absurd (hrest _ rfl) (by decide)
    · exact absurd (hrest _ rfl) (by decide)
    · rfl

theorem wholeNumber_digits {n : Nat} (h : n ≤ Decimal.greatestUInt64) :
    wholeNumber false n.repr.toList = .ok (.int n) := by
  rw [wholeNumber, Decimal.valueOfDigits_digits]
  exact if_pos h

theorem wholeNumber_neg_digits {n : Nat} (hpos : 0 < n) (h : Decimal.leastInt64 ≤ -n) :
    wholeNumber true n.repr.toList = .ok (.int (-n)) := by
  rw [wholeNumber, Decimal.valueOfDigits_digits]
  exact (if_pos rfl).trans (if_neg (by omega))

theorem scanNumber_toString {i : Int} (hlow : Decimal.leastInt64 ≤ i)
    (hhigh : i ≤ Decimal.greatestUInt64) {rest : List Char} (hrest : Ends rest) :
    scanNumber ((toString i).toList ++ rest) = ⟨.ok (.int i), .ok rest⟩ := by
  rw [Decimal.toList_toString]
  split
  · rename_i hi
    have hmagnitude := scanMagnitude_digits false i.toNat hrest
    rw [wholeNumber_digits (by omega), Int.toNat_of_nonneg hi] at hmagnitude
    obtain ⟨c, cs, hdigits⟩ := List.exists_cons_of_ne_nil (Decimal.digits_ne_nil i.toNat)
    have hc : c ≠ '-' := by
      rintro rfl
      have hdigit := Decimal.isDigit_of_mem_digits (hdigits ▸ List.mem_cons_self)
      exact absurd hdigit (by decide)
    rw [hdigits, List.cons_append] at hmagnitude ⊢
    rw [scanNumber, hmagnitude]
    simp [hc]
  · rename_i hi
    have hneg : (-i).toNat = -i := Int.toNat_of_nonneg (by omega)
    rw [List.cons_append, scanNumber, scanMagnitude_digits true _ hrest,
      wholeNumber_neg_digits (by omega) (by omega), hneg, Int.neg_neg]

/-! ### Texts of values -/

/-- The text of a string in quotes. -/
theorem toList_quote (s : String) :
    (quote s).toList = '"' :: (s.toList.flatMap escapeChar ++ ['"']) := by
  rw [quote, String.toList_ofList, List.cons_append]

/-- The text of a field: its key in quotes, a colon and its value. -/
def fieldText (f : String × Json) : List Char :=
  '"' :: (f.1.toList.flatMap escapeChar ++ '"' :: ':' :: f.2.render.toList)

theorem map_toList_renderItems (items : List Json) :
    (renderItems items).map String.toList = items.map fun j => j.render.toList := by
  induction items with
  | nil => rfl
  | cons j js ih => rw [renderItems, List.map_cons, ih, List.map_cons]

theorem map_toList_renderFields (fields : List (String × Json)) :
    (renderFields fields).map String.toList = fields.map fieldText := by
  induction fields with
  | nil => rfl
  | cons f fs ih =>
      rw [renderFields, List.map_cons, ih, List.map_cons, String.toList_append,
        String.toList_append, toList_quote]
      simp [fieldText]

theorem toList_render_list (items : List Json) : (list items).render.toList =
    '[' :: (joined [','] (items.map fun j => j.render.toList) ++ [']']) := by
  rw [render, String.toList_append, String.toList_append, String.toList_intercalate,
    map_toList_renderItems]
  rfl

theorem toList_render_record (fields : List (String × Json)) : (record fields).render.toList =
    '\x7b' :: (joined [','] (fields.map fieldText) ++ ['\x7d']) := by
  rw [render, String.toList_append, String.toList_append, String.toList_intercalate,
    map_toList_renderFields]
  rfl

theorem eq_of_isDigit {c d : Char} (h : c = '-' ∨ c.isDigit = true)
    (hd : ¬(d = '-' ∨ d.isDigit = true)) : c ≠ d := by
  rintro rfl
  exact hd h

theorem exists_toString_cons (i : Int) :
    ∃ c cs, (toString i).toList = c :: cs ∧ (c = '-' ∨ c.isDigit = true) := by
  rw [Decimal.toList_toString]
  split
  · obtain ⟨c, cs, hdigits⟩ := List.exists_cons_of_ne_nil (Decimal.digits_ne_nil i.toNat)
    exact ⟨c, cs, hdigits, .inr (Decimal.isDigit_of_mem_digits (hdigits ▸ List.mem_cons_self))⟩
  · exact ⟨'-', _, rfl, .inl rfl⟩

/-- The text does not begin with white space, nor with a bracket that closes a list or record. -/
def Begins (s : List Char) : Prop :=
  ∃ c cs, s = c :: cs ∧ isSpace c = false ∧ c ≠ ']' ∧ c ≠ '\x7d'

theorem isSpace_of_isDigit {c : Char} (h : c = '-' ∨ c.isDigit = true) : isSpace c = false := by
  simp [isSpace, eq_of_isDigit h (d := ' ') (by decide), eq_of_isDigit h (d := '\n') (by decide),
    eq_of_isDigit h (d := '\t') (by decide), eq_of_isDigit h (d := '\r') (by decide)]

theorem Begins.ne_nil {s : List Char} (h : Begins s) : s ≠ [] := by
  obtain ⟨c, cs, rfl, -⟩ := h
  exact List.cons_ne_nil c cs

theorem Begins.append {s : List Char} (h : Begins s) (t : List Char) : Begins (s ++ t) := by
  obtain ⟨c, cs, rfl, hc⟩ := h
  exact ⟨c, cs ++ t, rfl, hc⟩

theorem Begins.joined {ss : List (List Char)} (hne : ss ≠ []) (h : ∀ s ∈ ss, Begins s) :
    Begins (joined [','] ss) := by
  cases ss with
  | nil => contradiction
  | cons s ss =>
      have hs := h s List.mem_cons_self
      cases ss with
      | nil => simpa [Text.joined] using hs
      | cons t ts =>
          rw [Text.joined, List.intercalate_cons_cons, List.append_assoc]
          exact hs.append _

theorem begins_fieldText (f : String × Json) : Begins (fieldText f) :=
  ⟨'"', _, rfl, by decide⟩

theorem Nests.begins {n : Nat} {j : Json} (h : Nests n j) : Begins j.render.toList := by
  cases h with
  | null => exact ⟨'n', _, rfl, by decide⟩
  | bool b => cases b <;> exact ⟨_, _, rfl, by decide⟩
  | @int _ i =>
      obtain ⟨c, cs, hcons, hc⟩ := exists_toString_cons i
      exact ⟨c, cs, hcons, isSpace_of_isDigit hc, eq_of_isDigit hc (by decide),
        eq_of_isDigit hc (by decide)⟩
  | text s => exact ⟨'"', _, toList_quote s, by decide⟩
  | @list _ items => exact ⟨'[', _, toList_render_list items, by decide⟩
  | @record _ fields => exact ⟨'\x7b', _, toList_render_record fields, by decide⟩

/-! ### Reading -/

theorem skipSpace_cons {c : Char} (h : isSpace c = false) (s : List Char) :
    skipSpace (c :: s) = c :: s := by
  rw [skipSpace, List.dropWhile_cons_of_neg]
  simp [h]

theorem readValue_number {c : Char} (h : c = '-' ∨ c.isDigit = true) (fuel : Nat) (s : List Char) :
    readValue (fuel + 1) (c :: s) =
      (.number (scanNumber (c :: s)).value, (scanNumber (c :: s)).rest) := by
  rw [readValue, skipSpace_cons (isSpace_of_isDigit h)]
  split
  · contradiction
  all_goals
    rename_i heq
    obtain ⟨rfl, rfl⟩ := List.cons.inj heq
  · exact absurd rfl (eq_of_isDigit h (d := 'n') (by decide))
  · exact absurd rfl (eq_of_isDigit h (d := 't') (by decide))
  · exact absurd rfl (eq_of_isDigit h (d := 'f') (by decide))
  · exact absurd rfl (eq_of_isDigit h (d := '"') (by decide))
  · exact absurd rfl (eq_of_isDigit h (d := '[') (by decide))
  · exact absurd rfl (eq_of_isDigit h (d := '\x7b') (by decide))
  · exact if_pos h

theorem readValue_list {s : List Char} (h : Begins s) (fuel : Nat) :
    readValue (fuel + 1) ('[' :: s) =
      (.list (readItems fuel s).1 (endingOf (readItems fuel s).2), (readItems fuel s).2) := by
  obtain ⟨c, cs, rfl, hspace, hclose, -⟩ := h
  rw [readValue, skipSpace_cons rfl]
  simp only [skipSpace_cons hspace]
  split
  · contradiction
  · rename_i heq
    exact absurd (List.cons.inj heq).1 hclose
  · rfl

theorem readValue_record {s : List Char} (h : Begins s) (fuel : Nat) :
    readValue (fuel + 1) ('\x7b' :: s) =
      (.record (readMembers fuel s).1 (endingOf (readMembers fuel s).2),
        (readMembers fuel s).2) := by
  obtain ⟨c, cs, rfl, hspace, -, hclose⟩ := h
  rw [readValue, skipSpace_cons rfl]
  simp only [skipSpace_cons hspace]
  split
  · contradiction
  · rename_i heq
    exact absurd (List.cons.inj heq).1 hclose
  · rfl

/-- The value is read back from its text, whatever follows the text. -/
def ReadsBack (j : Json) : Prop :=
  ∀ fuel rest, Ends rest → j.render.toList.length ≤ fuel →
    readValue fuel (j.render.toList ++ rest) = (j.document, .ok rest)

theorem ends_cons {c : Char} (h : c = ',' ∨ c = ']' ∨ c = '\x7d') (rest : List Char) :
    Ends (c :: rest) := fun _ hd => Option.some.inj hd ▸ h

section Parts

variable {α β : Type} {read : Nat → List Char → List β × Except Fault (List Char)}
  {text : α → List Char} {part : α → β} {close : Char}

/-- Parts with commas between them are read back if the last one is, which the bracket follows, and
every one that a comma follows. -/
theorem read_joined {as : List α} (hne : as ≠ [])
    (hlast : ∀ a ∈ as, ∀ fuel rest, (text a).length ≤ fuel →
      read (fuel + 1) (text a ++ close :: rest) = ([part a], .ok rest))
    (hnext : ∀ a ∈ as, ∀ fuel s, (text a).length ≤ fuel →
      read (fuel + 1) (text a ++ ',' :: s) = (part a :: (read fuel s).1, (read fuel s).2))
    {fuel : Nat} (rest : List Char) (hfuel : (joined [','] (as.map text)).length < fuel) :
    read fuel (joined [','] (as.map text) ++ close :: rest) = (as.map part, .ok rest) := by
  induction as generalizing fuel with
  | nil => contradiction
  | cons a as ih =>
      obtain ⟨fuel, rfl⟩ := Nat.exists_eq_succ_of_ne_zero (Nat.ne_zero_of_lt hfuel)
      rw [List.forall_mem_cons] at hlast hnext
      cases as with
      | nil =>
          simp only [List.map_cons, List.map_nil, joined, List.intercalate_singleton] at hfuel ⊢
          exact hlast.1 fuel rest (by omega)
      | cons b bs =>
          have hsplit : joined [','] ((a :: b :: bs).map text) =
              text a ++ ',' :: joined [','] ((b :: bs).map text) := by
            simp [joined, List.intercalate_cons_cons]
          rw [hsplit, List.length_append, List.length_cons] at hfuel
          rw [hsplit, List.append_assoc, List.cons_append, hnext.1 fuel _ (by omega),
            ih (by simp) hlast.2 hnext.2 (by omega)]
          rfl

end Parts

theorem readItems_render {items : List Json} (hne : items ≠ []) (hback : ∀ j ∈ items, ReadsBack j)
    {fuel : Nat} (rest : List Char)
    (hfuel : (joined [','] (items.map fun j => j.render.toList)).length < fuel) :
    readItems fuel (joined [','] (items.map fun j => j.render.toList) ++ ']' :: rest) =
      (documents items, .ok rest) := by
  rw [documents_eq_map]
  refine read_joined hne (fun j hj fuel rest hlength => ?_)
    (fun j hj fuel s hlength => ?_) rest hfuel
  · rw [readItems, hback j hj fuel _ (ends_cons (by decide) rest) hlength]
    simp only [skipSpace_cons (c := ']') rfl]
  · rw [readItems, hback j hj fuel _ (ends_cons (by decide) s) hlength]
    simp only [skipSpace_cons (c := ',') rfl]

theorem fieldText_append (f : String × Json) (s : List Char) : fieldText f ++ s =
    '"' :: (f.1.toList.flatMap escapeChar ++ '"' :: ':' :: (f.2.render.toList ++ s)) := by
  simp [fieldText]

theorem length_render_le_fieldText (f : String × Json) :
    f.2.render.toList.length ≤ (fieldText f).length := by
  simp only [fieldText, List.length_cons, List.length_append]
  omega

theorem readMembers_render {fields : List (String × Json)} (hne : fields ≠ [])
    (hback : ∀ f ∈ fields, ReadsBack f.2) {fuel : Nat} (rest : List Char)
    (hfuel : (joined [','] (fields.map fieldText)).length < fuel) :
    readMembers fuel (joined [','] (fields.map fieldText) ++ '\x7d' :: rest) =
      (fieldDocuments fields, .ok rest) := by
  rw [fieldDocuments_eq_map]
  refine read_joined hne (fun f hf fuel rest hlength => ?_)
    (fun f hf fuel s hlength => ?_) rest hfuel
  all_goals have hle := (length_render_le_fieldText f).trans hlength
  · have hvalue := hback f hf fuel _ (ends_cons (c := '\x7d') (by decide) rest) hle
    rw [fieldText_append, readMembers, skipSpace_cons rfl]
    simp only [scanString_escaped, skipSpace_cons (c := ':') rfl, hvalue,
      skipSpace_cons (c := '\x7d') rfl, Except.map, String.ofList_toList]
  · have hvalue := hback f hf fuel _ (ends_cons (c := ',') (by decide) s) hle
    rw [fieldText_append, readMembers, skipSpace_cons rfl]
    simp only [scanString_escaped, skipSpace_cons (c := ':') rfl, hvalue,
      skipSpace_cons (c := ',') rfl, Except.map, String.ofList_toList]

theorem readsBack_of_begins {j : Json} (hbegins : Begins j.render.toList)
    (h : ∀ fuel rest, Ends rest → j.render.toList.length ≤ fuel + 1 →
      readValue (fuel + 1) (j.render.toList ++ rest) = (j.document, .ok rest)) : ReadsBack j := by
  intro fuel rest hrest hfuel
  have hpos := List.length_pos_iff.2 hbegins.ne_nil
  obtain ⟨fuel, rfl⟩ := Nat.exists_eq_succ_of_ne_zero (by omega : fuel ≠ 0)
  exact h fuel rest hrest hfuel

/-- A value whose numbers are integers of 64 bits is read back from its text. -/
theorem Nests.readsBack {n : Nat} {j : Json} (h : Nests n j) : ReadsBack j := by
  induction h with
  | null => exact readsBack_of_begins (Nests.null (n := 0)).begins fun _ _ _ _ => rfl
  | bool b =>
      refine readsBack_of_begins (Nests.bool (n := 0) b).begins fun _ _ _ _ => ?_
      cases b <;> rfl
  | @int _ i hlow hhigh =>
      refine readsBack_of_begins (Nests.int (n := 0) hlow hhigh).begins fun fuel rest hrest _ => ?_
      have hscan := scanNumber_toString hlow hhigh hrest
      obtain ⟨c, cs, hcons, hc⟩ := exists_toString_cons i
      rw [hcons, List.cons_append] at hscan
      rw [render, Number.render, hcons, List.cons_append, readValue_number hc, hscan]
      rfl
  | text s =>
      refine readsBack_of_begins (Nests.text (n := 0) s).begins fun fuel rest _ _ => ?_
      rw [render, toList_quote, List.cons_append, List.append_assoc, List.singleton_append,
        readValue, skipSpace_cons rfl]
      simp only [scanString_escaped, Except.map, String.ofList_toList, document]
  | @list _ items h ih =>
      refine readsBack_of_begins (Nests.list h).begins fun fuel rest _ hfuel => ?_
      rw [toList_render_list] at hfuel ⊢
      cases items with
      | nil => rfl
      | cons j js =>
          have hbegins : Begins (joined [','] ((j :: js).map fun j => j.render.toList)) :=
            .joined (by simp) (List.forall_mem_map.2 fun k hk => (h k hk).begins)
          rw [List.length_cons, List.length_append, List.length_singleton] at hfuel
          rw [List.cons_append, List.append_assoc, readValue_list (hbegins.append _),
            List.singleton_append, readItems_render (by simp) ih rest (by omega)]
          rfl
  | @record _ fields h ih =>
      refine readsBack_of_begins (Nests.record h).begins fun fuel rest _ hfuel => ?_
      rw [toList_render_record] at hfuel ⊢
      cases fields with
      | nil => rfl
      | cons f fs =>
          have hbegins : Begins (joined [','] ((f :: fs).map fieldText)) :=
            .joined (by simp) (List.forall_mem_map.2 fun k _ => begins_fieldText k)
          rw [List.length_cons, List.length_append, List.length_singleton] at hfuel
          rw [List.cons_append, List.append_assoc, readValue_record (hbegins.append _),
            List.singleton_append, readMembers_render (by simp) ih rest (by omega)]
          rfl

/-- The text of such a value is read as the document of the value, and nothing is left. -/
theorem readDocument_render {n : Nat} {j : Json} (h : Nests n j) :
    readDocument j.render = (j.document, .ok ()) := by
  have hread := h.readsBack (2 * j.render.length + 1) [] (by simp [Ends]) (by
    rw [String.length_toList]
    omega)
  rw [List.append_nil] at hread
  rw [readDocument, hread]
  rfl

/-! ### Documents as values -/

theorem values_documents {budget : Nat} {js : List Json}
    (h : ∀ j ∈ js, j.document.value budget = .ok j) : values budget (documents js) = .ok js := by
  induction js with
  | nil => rfl
  | cons j js ih =>
      rw [List.forall_mem_cons] at h
      rw [documents, values, h.1, ih h.2]
      rfl

theorem fieldValues_fieldDocuments {budget : Nat} {fs : List (String × Json)}
    (h : ∀ f ∈ fs, f.2.document.value budget = .ok f.2) :
    fieldValues budget (fieldDocuments fs) = .ok fs := by
  induction fs with
  | nil => rfl
  | cons f fs ih =>
      rw [List.forall_mem_cons] at h
      rw [fieldDocuments, fieldValues, h.1, ih h.2]
      rfl

/-- A document of a value can be read as the value where nesting is bounded, if the value keeps to
the bound. -/
theorem Nests.value_document {n : Nat} {j : Json} (h : Nests n j) {budget : Nat}
    (hbudget : n < budget) : j.document.value budget = .ok j := by
  induction h generalizing budget with
  | null | bool b | int | text s => rfl
  | @list n items _ ih =>
      obtain ⟨budget, rfl⟩ : ∃ b, budget = b + 2 := ⟨budget - 2, by omega⟩
      have hitems : values (budget + 1) (documents items) = .ok items :=
        values_documents fun j hj => ih j hj (by omega)
      simp only [document, value, hitems]
      rfl
  | @record n fields _ ih =>
      obtain ⟨budget, rfl⟩ : ∃ b, budget = b + 2 := ⟨budget - 2, by omega⟩
      have hfields : fieldValues (budget + 1) (fieldDocuments fields) = .ok fields :=
        fieldValues_fieldDocuments fun f hf => ih f hf (by omega)
      simp only [document, value, hfields]
      rfl

end SchemaGraph.Json
