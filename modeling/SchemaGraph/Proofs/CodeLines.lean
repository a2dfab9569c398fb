import SchemaGraph.Emission.RustItem
import SchemaGraph.Proofs.Texts

/-!
Which lines of a generated text are code. A line that starts with two slashes is a remark, and all
other lines are code.

Documentation is spliced into the text as it is. It stays within remarks up to its first line break;
what comes after that is in lines of its own, which are code unless they look like remarks
(`strayLines`). So the code of an item is that of the item without its documentation, and among it
the stray lines of the documentation (`Adds.item`).
-/

namespace SchemaGraph

open Text

/-- Whether the first characters of a line that are not blank are two slashes. -/
def isRemark (line : List Char) : Bool :=
  match line.dropWhile isBlank with
  | '/' :: '/' :: _ => true
  | _ => false

/-- The lines of a text that are not remarks. -/
def codeLines (text : List Char) : List (List Char) :=
  (pieces '\n' text).filter fun line => !isRemark line

/-- The lines of code that a line of documentation leaves behind: those after a line break. -/
def strayLines (doc : String) : List (List Char) :=
  (pieces '\n' doc.toList).tail.filter fun line => !isRemark line

theorem strayLines_of_no_break {doc : String} (h : '\n' ∉ doc.toList) : strayLines doc = [] := by
  rw [strayLines, pieces_of_notMem h]
  rfl

theorem codeLines_append_break (a b : List Char) :
    codeLines (a ++ '\n' :: b) = codeLines a ++ codeLines b := by
  rw [codeLines, pieces_append_break, List.filter_append]
  rfl

/-- Remarks that are continued leave only what comes after the line break. -/
theorem codeLines_remark (front : List Char) (hfront : '\n' ∉ front)
    (hremark : ∀ rest, isRemark (front ++ rest) = true) (doc : String) (y : List Char) :
    codeLines (front ++ doc.toList ++ '\n' :: y) = strayLines doc ++ codeLines y := by
  rw [codeLines_append_break]
  obtain ⟨p, ps, hdoc⟩ := List.exists_cons_of_ne_nil (pieces_ne_nil '\n' doc.toList)
  rw [codeLines, strayLines, pieces_append hfront hdoc, hdoc, List.tail_cons,
    List.filter_cons_of_neg (by simp [hremark])]

/-! ### Texts with more code than others -/

/-- The second text has the lines of code of the first, and `n` more among them. -/
def Adds (x y : List Char) (n : Nat) : Prop :=
  (codeLines x).Sublist (codeLines y) ∧ (codeLines y).length = (codeLines x).length + n

/-- A text of whole lines. -/
def Whole (text : List Char) : Prop :=
  text = [] ∨ ∃ front, text = front ++ ['\n']

theorem Whole.break (front : List Char) : Whole (front ++ ['\n']) :=
  .inr ⟨front, rfl⟩

theorem Whole.append {a b : List Char} (ha : Whole a) (hb : Whole b) : Whole (a ++ b) := by
  rcases hb with rfl | ⟨front, rfl⟩
  · rwa [List.append_nil]
  · exact .inr ⟨a ++ front, (List.append_assoc ..).symm⟩

namespace Adds

variable {x y : List Char} {n : Nat}

theorem refl (x : List Char) : Adds x x 0 :=
  ⟨.refl _, rfl⟩

theorem eq_iff (h : Adds x y n) : codeLines y = codeLines x ↔ n = 0 := by
  constructor
  · intro heq
    have hlength := h.2
    rw [heq] at hlength
    omega
  · rintro rfl
    exact (h.1.eq_of_length h.2.symm).symm

theorem whole {front : List Char} (hfront : Whole front) (h : Adds x y n) :
    Adds (front ++ x) (front ++ y) n := by
  rcases hfront with rfl | ⟨front, rfl⟩
  · exact h
  · have hcode : ∀ z, codeLines (front ++ ['\n'] ++ z) = codeLines front ++ codeLines z := by
      simp [codeLines_append_break]
    refine ⟨?_, ?_⟩
    · rw [hcode, hcode]
      exact h.1.append_left _
    · rw [hcode, hcode, List.length_append, List.length_append, h.2, Nat.add_assoc]

theorem stray {lines : List (List Char)} {y' : List Char} (h : Adds x y n)
    (hy' : codeLines y' = lines ++ codeLines y) : Adds x y' (lines.length + n) := by
  refine ⟨?_, ?_⟩
  · rw [hy']
    exact h.1.trans (List.sublist_append_right ..)
  · rw [hy', List.length_append, h.2]
    omega

end Adds

namespace RustItem

theorem codeLines_docLine {indent : String} (hindent : ∀ c ∈ indent.toList, c = ' ') (doc : String)
    (y : List Char) :
    codeLines ((docLine indent doc).toList ++ y) = strayLines doc ++ codeLines y := by
  have hblank : ∀ rest, (indent.toList ++ '/' :: rest).dropWhile isBlank = '/' :: rest := by
    intro rest
    rw [List.dropWhile_append_of_pos fun c hc => by rw [hindent c hc]; rfl]
    rfl
  have hbreak : '\n' ∉ indent.toList := fun h => absurd (hindent _ h) (by decide)
  rw [docLine]
  split
  · rename_i hdoc
    subst hdoc
    simpa using codeLines_remark (indent.toList ++ ['/', '/', '/']) (by simp [hbreak])
      (fun rest => by simp [isRemark, hblank]) "" y
  · simpa using codeLines_remark (indent.toList ++ ['/', '/', '/', ' ']) (by simp [hbreak])
      (fun rest => by simp [isRemark, hblank]) doc y

end RustItem

/-- The lines of code that documentation leaves behind. -/
def strayCode (docs : List String) : List (List Char) :=
  docs.flatMap strayLines

theorem strayCode_append (docs docs' : List String) :
    strayCode (docs ++ docs') = strayCode docs ++ strayCode docs' :=
  List.flatMap_append

theorem strayCode_eq_nil {docs : List String} :
    strayCode docs = [] ↔ ∀ doc ∈ docs, strayLines doc = [] :=
  List.flatMap_eq_nil_iff

theorem Adds.docs {x y : List Char} {n : Nat} (h : Adds x y n) (indent : String)
    (hindent : ∀ c ∈ indent.toList, c = ' ') (docs : List String) :
    Adds x ((RustItem.docLines indent docs).toList ++ y) ((strayCode docs).length + n) := by
  refine h.stray ?_
  rw [RustItem.docLines, String.toList_join, strayCode]
  induction docs with
  | nil => rfl
  | cons doc docs ih =>
      rw [List.map_cons, List.flatMap_cons, List.flatMap_cons, List.append_assoc, List.append_assoc,
        RustItem.codeLines_docLine hindent, ih]

/-! ### Items without documentation -/

def RustMember.bare (m : RustMember) : RustMember :=
  { m with docs := [] }

def RustVariant.bare (v : RustVariant) : RustVariant :=
  { v with docs := [] }

namespace RustItem

/-- The documentation of an item, from its first line to its last. -/
def docs : RustItem → List String
  | .struct docs _ _ fields => docs ++ fields.flatMap RustMember.docs
  | .tupleAlias docs _ _ => docs
  | .trait docs _ _ getters => docs ++ getters.flatMap RustMember.docs
  | .enum docs _ _ _ variants => docs ++ variants.flatMap RustVariant.docs
  | .keyAccessor .. | .traitImpl .. | .valueAccessor .. | .inserters .. => []

/-- An item without its documentation. -/
def bare : RustItem → RustItem
  | .struct _ derives name fields => .struct [] derives name (fields.map RustMember.bare)
  | .tupleAlias _ name types => .tupleAlias [] name types
  | .trait _ name supertraits getters => .trait [] name supertraits (getters.map RustMember.bare)
  | .enum _ derives repr name variants => .enum [] derives repr name (variants.map RustVariant.bare)
  | .keyAccessor type keyType fields => .keyAccessor type keyType fields
  | .traitImpl implemented type getters => .traitImpl implemented type getters
  | .valueAccessor type repr => .valueAccessor type repr
  | .inserters type maps => .inserters type maps

theorem whole_block (indent head body : String) : Whole (block indent head body).toList := by
  simpa [block] using Whole.break (indent.toList ++ (head.toList ++ (' ' :: '\x7b' :: '\n' ::
    (body.toList ++ (indent.toList ++ ['\x7d'])))))

theorem whole_deriveLine (derives : List String) : Whole (deriveLine derives).toList := by
  rw [deriveLine]
  split
  · exact .inl rfl
  · rw [show ")]\n" = ")]" ++ "\n" from rfl, ← String.append_assoc, String.toList_append]
    exact Whole.break _

end RustItem

/-! ### The code of items -/

section Items

open RustItem

variable {x y : List Char} {n : Nat}

theorem inner_blank : ∀ c ∈ RustItem.inner.toList, c = ' ' := by
  simp [RustItem.inner]

/-- Entries one after another, each with its documentation and then the lines `body` of code. -/
theorem Adds.entries {α : Type} {text : α → String} {docs : α → List String} {bare : α → α}
    (body : α → List Char) (hbody : ∀ a, Whole (body a)) (hbare : ∀ a, (text (bare a)).toList = body a)
    (htext : ∀ a, (text a).toList = (docLines RustItem.inner (docs a)).toList ++ body a)
    (h : Adds x y n) (as : List α) :
    Adds ((String.join ((as.map bare).map text)).toList ++ x)
      ((String.join (as.map text)).toList ++ y) ((strayCode (as.flatMap docs)).length + n) := by
  induction as with
  | nil => simpa [strayCode] using h
  | cons a as ih =>
      rw [List.map_cons, List.map_cons, List.map_cons, String.join_cons, String.join_cons,
        String.toList_append, String.toList_append, hbare, htext, List.flatMap_cons,
        strayCode_append, List.length_append, List.append_assoc, List.append_assoc,
        List.append_assoc, Nat.add_assoc]
      exact (ih.whole (hbody a)).docs RustItem.inner inner_blank _

theorem Adds.fields (h : Adds x y n) (fields : List RustMember) :
    Adds ((String.join ((fields.map RustMember.bare).map fieldText)).toList ++ x)
      ((String.join (fields.map fieldText)).toList ++ y)
      ((strayCode (fields.flatMap RustMember.docs)).length + n) :=
  h.entries
    (fun f => (RustItem.inner ++ "pub " ++ f.name ++ ": " ++ f.type.render ++ ",").toList ++ ['\n'])
    (fun _ => Whole.break _) (fun f => by simp [fieldText, RustMember.bare, docLines])
    (fun f => by simp [fieldText]) fields

theorem Adds.getters (h : Adds x y n) (getters : List RustMember) :
    Adds ((String.join ((getters.map RustMember.bare).map getterText)).toList ++ x)
      ((String.join (getters.map getterText)).toList ++ y)
      ((strayCode (getters.flatMap RustMember.docs)).length + n) :=
  h.entries (fun g => (RustItem.inner ++ signature g ++ ";").toList ++ ['\n'])
    (fun _ => Whole.break _) (fun g => by simp [getterText, signature, RustMember.bare, docLines])
    (fun g => by simp [getterText]) getters

theorem Adds.variants (h : Adds x y n) (variants : List RustVariant) :
    Adds ((String.join ((variants.map RustVariant.bare).map variantText)).toList ++ x)
      ((String.join (variants.map variantText)).toList ++ y)
      ((strayCode (variants.flatMap RustVariant.docs)).length + n) :=
  h.entries
    (fun v => (RustItem.inner ++ v.name ++ " = " ++ toString v.value ++ ",").toList ++ ['\n'])
    (fun _ => Whole.break _) (fun v => by simp [variantText, RustVariant.bare, docLines])
    (fun v => by simp [variantText]) variants

/-- A block at the margin, with entries in it. -/
theorem Adds.block {body body' : String} {k : Nat} (h : Adds x y n) (head : String)
    (hbody : ∀ {x y : List Char} {n : Nat}, Adds x y n →
      Adds (body.toList ++ x) (body'.toList ++ y) (k + n)) :
    Adds ((RustItem.block "" head body).toList ++ x) ((RustItem.block "" head body').toList ++ y)
      (k + n) := by
  have hhead : Whole (head.toList ++ [' ', '\x7b'] ++ ['\n']) := Whole.break _
  have hend : Whole (['\x7d'] ++ ['\n']) := Whole.break _
  simpa [RustItem.block] using (hbody (h.whole hend)).whole hhead

/-- The code of an item is its code without documentation and what its documentation leaves
behind. -/
theorem Adds.item (h : Adds x y n) (item : RustItem) :
    Adds (item.bare.render.toList ++ x) (item.render.toList ++ y)
      ((strayCode item.docs).length + n) := by
  have hsame : ∀ text : String, Whole text.toList → Adds (text.toList ++ x) (text.toList ++ y)
      ((strayCode []).length + n) := fun text htext => by simpa [strayCode] using h.whole htext
  cases item with
  | struct docs derives name fields =>
      have hfields := h.block ("pub struct " ++ name) fun h => h.fields fields
      simpa [RustItem.bare, render, RustItem.docs, docLines, strayCode_append, Nat.add_assoc] using
        (hfields.whole (whole_deriveLine derives)).docs "" (by simp) docs
  | tupleAlias docs name types =>
      have halias : Whole (("pub type " ++ name ++ " = " ++ tuple (types.map RustType.render) ++
        ";").toList ++ ['\n']) := Whole.break _
      simpa [RustItem.bare, render, RustItem.docs, docLines] using
        (h.whole halias).docs "" (by simp) docs
  | trait docs name supertraits getters =>
      have hgetters := h.block ("pub trait " ++ name ++ supertraitList supertraits)
        fun h => h.getters getters
      simpa [RustItem.bare, render, RustItem.docs, docLines, strayCode_append, Nat.add_assoc] using
        hgetters.docs "" (by simp) docs
  | enum docs derives repr name variants =>
      have hvariants := h.block ("pub enum " ++ name) fun h => h.variants variants
      cases repr with
      | none =>
          simpa [RustItem.bare, render, RustItem.docs, docLines, strayCode_append, Nat.add_assoc]
            using (hvariants.whole (whole_deriveLine derives)).docs "" (by simp) docs
      | some r =>
          have hrepr : Whole (("#[repr(" ++ r ++ ")]").toList ++ ['\n']) := Whole.break _
          simpa [RustItem.bare, render, RustItem.docs, docLines, strayCode_append, Nat.add_assoc]
            using ((hvariants.whole hrepr).whole (whole_deriveLine derives)).docs "" (by simp)
              docs
  | keyAccessor type keyType fields => exact hsame _ (whole_block ..)
  | traitImpl implemented type getters => exact hsame _ (whole_block ..)
  | valueAccessor type repr => exact hsame _ (whole_block ..)
  | inserters type maps => exact hsame _ (whole_block ..)

theorem Adds.items (items : List RustItem) :
    Adds (String.intercalate "\n" ((items.map RustItem.bare).map render)).toList
      (String.intercalate "\n" (items.map render)).toList
      (strayCode (items.flatMap RustItem.docs)).length := by
  induction items with
  | nil => exact .refl _
  | cons item items ih =>
      cases items with
      | nil => simpa using (Adds.refl []).item item
      | cons next items =>
          have hblank : Whole ['\n'] := Whole.break []
          simpa [strayCode_append] using (ih.whole hblank).item item

/-- The code of a file is its code without documentation, just if the documentation leaves no code
behind. -/
theorem codeLines_renderFile_bare_iff (schema : String) (items : List RustItem) :
    codeLines (renderFile schema items).toList =
        codeLines (renderFile schema (items.map RustItem.bare)).toList ↔
      ∀ doc ∈ items.flatMap RustItem.docs, strayLines doc = [] := by
  have hremark : Whole ("// Generated by schemac from schema `" ++ schema ++
      "`. Do not edit.\n\n").toList := by
    rw [show "`. Do not edit.\n\n" = "`. Do not edit.\n" ++ "\n" by simp, ← String.append_assoc,
      String.toList_append]
    exact Whole.break _
  have hadds := (Adds.items items).whole hremark
  rw [← String.toList_append, ← String.toList_append] at hadds
  unfold renderFile
  rw [hadds.eq_iff, List.length_eq_zero_iff, strayCode_eq_nil]

end Items

end SchemaGraph
