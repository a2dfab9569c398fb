import SchemaGraph.Emission.RustItem
import SchemaGraph.Proofs.Texts

/-!
The text of a Rust type tells the type, if its paths are made of words. A word ends where the text
goes on with something else, and so does a path: after it comes the list of arguments, the end of an
enclosing one, or nothing.
-/

namespace SchemaGraph

/-! ### Paths -/

/-- A character of an identifier, raw or not. -/
def isRustPart (c : Char) : Bool :=
  Text.isIdentifierPart c || c == '#'

/-- A path of at least one word. -/
structure RustPath.Worded (p : RustPath) : Prop where
  ne_nil : p ≠ []
  isRustPart : ∀ word ∈ p, ∀ c ∈ word.toList, isRustPart c = true

namespace RustPath

variable {a : String} {p q : RustPath}

/-- The text of the rest of a path. -/
def continued (p : RustPath) : List Char :=
  if p = [] then [] else ':' :: ':' :: p.render.toList

theorem toList_render_cons (a : String) (p : RustPath) :
    (render (a :: p)).toList = a.toList ++ continued p := by
  cases p with
  | nil => simp [render, continued]
  | cons b p => simp [render, continued, String.intercalate_cons_cons, String.toList_append]

theorem head?_continued : ∀ c ∈ p.continued.head?, SchemaGraph.isRustPart c = false := by
  intro c hc
  rw [continued] at hc
  split at hc
  · contradiction
  · obtain rfl := Option.some.inj hc
    decide

theorem render_inj (hp : p.Worded) (hq : q.Worded) (h : p.render = q.render) : p = q := by
  induction p generalizing q with
  | nil => exact absurd rfl hp.ne_nil
  | cons a p ih =>
      obtain ⟨b, q, rfl⟩ := List.exists_cons_of_ne_nil hq.ne_nil
      have htexts := congrArg String.toList h
      rw [toList_render_cons, toList_render_cons] at htexts
      obtain ⟨hword, hrest⟩ := Text.word_append_inj (hp.isRustPart a List.mem_cons_self)
        (hq.isRustPart b List.mem_cons_self) head?_continued head?_continued htexts
      obtain rfl := String.toList_injective hword
      rw [continued, continued] at hrest
      split at hrest <;> split at hrest
      · simp_all
      · contradiction
      · contradiction
      · rename_i hne hne'
        rw [List.cons.injEq, List.cons.injEq] at hrest
        rw [ih ⟨hne, fun w hw => hp.isRustPart w (List.mem_cons_of_mem _ hw)⟩
          ⟨hne', fun w hw => hq.isRustPart w (List.mem_cons_of_mem _ hw)⟩
          (String.toList_injective hrest.2.2)]

theorem forall_mem_render (h : p.Worded) :
    ∀ c ∈ p.render.toList, (SchemaGraph.isRustPart c || c == ':') = true := by
  obtain ⟨-, h⟩ := h
  induction p with
  | nil => simp [render]
  | cons a p ih =>
      have hrest := ih fun w hw => h w (List.mem_cons_of_mem _ hw)
      rw [toList_render_cons, continued]
      intro c hc
      rcases List.mem_append.1 hc with hc | hc
      · simp [h a List.mem_cons_self c hc]
      · split at hc
        · contradiction
        · rcases List.mem_cons.1 hc with rfl | hc
          · simp
          rcases List.mem_cons.1 hc with rfl | hc
          · simp
          exact hrest c hc

end RustPath

/-! ### Types -/

namespace RustType

variable {t t' : RustType} {x x' : List Char}

def Worded : RustType → Prop
  | .path p => p.Worded
  | .boxed t | .vec t | .option t | .hashSet t => t.Worded
  | .hashMap k t => k.Worded ∧ t.Worded

/-- The path that the text of a type begins with. -/
def opening : RustType → String
  | .path p => p.render
  | .boxed _ => "Box"
  | .vec _ => "Vec"
  | .option _ => "Option"
  | .hashSet _ => "std::collections::HashSet"
  | .hashMap _ _ => "std::collections::HashMap"

/-- The arguments in the text of a type. -/
def arguments : RustType → List Char
  | .path _ => []
  | .boxed t | .vec t | .option t | .hashSet t => '<' :: (t.render.toList ++ ['>'])
  | .hashMap k t => '<' :: (k.render.toList ++ ',' :: ' ' :: (t.render.toList ++ ['>']))

theorem toList_between (before text after : String) :
    (before ++ text ++ after).toList = before.toList ++ (text.toList ++ after.toList) := by
  rw [String.toList_append, String.toList_append, List.append_assoc]

theorem toList_render (t : RustType) : t.render.toList = t.opening.toList ++ t.arguments := by
  cases t with
  | path p => exact (List.append_nil _).symm
  | boxed t => exact (toList_between "Box<" t.render ">").trans (by simp [opening, arguments])
  | vec t => exact (toList_between "Vec<" t.render ">").trans (by simp [opening, arguments])
  | option t => exact (toList_between "Option<" t.render ">").trans (by simp [opening, arguments])
  | hashSet t =>
      exact (toList_between "std::collections::HashSet<" t.render ">").trans
        (by simp [opening, arguments])
  | hashMap k t =>
      refine (toList_between ("std::collections::HashMap<" ++ k.render ++ ", ") t.render ">").trans ?_
      simp [opening, arguments]

theorem forall_mem_opening (h : t.Worded) :
    ∀ c ∈ t.opening.toList, (isRustPart c || c == ':') = true := by
  cases t with
  | path p => exact RustPath.forall_mem_render h
  | _ =>
      rw [opening]
      exact List.all_eq_true.1 (by decide)

/-- What may follow the text of a type. -/
def Ends (x : List Char) : Prop :=
  ∀ c ∈ x.head?, c = '>' ∨ c = ','

theorem ends_close (x : List Char) : Ends ('>' :: x) := fun _ hc => .inl (Option.some.inj hc).symm

theorem ends_comma (x : List Char) : Ends (',' :: x) := fun _ hc => .inr (Option.some.inj hc).symm

theorem not_ends_open (x : List Char) : ¬Ends ('<' :: x) := fun h => by
  simpa using h '<' rfl

theorem head?_arguments_append (hx : Ends x) :
    ∀ c ∈ (t.arguments ++ x).head?, (isRustPart c || c == ':') = false := by
  have hopen : (isRustPart '<' || '<' == ':') = false := by decide
  cases t with
  | path p =>
      intro c hc
      rcases hx c hc with rfl | rfl <;> decide
  | _ =>
      intro c hc
      obtain rfl := Option.some.inj hc
      exact hopen

theorem opening_inj (h : t.Worded) (h' : t'.Worded) (hx : Ends x) (hx' : Ends x')
    (heq : t.render.toList ++ x = t'.render.toList ++ x') :
    t.opening = t'.opening ∧ t.arguments ++ x = t'.arguments ++ x' := by
  rw [toList_render, toList_render, List.append_assoc, List.append_assoc] at heq
  obtain ⟨hword, hrest⟩ := Text.word_append_inj (forall_mem_opening h) (forall_mem_opening h')
    (head?_arguments_append hx) (head?_arguments_append hx') heq
  exact ⟨String.toList_injective hword, hrest⟩

/-- A type and what follows it can be told from the text of both. -/
theorem render_append_inj (h : t.Worded) (h' : t'.Worded) (hx : Ends x) (hx' : Ends x')
    (heq : t.render.toList ++ x = t'.render.toList ++ x') : t = t' ∧ x = x' := by
  -- what follows varies: the arguments of a type are types with the rest of its text after them
  induction t generalizing t' x x' with
  | path p =>
      obtain ⟨hopening, hrest⟩ := opening_inj h h' hx hx' heq
      cases t' with
      | path q => exact ⟨congrArg path (RustPath.render_inj h h' hopening), hrest⟩
      | _ =>
          obtain rfl : x = _ := hrest
          exact absurd hx (not_ends_open _)
  | boxed t ih | vec t ih | option t ih | hashSet t ih =>
      obtain ⟨hopening, hrest⟩ := opening_inj h h' hx hx' heq
      cases t' with
      | path q =>
          obtain rfl : _ = x' := hrest
          exact absurd hx' (not_ends_open _)
      | hashMap k u => simp [opening] at hopening
      | boxed u | vec u | option u | hashSet u =>
          -- off the diagonal the openings differ
          first
          | (simp [opening] at hopening; done)
          | have hu : u.Worded := h'
            obtain ⟨rfl, hx⟩ := ih h hu (ends_close x) (ends_close x')
              (by simpa [arguments] using hrest)
            exact ⟨rfl, (List.cons.inj hx).2⟩
  | hashMap k t ihk iht =>
      obtain ⟨hopening, hrest⟩ := opening_inj h h' hx hx' heq
      cases t' with
      | path q =>
          obtain rfl : _ = x' := hrest
          exact absurd hx' (not_ends_open _)
      | hashMap k' u =>
          obtain ⟨rfl, hvalue⟩ := ihk h.1 h'.1 (ends_comma _) (ends_comma _)
            (by simpa [arguments] using hrest)
          obtain ⟨rfl, hx⟩ := iht h.2 h'.2 (ends_close x) (ends_close x') (by simpa using hvalue)
          exact ⟨rfl, (List.cons.inj hx).2⟩
      | _ => simp [opening] at hopening

/-- No two types made of words have one text. -/
theorem render_inj (h : t.Worded) (h' : t'.Worded) : t.render = t'.render ↔ t = t' := by
  refine ⟨fun heq => ?_, congrArg render⟩
  have hnil : Ends [] := fun _ hc => by contradiction
  exact (render_append_inj h h' hnil hnil (by rw [heq])).1

end RustType

end SchemaGraph
