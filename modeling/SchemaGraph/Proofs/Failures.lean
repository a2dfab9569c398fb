import SchemaGraph.Proofs.Success

/-!
The errors that a computation can end with, one construct at a time. That a computation fails only
in certain ways says nothing about whether it fails.
-/

namespace SchemaGraph

variable {α β ε : Type}

/-- If the computation fails, then with an error of this kind. -/
def Fails (P : ε → Prop) (x : Except ε α) : Prop :=
  ∀ e, x = .error e → P e

namespace Fails

variable {P Q : ε → Prop} {x : Except ε α}

theorem imp (h : Fails P x) (hPQ : ∀ e, P e → Q e) : Fails Q x :=
  fun e he => hPQ e (h e he)

theorem ok (a : α) : Fails P (.ok a : Except ε α) :=
  nofun

theorem pure (a : α) : Fails P (Pure.pure a : Except ε α) :=
  nofun

theorem error {e : ε} (h : P e) : Fails P (.error e : Except ε α) := by
  rintro _ ⟨⟩
  exact h

/-- What comes after a step knows what the step came to. -/
theorem bind {f : α → Except ε β} (hx : Fails P x) (hf : ∀ a, x = .ok a → Fails P (f a)) :
    Fails P (x >>= f) := by
  intro e he
  rcases bind_eq_error.1 he with he | ⟨a, ha, he⟩
  · exact hx e he
  · exact hf a ha e he

theorem map {f : α → β} (h : Fails P x) : Fails P (f <$> x) := by
  cases x with
  | error e => exact error (h e rfl)
  | ok a => exact ok (f a)

theorem mapError {ε' : Type} {P : ε' → Prop} {f : ε → ε'} (h : ∀ e, P (f e)) :
    Fails P (x.mapError f) := by
  cases x with
  | error e => exact error (h e)
  | ok a => exact ok a

theorem optionMapM {f : α → Except ε β} {a : Option α} (h : ∀ x ∈ a, Fails P (f x)) :
    Fails P (a.mapM f) := by
  cases a with
  | none => exact pure none
  | some x => exact map (h x rfl)

theorem mapM {f : α → Except ε β} {as : List α} (h : ∀ a ∈ as, Fails P (f a)) :
    Fails P (as.mapM f) := by
  intro e he
  obtain ⟨before, a, after, rfl, -, ha⟩ := mapM_eq_error he
  exact h a (by simp) e ha

/-- A fold fails in a step, and knows what it has come to before. -/
theorem foldlM {f : β → α → Except ε β} {as : List α} {b : β}
    (h : ∀ (before : List α) a after c, as = before ++ a :: after → before.foldlM f b = .ok c →
      Fails P (f c a)) : Fails P (as.foldlM f b) := by
  induction as generalizing b with
  | nil => exact pure b
  | cons a as ih =>
      rw [List.foldlM_cons]
      refine bind (h [] a as b rfl rfl) fun c hc => ih fun before a' after d has hd => ?_
      refine h (a :: before) a' after d (by rw [has]; rfl) ?_
      rw [List.foldlM_cons, hc]
      exact hd

end Fails

end SchemaGraph
