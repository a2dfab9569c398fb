import Mathlib.Data.List.Forall2

/-!
What a computation that succeeds has gone through, one construct at a time. For a computation over a
list this relates the items to the results, one by one.
-/

namespace SchemaGraph

variable {α β γ ε ε' : Type}

/-! ### Items with different names -/

/-- If no two items have one name, the name of an item tells its position. -/
theorem position_eq_of_name {name : α → String} {as : List α}
    (h : (as.map name).Nodup) {i j : Nat} {a b : α} (ha : as[i]? = some a) (hb : as[j]? = some b)
    (heq : name a = name b) : i = j := by
  have hlt : i < (as.map name).length := by
    rw [List.length_map]
    exact (List.getElem?_eq_some_iff.1 ha).1
  refine (List.getElem?_inj hlt h).1 ?_
  rw [List.getElem?_map, List.getElem?_map, ha, hb, Option.map_some, Option.map_some, heq]

/-! ### Lists in step -/

section InStep

variable {R S : α → β → Prop} {as : List α} {bs : List β}

theorem exists_of_forall₂_left (h : List.Forall₂ R as bs) {i : Nat} {a : α}
    (ha : as[i]? = some a) : ∃ b, bs[i]? = some b ∧ R a b := by
  obtain ⟨hi, rfl⟩ := List.getElem?_eq_some_iff.1 ha
  have hi' : i < bs.length := by rwa [← h.length_eq]
  exact ⟨bs[i], List.getElem?_eq_getElem hi', h.get hi hi'⟩

theorem exists_of_forall₂_right (h : List.Forall₂ R as bs) {b : β} (hb : b ∈ bs) :
    ∃ a ∈ as, R a b := by
  induction h with
  | nil => simp at hb
  | @cons a b' as bs hab _ ih =>
      rcases List.mem_cons.1 hb with rfl | hb
      · exact ⟨a, by simp, hab⟩
      · obtain ⟨a, ha, hab⟩ := ih hb
        exact ⟨a, by simp [ha], hab⟩

theorem exists_forall₂_iff : (∃ bs, List.Forall₂ R as bs) ↔ ∀ a ∈ as, ∃ b, R a b := by
  induction as with
  | nil => simp
  | cons a as ih =>
      rw [List.forall_mem_cons, ← ih]
      constructor
      · rintro ⟨_, hbs⟩
        obtain ⟨b, bs, hb, hbs, -⟩ := List.forall₂_cons_left_iff.1 hbs
        exact ⟨⟨b, hb⟩, bs, hbs⟩
      · rintro ⟨⟨b, hb⟩, bs, hbs⟩
        exact ⟨b :: bs, .cons hb hbs⟩

theorem forall₂_imp_of_mem (h : ∀ a ∈ as, ∀ b, R a b → S a b) (hbs : List.Forall₂ R as bs) :
    List.Forall₂ S as bs := by
  have hmem := (List.forall₂_and_left _ _).2 ⟨fun a ha => ha, hbs⟩
  exact hmem.imp fun a b hab => h a hab.1 b hab.2

theorem forall₂_congr_of_mem (h : ∀ a ∈ as, ∀ b, R a b ↔ S a b) :
    List.Forall₂ R as bs ↔ List.Forall₂ S as bs :=
  ⟨forall₂_imp_of_mem fun a ha b => (h a ha b).1, forall₂_imp_of_mem fun a ha b => (h a ha b).2⟩

/-- What is in step with the results of a function that has one everywhere is in step with the items
themselves. -/
theorem forall₂_of_filterMap {f : γ → Option α} {cs : List γ} (hf : ∀ c ∈ cs, (f c).isSome)
    (h : List.Forall₂ R (cs.filterMap f) bs) :
    List.Forall₂ (fun c b => ∃ a, f c = some a ∧ R a b) cs bs := by
  induction cs generalizing bs with
  | nil =>
      rw [List.filterMap_nil, List.forall₂_nil_left_iff] at h
      rw [h]
      exact .nil
  | cons c cs ih =>
      rw [List.forall_mem_cons] at hf
      obtain ⟨a, ha⟩ := Option.isSome_iff_exists.1 hf.1
      rw [List.filterMap_cons_some ha] at h
      obtain ⟨b, bs, hab, hbs, rfl⟩ := List.forall₂_cons_left_iff.1 h
      exact .cons ⟨a, ha, hab⟩ (ih hf.2 hbs)

end InStep

/-! ### Computations -/

theorem bind_eq_ok {x : Except ε α} {f : α → Except ε β} {b : β} :
    x >>= f = .ok b ↔ ∃ a, x = .ok a ∧ f a = .ok b := by
  cases x with
  | error e => simp [bind, Except.bind]
  | ok a => simp [bind, Except.bind]

theorem bind_eq_error {x : Except ε α} {f : α → Except ε β} {e : ε} :
    x >>= f = .error e ↔ x = .error e ∨ ∃ a, x = .ok a ∧ f a = .error e := by
  cases x with
  | error e' => simp [bind, Except.bind]
  | ok a => simp [bind, Except.bind]

theorem pure_eq_ok {a b : α} : (pure a : Except ε α) = .ok b ↔ a = b :=
  ⟨Except.ok.inj, congrArg _⟩

theorem map_eq_ok {f : α → β} {x : Except ε α} {b : β} :
    x.map f = .ok b ↔ ∃ a, x = .ok a ∧ f a = b := by
  cases x with
  | error e => simp [Except.map]
  | ok a => simp [Except.map]

theorem mapError_eq_ok {f : ε → ε'} {x : Except ε α} {a : α} :
    x.mapError f = .ok a ↔ x = .ok a := by
  cases x with
  | error e => simp [Except.mapError]
  | ok b => simp [Except.mapError]

theorem toOption_eq_some {x : Except ε α} {a : α} : x.toOption = some a ↔ x = .ok a := by
  cases x <;> simp [Except.toOption]

/-- A check that lets the computation go on has found nothing. -/
theorem check_eq_ok {p : Prop} [Decidable p] {e : ε} {x : Except ε α} {a : α} :
    (if p then .error e else x) = .ok a ↔ ¬p ∧ x = .ok a := by
  by_cases h : p <;> simp [h]

theorem mapM_eq_ok {f : α → Except ε β} {as : List α} {bs : List β} :
    as.mapM f = .ok bs ↔ List.Forall₂ (fun a b => f a = .ok b) as bs := by
  induction as generalizing bs with
  | nil =>
      rw [List.mapM_nil, pure_eq_ok, List.forall₂_nil_left_iff, eq_comm]
  | cons a as ih =>
      rw [List.mapM_cons, bind_eq_ok, List.forall₂_cons_left_iff]
      simp only [bind_eq_ok, pure_eq_ok, ih]
      constructor
      · rintro ⟨b, hb, cs, hcs, rfl⟩
        exact ⟨b, cs, hb, hcs, rfl⟩
      · rintro ⟨b, cs, hb, hcs, rfl⟩
        exact ⟨b, hb, cs, hcs, rfl⟩

/-- A computation over a list fails at the first item that it fails for. -/
theorem mapM_eq_error {f : α → Except ε β} {as : List α} {e : ε} (h : as.mapM f = .error e) :
    ∃ before a after, as = before ++ a :: after ∧ (∀ x ∈ before, ∃ b, f x = .ok b) ∧
      f a = .error e := by
  induction as with
  | nil => contradiction
  | cons a as ih =>
      rw [List.mapM_cons] at h
      cases ha : f a with
      | error e' =>
          rw [ha] at h
          obtain rfl := Except.error.inj h
          exact ⟨[], a, as, rfl, by simp, ha⟩
      | ok b =>
          cases has : as.mapM f with
          | ok bs =>
              rw [ha, has] at h
              contradiction
          | error e' =>
              rw [ha, has] at h
              obtain rfl := Except.error.inj h
              obtain ⟨before, a', after, rfl, hbefore, ha'⟩ := ih has
              exact ⟨a :: before, a', after, rfl, List.forall_mem_cons.2 ⟨⟨b, ha⟩, hbefore⟩, ha'⟩

/-- Checks that all items pass. -/
theorem forM_eq_ok {f : α → Except ε Unit} {as : List α} :
    as.forM f = .ok () ↔ ∀ a ∈ as, f a = .ok () := by
  induction as with
  | nil => simp [pure_eq_ok]
  | cons a as ih =>
      rw [List.forM, bind_eq_ok, List.forall_mem_cons, ← ih]
      exact ⟨fun ⟨_, ha, has⟩ => ⟨ha, has⟩, fun ⟨ha, has⟩ => ⟨(), ha, has⟩⟩

theorem optionMapM_eq_ok {f : α → Except ε β} {a : Option α} {b : Option β} :
    a.mapM f = .ok b ↔ Option.Rel (fun a b => f a = .ok b) a b := by
  cases a with
  | none =>
      refine pure_eq_ok.trans ⟨?_, fun h => by cases h; rfl⟩
      rintro rfl
      exact .none
  | some a =>
      refine map_eq_ok.trans ⟨?_, fun h => ?_⟩
      · rintro ⟨b, hb, rfl⟩
        exact .some hb
      · cases h with
        | some hb => exact ⟨_, hb, rfl⟩

/-- If what succeeds for each item succeeds for the item that stands for it, the same holds of the
list of them. -/
theorem mapM_map_ok {α' β' : Type} {f : α → Except ε β} {f' : α' → Except ε' β'} {g : α → α'}
    {k : β → β'} {as : List α} {bs : List β}
    (hf : ∀ a ∈ as, ∀ b, f a = .ok b → f' (g a) = .ok (k b)) (h : as.mapM f = .ok bs) :
    (as.map g).mapM f' = .ok (bs.map k) := by
  refine mapM_eq_ok.2 (List.forall₂_map_left_iff.2 (List.forall₂_map_right_iff.2 ?_))
  exact forall₂_imp_of_mem hf (mapM_eq_ok.1 h)

/-! ### Computations that agree -/

theorem mapM_congr {f g : α → Except ε β} {as : List α} (h : ∀ a ∈ as, f a = g a) :
    as.mapM f = as.mapM g := by
  induction as with
  | nil => rfl
  | cons a as ih =>
      rw [List.forall_mem_cons] at h
      rw [List.mapM_cons, List.mapM_cons, h.1, ih h.2]

theorem foldlM_congr {f g : β → α → Except ε β} {as : List α} (h : ∀ b, ∀ a ∈ as, f b a = g b a)
    (b : β) : as.foldlM f b = as.foldlM g b := by
  induction as generalizing b with
  | nil => rfl
  | cons a as ih =>
      rw [List.foldlM_cons, List.foldlM_cons, h b a (by simp)]
      exact bind_congr fun c => ih (fun b a ha => h b a (List.mem_cons_of_mem _ ha)) c

end SchemaGraph
