import SchemaGraph.Decimal.Integer

/-!
Integers and their decimals. The digits of a natural number spell it and do not begin with a zero
that could be left out; a text is read as an integer if and only if it is digits with a sign or
without one, and the integer is the one they spell.
-/

namespace SchemaGraph.Decimal

/-! ### Digits -/

theorem digits_ne_nil (n : Nat) : n.repr.toList ≠ [] := by
  rw [Nat.toList_repr]
  exact Nat.toDigits_ne_nil

theorem isDigit_of_mem_digits {n : Nat} {c : Char} (h : c ∈ n.repr.toList) : c.isDigit = true := by
  rw [Nat.toList_repr] at h
  exact Nat.isDigit_of_mem_toDigits (by decide) (by decide) h

theorem ofDigitChars_digits (n : Nat) : Nat.ofDigitChars 10 n.repr.toList 0 = n := by
  rw [Nat.toList_repr]
  exact Nat.ofDigitChars_toDigits (by decide) (by decide)

theorem head?_digits {n : Nat} (h : 0 < n) : n.repr.toList.head? ≠ some '0' := by
  rw [Nat.toList_repr]
  induction n using Nat.strongRecOn with
  | ind n ih =>
      rcases Nat.lt_or_ge n 10 with hlt | hge
      · have hsmall : ∀ d < 10, 0 < d → Nat.digitChar d ≠ '0' := by decide
        rw [Nat.toDigits_of_lt_base hlt]
        simpa using hsmall n hlt h
      -- The first digit is that of the number without its last digit.
      · obtain ⟨c, cs, hcons⟩ : ∃ c cs, Nat.toDigits 10 (n / 10) = c :: cs :=
          List.exists_cons_of_ne_nil Nat.toDigits_ne_nil
        have hfirst := ih (n / 10) (by omega) (by omega)
        rw [Nat.toDigits_of_base_le (by decide) hge, hcons]
        rwa [hcons] at hfirst

theorem digits_ne_zero_cons (n : Nat) (c : Char) (cs : List Char) :
    n.repr.toList ≠ '0' :: c :: cs := by
  intro h
  rcases Nat.eq_zero_or_pos n with rfl | hpos
  · have hzero : (Nat.repr 0).toList = ['0'] := by decide
    simp [hzero] at h
  · exact head?_digits hpos (by rw [h]; rfl)

/-! ### Integers -/

/-- Digits with a sign in front of them or without one, and the integer that they spell. -/
def Spells (s : List Char) (n : Int) : Prop :=
  ∃ digits : List Char, digits ≠ [] ∧ (∀ c ∈ digits, c.isDigit = true) ∧
    ((s = digits ∨ s = '+' :: digits) ∧ n = Nat.ofDigitChars 10 digits 0 ∨
      s = '-' :: digits ∧ n = -(Nat.ofDigitChars 10 digits 0 : Int))

theorem valueOfDigits_eq (acc : Nat) (s : List Char) :
    valueOfDigits acc s = Nat.ofDigitChars 10 s acc := by
  simp only [valueOfDigits, Nat.ofDigitChars_eq_foldl, digitValue, Nat.mul_comm]

theorem valueOfDigits_digits (n : Nat) : valueOfDigits 0 n.repr.toList = n := by
  rw [valueOfDigits_eq, ofDigitChars_digits]

theorem readNat?_eq_some {s : List Char} {n : Nat} : readNat? s = some n ↔
    s ≠ [] ∧ (∀ c ∈ s, c.isDigit = true) ∧ n = Nat.ofDigitChars 10 s 0 := by
  rw [readNat?, Option.ite_none_right_eq_some, List.all_eq_true, valueOfDigits_eq, and_assoc,
    Option.some.injEq, eq_comm (b := n)]

theorem readNat?_digits (n : Nat) : readNat? n.repr.toList = some n :=
  readNat?_eq_some.2 ⟨digits_ne_nil n, fun _ => isDigit_of_mem_digits, (ofDigitChars_digits n).symm⟩

theorem readInt?_eq_some {s : List Char} {n : Int} : readInt? s = some n ↔ Spells s n := by
  constructor
  · intro h
    unfold readInt? at h
    split at h
    all_goals obtain ⟨m, hm, rfl⟩ := Option.map_eq_some_iff.1 h
    · obtain ⟨k, hk, heq⟩ := Option.bind_eq_some_iff.1 hm
      obtain rfl := Option.some.inj heq
      obtain ⟨hne, hdigits, rfl⟩ := readNat?_eq_some.1 hk
      exact ⟨_, hne, hdigits, .inr ⟨rfl, rfl⟩⟩
    all_goals obtain ⟨hne, hdigits, rfl⟩ := readNat?_eq_some.1 hm
    · exact ⟨_, hne, hdigits, .inl ⟨.inr rfl, rfl⟩⟩
    · exact ⟨_, hne, hdigits, .inl ⟨.inl rfl, rfl⟩⟩
  · rintro ⟨digits, hne, hdigits, ⟨rfl | rfl, rfl⟩ | ⟨rfl, rfl⟩⟩
    -- A digit in front is no sign.
    · have hread := readNat?_eq_some.2 ⟨hne, hdigits, rfl⟩
      unfold readInt?
      split
      · exact absurd (hdigits _ List.mem_cons_self) (by decide)
      · exact absurd (hdigits _ List.mem_cons_self) (by decide)
      · rw [hread]
        rfl
    · rw [readInt?, readNat?_eq_some.2 ⟨hne, hdigits, rfl⟩]
      rfl
    · rw [readInt?, readNat?_eq_some.2 ⟨hne, hdigits, rfl⟩]
      rfl

/-- An integer that is not negative is written as its digits, and another as those of its absolute
value behind a minus sign. -/
theorem toList_toString (n : Int) : (toString n).toList =
    if 0 ≤ n then n.toNat.repr.toList else '-' :: (-n).toNat.repr.toList := by
  rw [Int.toString_eq_repr, Int.repr_eq_if]
  split
  · rfl
  · rw [String.toList_append]
    rfl

/-- An integer is written as a decimal that spells it. -/
theorem spells_toString (n : Int) : Spells (toString n).toList n := by
  have hdigits : ∀ m : Nat, ∀ c ∈ m.repr.toList, c.isDigit = true := fun _ _ =>
    isDigit_of_mem_digits
  rw [toList_toString]
  split
  · exact ⟨_, digits_ne_nil _, hdigits _, .inl ⟨.inl rfl, by rw [ofDigitChars_digits]; omega⟩⟩
  · exact ⟨_, digits_ne_nil _, hdigits _, .inr ⟨rfl, by rw [ofDigitChars_digits]; omega⟩⟩

end SchemaGraph.Decimal
