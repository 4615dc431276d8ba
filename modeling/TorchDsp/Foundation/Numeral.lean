import Mathlib.Algebra.Group.Nat.Defs
import Mathlib.Data.List.Basic

/-! # Texts that end in a decimal numeral

A text followed by the decimal numeral of a number does not always determine
both: digits may belong to either. Two of them are the same exactly when both
parts are, or when one numeral ends in the other and the digits before it are the
end of the other text (`Numeral.append_toString_eq_iff`).
-/

namespace Numeral

/-- The number of decimal digits. -/
def width (number : Nat) : Nat := (Nat.toDigits 10 number).length

/-- A numeral has at least one digit. -/
theorem width_pos (number : Nat) : 0 < width number :=
  Nat.length_toDigits_pos

private theorem lt_pow_width (number : Nat) : number < 10 ^ width number :=
  (Nat.length_toDigits_le_iff (by decide) (width_pos number)).mp (Nat.le_refl _)

private theorem width_lt_iff {number other : Nat} :
    width number < width other ↔ 10 ^ width number ≤ other := by
  have fits : width other ≤ width number ↔ other < 10 ^ width number :=
    Nat.length_toDigits_le_iff (by decide) (width_pos number)
  rw [← Nat.not_le, fits, Nat.not_lt]

private theorem toDigits_injective {number other : Nat}
    (same : Nat.toDigits 10 number = Nat.toDigits 10 other) : number = other := by
  have values := congrArg (fun digits => Nat.ofDigitChars 10 digits 0) same
  rwa [Nat.ofDigitChars_ten_toDigits, Nat.ofDigitChars_ten_toDigits] at values

/-- One numeral after another is the numeral of the number they add up to. -/
theorem toDigits_append {front : Nat} (positive : 0 < front) (number : Nat) :
    Nat.toDigits 10 front ++ Nat.toDigits 10 number =
      Nat.toDigits 10 (front * 10 ^ width number + number) := by
  induction number using Nat.base_induction 10 (by decide) with
  | single digit small =>
      rw [width, Nat.toDigits_append_toDigits (by decide) positive small,
        Nat.toDigits_of_lt_base small, List.length_singleton, Nat.pow_one, Nat.mul_comm]
  | digit leading digit small nonzero ih =>
      have split := Nat.toDigits_append_toDigits (b := 10) (by decide) nonzero small
      have wider : width (10 * leading + digit) = width leading + 1 := by
        rw [width, ← split, List.length_append, Nat.toDigits_of_lt_base small,
          List.length_singleton, width]
      have whole : 0 < front * 10 ^ width leading + leading :=
        Nat.lt_of_lt_of_le nonzero (Nat.le_add_left _ _)
      have value : 10 * (front * 10 ^ width leading + leading) + digit =
          front * 10 ^ width (10 * leading + digit) + (10 * leading + digit) := by
        rw [wider, Nat.pow_succ, ← Nat.mul_assoc]
        omega
      calc Nat.toDigits 10 front ++ Nat.toDigits 10 (10 * leading + digit)
          = (Nat.toDigits 10 front ++ Nat.toDigits 10 leading) ++ Nat.toDigits 10 digit := by
            rw [← split, List.append_assoc]
        _ = Nat.toDigits 10 (10 * (front * 10 ^ width leading + leading) + digit) := by
            rw [ih, Nat.toDigits_append_toDigits (by decide) whole small]
        _ = _ := by rw [value]

/-- The numeral of `number` ends in the numeral of `suffix`, with more digits before
it. -/
def EndsIn (number suffix : Nat) : Prop :=
  10 ^ width suffix ≤ number ∧ number % 10 ^ width suffix = suffix

instance (number suffix : Nat) : Decidable (EndsIn number suffix) :=
  inferInstanceAs (Decidable (_ ∧ _))

/-- The number whose digits stand before those of a suffix. -/
def before (number suffix : Nat) : Nat := number / 10 ^ width suffix

private theorem EndsIn.toDigits_eq {number suffix : Nat} (ends : EndsIn number suffix) :
    Nat.toDigits 10 number =
      Nat.toDigits 10 (before number suffix) ++ Nat.toDigits 10 suffix := by
  have positive : 0 < before number suffix :=
    Nat.div_pos ends.1 (Nat.pow_pos (by decide))
  have whole : before number suffix * 10 ^ width suffix + suffix = number := by
    have parts := Nat.div_add_mod' number (10 ^ width suffix)
    rwa [ends.2] at parts
  rw [toDigits_append positive, whole]

/-- Digits before a numeral make up the numeral of a number that ends in it. -/
theorem endsIn_of_toDigits_eq {number suffix : Nat} {digits : List Char} (some : digits ≠ [])
    (same : Nat.toDigits 10 number = digits ++ Nat.toDigits 10 suffix) :
    EndsIn number suffix ∧ digits = Nat.toDigits 10 (before number suffix) := by
  have longer : 10 ^ width suffix ≤ number := by
    rw [← width_lt_iff, width, width, same, List.length_append]
    have := List.length_pos_iff.mpr some
    omega
  have value : number = 10 ^ width suffix * Nat.ofDigitChars 10 digits 0 + suffix := by
    have values := congrArg (fun digits => Nat.ofDigitChars 10 digits 0) same
    rwa [Nat.ofDigitChars_ten_toDigits, Nat.ofDigitChars_append,
      Nat.ofDigitChars_eq_ofDigitChars_zero, Nat.ofDigitChars_ten_toDigits] at values
  have ends : EndsIn number suffix := by
    refine ⟨longer, ?_⟩
    rw [value, Nat.mul_add_mod, Nat.mod_eq_of_lt (lt_pow_width suffix)]
  refine ⟨ends, ?_⟩
  rw [ends.toDigits_eq] at same
  exact (List.append_cancel_right same).symm

/-- **When a text and a numeral after it are told apart.** -/
theorem append_toDigits_eq_iff {text other : List Char} {i j : Nat} :
    text ++ Nat.toDigits 10 i = other ++ Nat.toDigits 10 j ↔
      text = other ∧ i = j ∨
      EndsIn j i ∧ text = other ++ Nat.toDigits 10 (before j i) ∨
      EndsIn i j ∧ other = text ++ Nat.toDigits 10 (before i j) := by
  constructor
  · intro same
    rcases List.append_eq_append_iff.mp same with ⟨digits, whole, rest⟩ | ⟨digits, whole, rest⟩
    · by_cases none : digits = []
      · rw [none, List.append_nil] at whole
        rw [none, List.nil_append] at rest
        exact Or.inl ⟨whole.symm, toDigits_injective rest⟩
      · obtain ⟨ends, same⟩ := endsIn_of_toDigits_eq none rest
        exact Or.inr (Or.inr ⟨ends, same ▸ whole⟩)
    · by_cases none : digits = []
      · rw [none, List.append_nil] at whole
        rw [none, List.nil_append] at rest
        exact Or.inl ⟨whole, (toDigits_injective rest).symm⟩
      · obtain ⟨ends, same⟩ := endsIn_of_toDigits_eq none rest
        exact Or.inr (Or.inl ⟨ends, same ▸ whole⟩)
  · rintro (⟨rfl, rfl⟩ | ⟨ends, rfl⟩ | ⟨ends, rfl⟩)
    · rfl
    · rw [List.append_assoc, ← ends.toDigits_eq]
    · rw [List.append_assoc, ← ends.toDigits_eq]

/-- A number does not end in itself. -/
theorem not_endsIn_self (number : Nat) : ¬ EndsIn number number :=
  fun ends => Nat.not_lt.mpr ends.1 (lt_pow_width number)

/-- Two texts with numerals behind them agree when they are the same, or when one numeral ends in
the other and its text lacks the digits before it. -/
theorem append_toString_eq_iff {text other : String} {i j : Nat} :
    text ++ toString i = other ++ toString j ↔
      text = other ∧ i = j ∨
      EndsIn j i ∧ text = other ++ toString (before j i) ∨
      EndsIn i j ∧ other = text ++ toString (before i j) := by
  simp only [← String.toList_inj, String.toList_append, Nat.toString_eq_repr, Nat.toList_repr]
  exact append_toDigits_eq_iff

end Numeral
