import Mathlib.Data.List.Basic
import Mathlib.Data.List.Induction
import ReleaseInstaller.Text.Ascii

/-! Decimal numerals. Digits without a leading zero are the numeral of their value, and every numeral is
written so. -/
namespace ReleaseInstaller.Text

variable {digits : List Char} {c : Char} {n : Nat}

theorem isDigit_eq (c : Char) : isDigit c = c.isDigit := by
  simp only [isDigit,Char.isDigit,ge_iff_le]
  rfl

theorem isDigit_of_mem_toDigits (member : c ∈ Nat.toDigits 10 n) : isDigit c = true := by
  rw [isDigit_eq]
  exact Nat.isDigit_of_mem_toDigits (by decide) (by decide) member

theorem digitsValue_toDigits (n : Nat) : digitsValue (Nat.toDigits 10 n) = n := by
  have same : digitsValue (Nat.toDigits 10 n) = Nat.ofDigitChars 10 (Nat.toDigits 10 n) 0 := by
    simp only [digitsValue,Nat.ofDigitChars,digitValue,Nat.mul_comm]
  rw [same]
  exact Nat.ofDigitChars_toDigits (by decide) (by decide)

/-- Only zero starts with a zero. -/
theorem head?_toDigits (positive : 0 < n) : (Nat.toDigits 10 n).head? ≠ some '0' := by
  induction n using Nat.strongRecOn with
  | ind n ih =>
  rw [Nat.toDigits_eq_if (by decide)]
  split
  · next single =>
    have digits : ∀ m : Fin 10, 0 < m.val → [m.val.digitChar].head? ≠ some '0' := by decide
    exact digits ⟨n,single⟩ positive
  · next longer =>
    have front := ih (n / 10) (by omega) (by omega)
    rwa [List.head?_append_of_ne_nil _ Nat.toDigits_ne_nil]

theorem hasLeadingZero_of_head (first : digits.head? ≠ some '0') : hasLeadingZero digits = false := by
  unfold hasLeadingZero
  split
  · simp at first
  · rfl

theorem hasLeadingZero_toDigits (n : Nat) : hasLeadingZero (Nat.toDigits 10 n) = false := by
  rcases Nat.eq_zero_or_pos n with rfl | positive
  · rfl
  · exact hasLeadingZero_of_head (head?_toDigits positive)

theorem digitValue_lt (digit : isDigit c = true) : digitValue c < 10 ∧ (digitValue c).digitChar = c := by
  simp only [isDigit,Bool.and_eq_true,decide_eq_true_eq] at digit
  have low : '0'.toNat ≤ c.toNat := digit.1
  have high : c.toNat ≤ '9'.toNat := digit.2
  have nine : '9'.toNat = '0'.toNat + 9 := rfl
  have below : digitValue c < 10 := by
    rw [digitValue]
    omega
  refine ⟨below,Char.toNat_inj.mp ?_⟩
  rw [Nat.toNat_digitChar_of_lt_ten below,digitValue]
  have zero : '0'.toNat = 48 := rfl
  omega

/-- Digits without a leading zero are how their value is written. -/
theorem toDigits_digitsValue (some : digits ≠ []) (all : ∀ c ∈ digits, isDigit c = true)
    (plain : hasLeadingZero digits = false) : Nat.toDigits 10 (digitsValue digits) = digits := by
  induction digits using List.reverseRecOn with
  | nil => contradiction
  | append_singleton front c ih =>
    obtain ⟨below,digit⟩ := digitValue_lt (all c (by simp))
    have value : digitsValue (front ++ [c]) = 10 * digitsValue front + digitValue c := by
      simp [digitsValue,Nat.mul_comm]
    cases front with
    | nil =>
      have single : digitsValue [c] = digitValue c := by simp [digitsValue]
      rw [List.nil_append,single,Nat.toDigits_of_lt_base below,digit]
    | cons d front =>
      have first : d ≠ '0' := by
        rintro rfl
        cases front <;> simp [hasLeadingZero] at plain
      have written := ih (by simp) (fun e member => all e (List.mem_append_left _ member))
        (hasLeadingZero_of_head (by simpa using first))
      -- a value of zero would be written as a zero
      have positive : 0 < digitsValue (d :: front) := by
        rw [Nat.pos_iff_ne_zero]
        intro zero
        rw [zero,Nat.toDigits_zero] at written
        exact first (List.cons.inj written).1.symm
      rw [value,← Nat.toDigits_append_toDigits (by decide) positive below,written,
        Nat.toDigits_of_lt_base below,digit]

end ReleaseInstaller.Text
