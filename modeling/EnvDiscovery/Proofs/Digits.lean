import EnvDiscovery.Text.Digit
import EnvDiscovery.Text.Blank
import Mathlib.Data.List.TakeWhile

/-!
**Laws of decimal digits.**

A number that is followed by something other than a digit can be read back from its digits, with or
without leading zeros. The reader takes digits as long as they come, so the laws speak about the
list that follows.

Main definitions:
* `Text.HeadNot` — a list that does not begin with a character of some class.

Main results:
* `Text.takeWhile_append`, `Text.dropWhile_append` — a run of a class in front of something else;
* `Text.valueOfDigits_decimalChars`, `Text.valueOfDigits_decimalPadded` — the value of written
  digits;
* `Text.decimalChars_no_leading_zero` — only zero begins with a zero.
-/

namespace EnvDiscovery.Text

/-- The list does not begin with an element that satisfies `p`. -/
def HeadNot {α : Type} (p : α → Bool) (xs : List α) : Prop :=
  ∀ x ∈ xs.head?, p x = false

section Runs

variable {α : Type} {p : α → Bool} {run rest : List α}

@[simp] theorem headNot_nil : HeadNot p [] := by simp [HeadNot]

@[simp] theorem headNot_cons {x : α} {xs : List α} : HeadNot p (x :: xs) ↔ p x = false := by
  simp [HeadNot]

theorem takeWhile_append (hrun : ∀ x ∈ run, p x = true) (hrest : HeadNot p rest) :
    (run ++ rest).takeWhile p = run := by
  rw [List.takeWhile_append_of_pos hrun]
  cases rest with
  | nil => simp
  | cons x rest => simp [headNot_cons.1 hrest]

theorem dropWhile_append (hrun : ∀ x ∈ run, p x = true) (hrest : HeadNot p rest) :
    (run ++ rest).dropWhile p = rest := by
  rw [List.dropWhile_append_of_pos hrun]
  cases rest with
  | nil => rfl
  | cons x rest => simp [headNot_cons.1 hrest]

theorem dropWhile_of_headNot (hrest : HeadNot p rest) : rest.dropWhile p = rest := by
  have hnone : ∀ x ∈ ([] : List α), p x = true := by simp
  exact dropWhile_append hnone hrest

end Runs

/-! ### Digits of a number -/

theorem isDigit_decimalChars {n : Nat} {c : Char} (h : c ∈ decimalChars n) : c.isDigit = true :=
  Nat.isDigit_of_mem_toDigits (by decide) (by decide) h

theorem decimalChars_ne_nil (n : Nat) : decimalChars n ≠ [] := Nat.toDigits_ne_nil

@[simp] theorem valueOfDigits_decimalChars (n : Nat) : valueOfDigits (decimalChars n) = n :=
  Nat.ofDigitChars_ten_toDigits

theorem isDigit_ne {c mark : Char} (hc : c.isDigit = true) (hmark : mark.isDigit = false) :
    c ≠ mark := by
  rintro rfl
  simp [hc] at hmark

theorem toNat_of_isDigit {c : Char} (h : c.isDigit = true) : 48 ≤ c.toNat ∧ c.toNat ≤ 57 := by
  simpa [Char.isDigit, UInt32.le_iff_toNat_le] using h

theorem not_isBlank_of_isDigit {c : Char} (h : c.isDigit = true) : isBlank c = false := by
  have hc := toNat_of_isDigit h
  simp [isBlank, blankRanges]
  omega

/-- Only the number zero is written with a zero in front. -/
theorem decimalChars_no_leading_zero (n : Nat) :
    (decimalChars n).length = 1 ∨ (decimalChars n).head? ≠ some '0' := by
  induction n using Nat.strong_induction_on with
  | _ n ih =>
      by_cases hn : n < 10
      · exact Or.inl (by simp [decimalChars, Nat.toDigits_of_lt_base hn])
      · right
        have hsplit : decimalChars n = decimalChars (n / 10) ++ [(n % 10).digitChar] := by
          rw [decimalChars, Nat.toDigits_of_base_le (by decide) (by omega)]
          rfl
        rw [hsplit, List.head?_append, List.head?_eq_some_head (decimalChars_ne_nil _),
          Option.some_or, ← List.head?_eq_some_head]
        rcases ih (n / 10) (by omega) with hone | hne
        · -- a single digit in front is not zero, since `n / 10` is positive
          obtain ⟨c, hc⟩ := List.length_eq_one_iff.1 hone
          intro hzero
          have hvalue := valueOfDigits_decimalChars (n / 10)
          obtain rfl : c = '0' := by simpa [hc] using hzero
          rw [hc] at hvalue
          have : valueOfDigits ['0'] = 0 := rfl
          omega
        · exact hne

/-! ### Padded digits -/

theorem toList_decimalPadded (width n : Nat) :
    (decimalPadded width n).toList =
      List.replicate (width - (decimalChars n).length) '0' ++ decimalChars n := by
  simp [decimalPadded]

theorem isDigit_decimalPadded {width n : Nat} {c : Char} (h : c ∈ (decimalPadded width n).toList) :
    c.isDigit = true := by
  rw [toList_decimalPadded, List.mem_append] at h
  rcases h with h | h
  · obtain rfl : c = '0' := List.eq_of_mem_replicate h
    decide
  · exact isDigit_decimalChars h

@[simp] theorem valueOfDigits_decimalPadded (width n : Nat) :
    valueOfDigits (decimalPadded width n).toList = n := by
  rw [toList_decimalPadded, valueOfDigits, Nat.ofDigitChars_append, Nat.ofDigitChars_replicate_zero,
    Nat.mul_zero]
  exact valueOfDigits_decimalChars n

/-- A number that fits is written with exactly the given number of digits. -/
theorem length_decimalPadded {width n : Nat} (hwidth : 0 < width) (hn : n < Nat.pow 10 width) :
    (decimalPadded width n).toList.length = width := by
  have hle : (decimalChars n).length ≤ width := (Nat.length_toDigits_le_iff (by decide) hwidth).2 hn
  rw [toList_decimalPadded, List.length_append, List.length_replicate]
  omega

/-- A padded number has at least one digit. -/
theorem decimalPadded_ne_nil (width n : Nat) : (decimalPadded width n).toList ≠ [] := by
  simp [toList_decimalPadded, decimalChars_ne_nil]

end EnvDiscovery.Text
