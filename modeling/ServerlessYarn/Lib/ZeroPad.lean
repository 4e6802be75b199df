/-
  Decimal numbers padded with zeros.

  `zeroPad width n` writes `n` with at least `width` digits, as `%0<width>d` and
  `zfill` do.

  * `ofDigitChars_zeroPad`: the number can be read back;
  * `zeroPad_injective`: so that distinct numbers have distinct texts.
-/
import Mathlib.Data.Nat.Basic
import Mathlib.Logic.Function.Basic

/-- `n` in decimal, with zeros in front up to the width. -/
def zeroPad (width n : ℕ) : List Char :=
  List.replicate (width - (Nat.toDigits 10 n).length) '0' ++ Nat.toDigits 10 n

/-- The padding is not part of the number. -/
theorem ofDigitChars_zeroPad (width n : ℕ) : Nat.ofDigitChars 10 (zeroPad width n) 0 = n := by
  unfold zeroPad
  rw [Nat.ofDigitChars_append, Nat.ofDigitChars_replicate_zero, Nat.mul_zero,
    Nat.ofDigitChars_ten_toDigits]

theorem zeroPad_injective (width : ℕ) : Function.Injective (zeroPad width) := by
  intro m n h
  rw [← ofDigitChars_zeroPad width m, h, ofDigitChars_zeroPad]

theorem isDigit_of_mem_zeroPad {width n : ℕ} {c : Char} (h : c ∈ zeroPad width n) : c.isDigit := by
  rcases List.mem_append.1 h with hzero | hdigit
  · rw [List.eq_of_mem_replicate hzero]
    rfl
  · exact Nat.isDigit_of_mem_toDigits (by decide) (by decide) hdigit

theorem zeroPad_ne_nil (width n : ℕ) : zeroPad width n ≠ [] := by
  intro h
  exact Nat.toDigits_ne_nil (List.append_eq_nil_iff.1 h).2
