/-
  ServerlessYARN model — texts as integers, as Python's `int` reads them.

  A text is its list of characters.  Blanks around the number, single underscores in it and a
  sign are read too.  The decimal digits of the Unicode database and the limit on the number of
  digits are a parameter.

  * `readInt_digits`, `readInt_toDigits`: `int` reads the digits of ASCII;
  * `readInt_ne_ok`: what `int` does not read.
-/
import ServerlessYarn.Lib.Trim
import ServerlessYarn.Resources

namespace ServerlessYarn

open Trim

/-! ## Blanks -/

namespace Tasks

/-- `c.isspace()`. -/
def isSpace (c : Char) : Bool :=
  let n := c.toNat
  (9 ≤ n && n ≤ 13) || (28 ≤ n && n ≤ 32) || (0x2000 ≤ n && n ≤ 0x200a) ||
    [0x85, 0xa0, 0x1680, 0x2028, 0x2029, 0x202f, 0x205f, 0x3000].contains n

end Tasks

/-- `s.strip()`. -/
def strip (s : List Char) : List Char := trim Tasks.isSpace s

/-! ## Integers -/

/-- What `int` depends on: the decimal digits of Unicode, and the largest number of
    digits that it accepts, if there is one. -/
structure IntReader where
  decimal : Char → Option ℕ
  max_str_digits : Option ℕ

/-- Digits, with single underscores between them; `digit` tells whether the last
    character was a digit. -/
def readDigits (decimal : Char → Option ℕ) : ℕ → Bool → List Char → Option ℕ
  | n, digit, [] => if digit then some n else none
  | n, digit, c :: cs =>
    if c = '_' then if digit then readDigits decimal n false cs else none
    else (decimal c).bind fun d => readDigits decimal (10 * n + d) true cs

/-- An integer without a sign. -/
def readUnsigned (r : IntReader) (cs : List Char) : Py ℤ :=
  if ∃ m ∈ r.max_str_digits, m < (cs.filter (· ≠ '_')).length then .error .valueError
  else match readDigits r.decimal 0 false cs with
    | some n => .ok n
    | none => .error .valueError

/-- `int(s)`. -/
def readInt (r : IntReader) (s : List Char) : Py ℤ :=
  match strip s with
  | [] => .error .valueError
  | c :: cs =>
    if c = '-' then (readUnsigned r cs).map Neg.neg
    else if c = '+' then readUnsigned r cs
    else readUnsigned r (c :: cs)

/-- The digits of ASCII. -/
def asciiDecimal (c : Char) : Option ℕ := if c.isDigit then some (c.toNat - 48) else none

/-- The settings of a recent interpreter, for texts in ASCII. -/
def asciiReader : IntReader := ⟨asciiDecimal, some 4300⟩

theorem isSpace_of_isDigit {c : Char} (hc : c.isDigit = true) : Tasks.isSpace c = false := by
  have hrange : 48 ≤ c.toNat ∧ c.toNat ≤ 57 := by
    simp only [Char.isDigit, Bool.and_eq_true, decide_eq_true_eq] at hc
    exact ⟨hc.1, hc.2⟩
  simp [Tasks.isSpace]
  omega

theorem ne_of_isDigit {c : Char} (hc : c.isDigit = true) : c ≠ '_' ∧ c ≠ '-' ∧ c ≠ '+' := by
  refine ⟨?_, ?_, ?_⟩ <;> rintro rfl <;> exact absurd hc (by decide)

theorem readDigits_digits (decimal : Char → Option ℕ) {s : List Char} (n : ℕ) (digit : Bool)
    (hs : ∀ c ∈ s, c ≠ '_' ∧ ∃ d, decimal c = some d) (hne : s ≠ [] ∨ digit = true) :
    ∃ m, readDigits decimal n digit s = some m := by
  induction s generalizing n digit with
  | nil =>
    rw [hne.resolve_left (fun h => h rfl)]
    exact ⟨n, rfl⟩
  | cons c s ih =>
    obtain ⟨hc, d, hd⟩ := hs c List.mem_cons_self
    obtain ⟨m, hm⟩ := ih (10 * n + d) true (fun c hc => hs c (List.mem_cons_of_mem _ hc)) (.inr rfl)
    refine ⟨m, ?_⟩
    rw [readDigits, if_neg hc, hd]
    exact hm

/-- `int` of a text of ASCII digits that is not too long, read as `m`. -/
theorem readInt_of_readDigits {r : IntReader} {s : List Char} (hs : ∀ c ∈ s, c.isDigit = true)
    {m : ℕ} (hm : readDigits r.decimal 0 false s = some m)
    (hlength : ∀ m ∈ r.max_str_digits, s.length ≤ m) : readInt r s = .ok m := by
  have hstrip : strip s = s := by
    refine trim_eq_self_iff.2 ⟨fun c hc => ?_, fun c hc => ?_⟩
    · exact isSpace_of_isDigit (hs c (List.mem_of_mem_head? hc))
    · exact isSpace_of_isDigit (hs c (List.mem_of_mem_getLast? hc))
  have hunsigned : readUnsigned r s = .ok (m : ℤ) := by
    unfold readUnsigned
    rw [if_neg, hm]
    rintro ⟨bound, hbound, hlt⟩
    have hfilter := List.length_filter_le (· ≠ '_') s
    have hle := hlength bound hbound
    omega
  unfold readInt
  rw [hstrip]
  cases s with
  | nil => cases hm
  | cons c cs =>
    obtain ⟨-, hminus, hplus⟩ := ne_of_isDigit (hs c List.mem_cons_self)
    exact (if_neg hminus).trans ((if_neg hplus).trans hunsigned)

/-- `int` reads a text of ASCII digits that is not too long. -/
theorem readInt_digits {r : IntReader} {s : List Char} (hs : ∀ c ∈ s, c.isDigit = true)
    (hne : s ≠ []) (hdecimal : ∀ c, c.isDigit = true → ∃ d, r.decimal c = some d)
    (hlength : ∀ m ∈ r.max_str_digits, s.length ≤ m) : ∃ n, readInt r s = .ok n := by
  obtain ⟨m, hm⟩ := readDigits_digits r.decimal 0 false
    (fun c hc => ⟨(ne_of_isDigit (hs c hc)).1, hdecimal c (hs c hc)⟩) (.inl hne)
  exact ⟨m, readInt_of_readDigits hs hm hlength⟩

theorem readDigits_congr {decimal decimal' : Char → Option ℕ} {s : List Char}
    (h : ∀ c ∈ s, decimal c = decimal' c) {n : ℕ} {digit : Bool} :
    readDigits decimal n digit s = readDigits decimal' n digit s := by
  induction s generalizing n digit with
  | nil => rfl
  | cons c s ih =>
    have hrest : ∀ {n digit}, readDigits decimal n digit s = readDigits decimal' n digit s :=
      ih fun c hc => h c (List.mem_cons_of_mem _ hc)
    simp only [readDigits, h c List.mem_cons_self, hrest]

/-- The value of ASCII digits. -/
theorem readDigits_ascii {s : List Char} (hs : ∀ c ∈ s, c.isDigit = true) (n : ℕ) (digit : Bool)
    (hne : s ≠ [] ∨ digit = true) :
    readDigits asciiDecimal n digit s = some (Nat.ofDigitChars 10 s n) := by
  induction s generalizing n digit with
  | nil =>
    rw [hne.resolve_left (fun h => h rfl)]
    rfl
  | cons c s ih =>
    have hc := hs c List.mem_cons_self
    have hrest := ih (fun c hc => hs c (List.mem_cons_of_mem _ hc)) (10 * n + (c.toNat - 48)) true (.inr rfl)
    rw [readDigits, if_neg (ne_of_isDigit hc).1, asciiDecimal, if_pos hc]
    exact hrest

/-- `int(str(n))`, unless the text is too long. -/
theorem readInt_toDigits {n : ℕ} (hlength : (Nat.toDigits 10 n).length ≤ 4300) :
    readInt asciiReader (Nat.toDigits 10 n) = .ok n := by
  have hdigits : ∀ c ∈ Nat.toDigits 10 n, c.isDigit = true :=
    fun c hc => Nat.isDigit_of_mem_toDigits (by decide) (by decide) hc
  have hread := readDigits_ascii hdigits 0 false (.inl Nat.toDigits_ne_nil)
  rw [Nat.ofDigitChars_ten_toDigits] at hread
  refine readInt_of_readDigits hdigits hread fun m hm => ?_
  obtain rfl := Option.some.inj hm
  exact hlength

theorem readDigits_eq_none {decimal : Char → Option ℕ} {c : Char} (hc : c ≠ '_') (hd : decimal c = none)
    {s : List Char} (hmem : c ∈ s) (n : ℕ) (digit : Bool) : readDigits decimal n digit s = none := by
  induction s generalizing n digit with
  | nil => cases hmem
  | cons a s ih =>
    rcases List.mem_cons.1 hmem with rfl | hmem
    · rw [readDigits, if_neg hc, hd]
      rfl
    · rw [readDigits]
      split_ifs
      · exact ih hmem n false
      · rfl
      · cases decimal a with
        | none => rfl
        | some d => exact ih hmem (10 * n + d) true

/-- `int` reads no text with a character that is no digit, no sign, no underscore and no space. -/
theorem readInt_ne_ok {r : IntReader} {c : Char} (hc : c ∉ ['_', '-', '+'])
    (hspace : Tasks.isSpace c = false) (hd : r.decimal c = none) {s : List Char} (hmem : c ∈ s) (n : ℤ) :
    readInt r s ≠ .ok n := by
  have hstrip : c ∈ strip s := by
    rw [← List.count_pos_iff, strip, count_trim hspace]
    exact List.count_pos_iff.2 hmem
  simp only [List.mem_cons, List.not_mem_nil, or_false, not_or] at hc
  have hunsigned : ∀ cs, c ∈ cs → readUnsigned r cs = .error .valueError := by
    intro cs hcs
    unfold readUnsigned
    split_ifs
    · rfl
    · rw [readDigits_eq_none hc.1 hd hcs]
  unfold readInt
  cases hs : strip s with
  | nil => simp
  | cons a cs =>
    rw [hs] at hstrip
    have htail : a ≠ c → readUnsigned r cs = .error .valueError :=
      fun hne => hunsigned cs ((List.mem_cons.1 hstrip).resolve_left (Ne.symm hne))
    simp only [hunsigned (a :: cs) hstrip]
    split_ifs with hminus hplus
    · rw [htail (by rintro rfl; exact hc.2.1 hminus)]
      simp [Except.map]
    · rw [htail (by rintro rfl; exact hc.2.2 hplus)]
      simp
    · simp

/-! ## Decimal digits -/

/-- The decimal digits of Unicode; those of ASCII are among them. -/
structure Decimals where
  value : Char → Option ℕ
  ascii : ∀ c, c.isDigit = true → value c = asciiDecimal c

namespace Decimals

/-- `int`, without a limit on the digits. -/
def reader (decimals : Decimals) : IntReader := ⟨decimals.value, none⟩

/-- `int(str(n))`. -/
theorem readInt_toDigits (decimals : Decimals) (n : ℕ) :
    readInt decimals.reader (Nat.toDigits 10 n) = .ok n := by
  have hdigits : ∀ c ∈ Nat.toDigits 10 n, c.isDigit = true :=
    fun c hc => Nat.isDigit_of_mem_toDigits (by decide) (by decide) hc
  have hread : readDigits decimals.value 0 false (Nat.toDigits 10 n) = some n := by
    rw [readDigits_congr fun c hc => decimals.ascii c (hdigits c hc),
      readDigits_ascii hdigits 0 false (.inl Nat.toDigits_ne_nil), Nat.ofDigitChars_ten_toDigits]
  exact readInt_of_readDigits hdigits hread fun m hm => by cases hm

end Decimals

/-- The digits of ASCII alone. -/
def asciiDecimals : Decimals := ⟨asciiDecimal, fun _ _ => rfl⟩

end ServerlessYarn
