/-
  ServerlessYARN model — texts, as Python's built-in functions treat them.

  A text is its list of characters.  What Python takes from the Unicode database or
  from its settings is a parameter.

  * `words_append_cons`, `words_strip`: the words of a text;
  * `reprBody_eq_self_iff`: which texts `repr` writes as they are, between quotes.
-/
import ServerlessYarn.Integers
import ServerlessYarn.Tasks

namespace ServerlessYarn

open Trim

/-- The boundaries of `str.splitlines`. -/
def isLineBoundary (c : Char) : Bool :=
  [10, 11, 12, 13, 28, 29, 30, 0x85, 0x2028, 0x2029].contains c.toNat

/-- `text.splitlines()`; `line` holds the characters of the line that is being read,
    the last one first. -/
def splitlinesFrom (line : List Char) : List Char → List (List Char)
  | [] => if line = [] then [] else [line.reverse]
  | '\r' :: '\n' :: rest => line.reverse :: splitlinesFrom [] rest
  | c :: rest =>
    if isLineBoundary c then line.reverse :: splitlinesFrom [] rest
    else splitlinesFrom (c :: line) rest

/-! ## Words -/

/-- `s.split()`. -/
def words (s : List Char) : List (List Char) := (s.splitOnP Tasks.isSpace).filter (· ≠ [])

/-- A word: not empty, and without spaces. -/
def IsWord (w : List Char) : Prop := w ≠ [] ∧ ∀ c ∈ w, Tasks.isSpace c = false

theorem isWord_iff_all {w : List Char} : w ≠ [] ∧ w.all (!Tasks.isSpace ·) = true ↔ IsWord w := by
  simp [IsWord]

instance (w : List Char) : Decidable (IsWord w) := decidable_of_iff _ isWord_iff_all

theorem words_of_isWord {w : List Char} (hw : IsWord w) : words w = [w] := by
  rw [words, List.splitOnP_eq_singleton hw.2]
  simp [hw.1]

theorem words_append_cons {w : List Char} (hw : IsWord w) (s : List Char) :
    words (w ++ ' ' :: s) = w :: words s := by
  rw [words, List.splitOnP_append_cons_of_forall_mem hw.2 ' ' (by decide), List.filter_cons,
    if_pos (decide_eq_true hw.1)]
  rfl

theorem words_cons_space {c : Char} (hc : Tasks.isSpace c = true) (s : List Char) :
    words (c :: s) = words s := by
  have hnil : ∀ x ∈ ([] : List Char), Tasks.isSpace x = false := fun _ h => absurd h List.not_mem_nil
  have hsplit := List.splitOnP_append_cons_of_forall_mem hnil c hc s
  rw [words, ← List.nil_append (c :: s), hsplit, List.filter_cons, if_neg (by simp)]
  rfl

theorem words_concat_space {c : Char} (hc : Tasks.isSpace c = true) (s : List Char) :
    words (s ++ [c]) = words s := by
  rw [words, List.splitOnP_append_cons s [] hc, List.filter_append, List.splitOnP_nil]
  exact List.append_nil _

/-- `s.strip().split()` is `s.split()`. -/
theorem words_strip (s : List Char) : words (strip s) = words s := by
  have hleft : ∀ s : List Char, words (s.dropWhile Tasks.isSpace) = words s := by
    intro s
    induction s with
    | nil => rfl
    | cons c s ih =>
      by_cases hc : Tasks.isSpace c = true
      · rw [List.dropWhile_cons_of_pos hc, ih, words_cons_space hc]
      · rw [List.dropWhile_cons_of_neg hc]
  have hright : ∀ s : List Char, words (s.rdropWhile Tasks.isSpace) = words s := by
    intro s
    induction s using List.reverseRecOn with
    | nil => rfl
    | append_singleton s c ih =>
      by_cases hc : Tasks.isSpace c = true
      · rw [List.rdropWhile_concat_pos _ _ _ hc, ih, words_concat_space hc]
      · rw [List.rdropWhile_concat_neg _ _ _ hc]
  exact (hright _).trans (hleft s)

theorem isWord_toDigits (n : ℕ) : IsWord (Nat.toDigits 10 n) :=
  ⟨Nat.toDigits_ne_nil, fun _ hc =>
    isSpace_of_isDigit (Nat.isDigit_of_mem_toDigits (by decide) (by decide) hc)⟩

/-! ## Representations -/

def hexDigit (n : ℕ) : Char := "0123456789abcdef".toList.getD (n % 16) '0'

/-- `n` in hexadecimal, with this many digits. -/
def hexDigits : ℕ → ℕ → List Char
  | 0, _ => []
  | width + 1, n => hexDigits width (n / 16) ++ [hexDigit n]

/-- A character in the `repr` of a text; `isprintable` is that of `str`, beyond ASCII. -/
def reprChar (isprintable : Char → Bool) (quote c : Char) : List Char :=
  if c = quote ∨ c = '\\' then ['\\', c]
  else if c = '\t' then ['\\', 't']
  else if c = '\n' then ['\\', 'n']
  else if c = '\r' then ['\\', 'r']
  else if c.toNat < 32 ∨ c.toNat = 127 then '\\' :: 'x' :: hexDigits 2 c.toNat
  else if c.toNat < 127 ∨ isprintable c then [c]
  else if c.toNat < 0x100 then '\\' :: 'x' :: hexDigits 2 c.toNat
  else if c.toNat < 0x10000 then '\\' :: 'u' :: hexDigits 4 c.toNat
  else '\\' :: 'U' :: hexDigits 8 c.toNat

/-- The quote of `repr(s)`: a double one if that avoids escapes. -/
def reprQuote (s : List Char) : Char := if '\'' ∈ s ∧ '"' ∉ s then '"' else '\''

/-- `repr(s)` between its quotes. -/
def reprBody (isprintable : Char → Bool) (s : List Char) : List Char :=
  s.flatMap (reprChar isprintable (reprQuote s))

/-- `repr(s)`. -/
def pyRepr (isprintable : Char → Bool) (s : List Char) : List Char :=
  reprQuote s :: reprBody isprintable s ++ [reprQuote s]

/-- `str(l)` for a list of texts. -/
def reprList (isprintable : Char → Bool) (l : List (List Char)) : List Char :=
  '[' :: List.intercalate [',', ' '] (l.map (pyRepr isprintable)) ++ [']']

/-- `repr` does not escape the character, between single quotes. -/
def Verbatim (isprintable : Char → Bool) (c : Char) : Prop := reprChar isprintable '\'' c = [c]

instance (isprintable : Char → Bool) (c : Char) : Decidable (Verbatim isprintable c) :=
  inferInstanceAs (Decidable (_ = _))

theorem hexDigit_ne (n : ℕ) : hexDigit n ≠ ',' ∧ hexDigit n ≠ '\'' := by
  have h : ∀ m < 16, "0123456789abcdef".toList.getD m '0' ≠ ',' ∧
      "0123456789abcdef".toList.getD m '0' ≠ '\'' := by decide +kernel
  exact h (n % 16) (Nat.mod_lt n (by omega))

theorem mem_hexDigits {c : Char} {width n : ℕ} (h : c ∈ hexDigits width n) : ∃ m, c = hexDigit m := by
  induction width generalizing n with
  | zero => cases h
  | succ width ih =>
    rw [hexDigits, List.mem_append, List.mem_singleton] at h
    rcases h with h | h
    · exact ih h
    · exact ⟨n, h⟩

/-- The character as it is, or as an escape: itself or a letter, and digits. -/
def WrittenAs (c : Char) (l : List Char) : Prop :=
  l = [c] ∨ ∃ d cs, l = '\\' :: d :: cs ∧
    (d = c ∨ d ∈ ['t', 'n', 'r', 'x', 'u', 'U']) ∧ ∀ e ∈ cs, ∃ m, e = hexDigit m

theorem reprChar_cases (isprintable : Char → Bool) (quote c : Char) :
    WrittenAs c (reprChar isprintable quote c) := by
  have hletter {d : Char} (hd : d ∈ ['t', 'n', 'r', 'x', 'u', 'U']) (width n : ℕ) :
      WrittenAs c ('\\' :: d :: hexDigits width n) :=
    .inr ⟨d, _, rfl, .inr hd, fun _ => mem_hexDigits⟩
  unfold reprChar
  refine iteInduction (fun _ => ?_) fun _ => ?_
  · exact .inr ⟨c, [], rfl, .inl rfl, fun _ he => absurd he List.not_mem_nil⟩
  refine iteInduction (fun _ => hletter (by simp) 0 0) fun _ => ?_
  refine iteInduction (fun _ => hletter (by simp) 0 0) fun _ => ?_
  refine iteInduction (fun _ => hletter (by simp) 0 0) fun _ => ?_
  refine iteInduction (fun _ => hletter (by simp) 2 _) fun _ => ?_
  refine iteInduction (fun _ => .inl rfl) fun _ => ?_
  refine iteInduction (fun _ => hletter (by simp) 2 _) fun _ => ?_
  exact iteInduction (fun _ => hletter (by simp) 4 _) fun _ => hletter (by simp) 8 _

/-- Escapes bring in neither commas nor single quotes. -/
theorem mem_reprChar {isprintable : Char → Bool} {quote c d : Char}
    (h : d ∈ reprChar isprintable quote c) (hd : d = ',' ∨ d = '\'') : d = c := by
  rcases reprChar_cases isprintable quote c with hplain | ⟨e, cs, hescape, he, hcs⟩
  · rw [hplain] at h
    exact List.mem_singleton.1 h
  · rw [hescape, List.mem_cons, List.mem_cons] at h
    rcases h with rfl | rfl | h
    · exact absurd hd (by decide)
    · refine he.resolve_right fun hletter => ?_
      rcases hd with rfl | rfl <;> exact absurd hletter (by decide)
    · obtain ⟨m, rfl⟩ := hcs d h
      exact (hd.elim (hexDigit_ne m).1 (hexDigit_ne m).2).elim

/-- A representation without commas. -/
theorem comma_notMem_pyRepr (isprintable : Char → Bool) {x : List Char} (hx : ',' ∉ x) :
    ',' ∉ pyRepr isprintable x := by
  have hquote : ',' ≠ reprQuote x := by
    unfold reprQuote
    split_ifs <;> decide
  unfold pyRepr
  simp only [List.cons_append, List.mem_cons, List.mem_append, List.not_mem_nil, or_false, hquote,
    false_or]
  intro hmem
  obtain ⟨d, hd, hmem⟩ := List.mem_flatMap.1 hmem
  exact hx (mem_reprChar hmem (.inl rfl) ▸ hd)

theorem flatMap_eq_self_iff {f : Char → List Char}
    (hf : ∀ c, f c = [c] ∨ 2 ≤ (f c).length) {s : List Char} :
    s.flatMap f = s ↔ ∀ c ∈ s, f c = [c] := by
  have hlength (t : List Char) : t.length ≤ (t.flatMap f).length := by
    induction t with
    | nil => exact Nat.zero_le _
    | cons c t ih =>
      rw [List.flatMap_cons, List.length_append, List.length_cons]
      rcases hf c with hc | hc
      · rw [hc, List.length_singleton]
        omega
      · omega
  induction s with
  | nil => simp
  | cons c s ih =>
    rw [List.flatMap_cons, List.forall_mem_cons]
    constructor
    · intro h
      rcases hf c with hc | hc
      · rw [hc, List.singleton_append, List.cons.injEq] at h
        exact ⟨hc, ih.1 h.2⟩
      · -- the text would be longer
        have hsum := congrArg List.length h
        rw [List.length_append, List.length_cons] at hsum
        have hle := hlength s
        omega
    · rintro ⟨hc, hs⟩
      rw [hc, ih.2 hs, List.singleton_append]

theorem reprBody_eq_self_iff {isprintable : Char → Bool} {s : List Char} (hs : '\'' ∉ s) :
    reprBody isprintable s = s ↔ ∀ c ∈ s, Verbatim isprintable c := by
  have hquote : reprQuote s = '\'' := if_neg fun h => hs h.1
  unfold reprBody
  rw [hquote]
  refine flatMap_eq_self_iff fun c => ?_
  rcases reprChar_cases isprintable '\'' c with hc | ⟨d, cs, hc, -⟩
  · exact .inl hc
  · rw [hc, List.length_cons, List.length_cons]
    exact .inr (by omega)

/-- The backslashes and the single quotes of a text are escaped by backslashes. -/
theorem count_backslash_le (isprintable : Char → Bool) (s : List Char) :
    s.count '\\' + s.count '\'' ≤ (s.flatMap (reprChar isprintable '\'')).count '\\' := by
  induction s with
  | nil => exact Nat.zero_le _
  | cons c s ih =>
    rw [List.flatMap_cons, List.count_append]
    have hc : [c].count '\\' + [c].count '\'' ≤ (reprChar isprintable '\'' c).count '\\' := by
      by_cases hback : c = '\\'
      · subst hback
        rw [show reprChar isprintable '\'' '\\' = ['\\', '\\'] from rfl]
        decide
      · by_cases hquote : c = '\''
        · subst hquote
          rw [show reprChar isprintable '\'' '\'' = ['\\', '\''] from rfl]
          decide
        · simp [hback, hquote]
    have hsplit : (c :: s) = [c] ++ s := rfl
    rw [hsplit, List.count_append, List.count_append]
    omega

end ServerlessYarn
