/-
  ServerlessYARN model — string functions of the lite feeder (lite_feeder.c).

  `processString` prepares the tags `host` and `command`; `commOf` takes the name
  of a process out of its line of `/proc/<pid>/stat`.  Character classes are those
  of the C locale, on bytes.

  * `commOf_statLine`: the name is found whatever parentheses it contains itself.
-/
import ServerlessYarn.Feeder
import Mathlib.Tactic.IntervalCases

namespace ServerlessYarn

/-! ## Bytes -/

def isDigit (c : UInt8) : Bool := 48 ≤ c && c ≤ 57

def isAlpha (c : UInt8) : Bool := (65 ≤ c && c ≤ 90) || (97 ≤ c && c ≤ 122)

def isAlnum (c : UInt8) : Bool := isDigit c || isAlpha c

/-- `isspace`: space, `\t`, `\n`, `\v`, `\f`, `\r`. -/
def isSpace (c : UInt8) : Bool := c == 32 || (9 ≤ c && c ≤ 13)

def lparen : UInt8 := 40
def rparen : UInt8 := 41
def comma : UInt8 := 44
def slash : UInt8 := 47
def colon : UInt8 := 58
def backslash : UInt8 := 92
def underscore : UInt8 := 95

/-- `in_class`: `[A-Za-z0-9_,:\\/\s]` -/
def inClass (c : UInt8) : Bool :=
  isAlnum c || c == underscore || c == comma || c == colon || c == backslash || c == slash || isSpace c

theorem decimal_eq (n : ℕ) : decimal n = (Nat.toDigits 10 n).map fun c => UInt8.ofNat c.toNat := by
  have hdigits : (toString (n : ℤ)).toList = Nat.toDigits 10 n := String.toList_ofList
  unfold decimal ascii
  rw [hdigits]

/-- Numbers are printed with digits. -/
theorem isDigit_of_mem_decimal {n : ℕ} {c : UInt8} (h : c ∈ decimal n) : isDigit c := by
  rw [decimal_eq] at h
  obtain ⟨d, hd, rfl⟩ := List.mem_map.1 h
  have hdigit : d.isDigit := Nat.isDigit_of_mem_toDigits (by decide) (by decide) hd
  have hlow : 48 ≤ d.toNat := UInt32.le_iff_toNat_le.1 (of_decide_eq_true (Bool.and_eq_true_iff.1 hdigit).1)
  have hhigh : d.toNat ≤ 57 := UInt32.le_iff_toNat_le.1 (of_decide_eq_true (Bool.and_eq_true_iff.1 hdigit).2)
  generalize d.toNat = m at hlow hhigh
  interval_cases m <;> rfl

/-! ## C library -/

/-- What `snprintf` leaves of a text in a buffer of the size. -/
def truncated (size : ℕ) (text : CString) : CString :=
  text.take (size - 1)

/-- The position that `strchr` returns. -/
def strchr (s : CString) (c : UInt8) : Option ℕ :=
  s.findIdx? (· == c)

/-- The position that `strrchr` returns. -/
def strrchr (s : CString) (c : UInt8) : Option ℕ :=
  (s.reverse.findIdx? (· == c)).map fun i => s.length - 1 - i

/-- `strstr(s, needle) != NULL` -/
def strstr (s needle : CString) : Bool :=
  s.tails.any needle.isPrefixOf

/-- `strpbrk(s, accept) != NULL` -/
def strpbrk (s accept : CString) : Bool :=
  s.any accept.contains

/-! ## process_string -/

/-- The loop of `replace_all`: `skip` bytes of a match are still to be passed over,
    `out` is what has been written. -/
def replaceFrom (old new : CString) : ℕ → CString → CString → CString
  | _, [], out => out
  | skip + 1, _ :: p, out => replaceFrom old new skip p out
  | 0, c :: p, out =>
    if out.length < 4095 then
      if old ≠ [] ∧ old.isPrefixOf (c :: p) then
        if 4095 ≤ out.length + new.length then out
        else replaceFrom old new (old.length - 1) p (out ++ new)
      else replaceFrom old new 0 p (out ++ [c])
    else out

def replaceAll (s : CString) (size : ℕ) (old new : CString) : CString :=
  truncated size (replaceFrom old new 0 s [])

/-- `isalnum(c) || c == '_'` -/
def isWord (c : UInt8) : Bool := isAlnum c || c == underscore

/-- The words of a text, and whether it ends inside one. -/
def countWords (s : CString) : ℕ × Bool :=
  s.foldl (fun acc c => (if isWord c && !acc.2 then acc.1 + 1 else acc.1, isWord c)) (0, false)

/-- The names for the separators inside the matched part. -/
def replaceSeparators (matched : CString) : CString :=
  let repl := replaceAll (truncated 4096 matched) 4096 (ascii ",") (ascii "_comma_")
  let repl := replaceAll repl 4096 (ascii ":") (ascii "_twodot_")
  let repl := replaceAll repl 4096 (ascii "/") (ascii "_slash_")
  replaceAll repl 4096 (ascii " ") (ascii "_space_")

def notParen (c : UInt8) : Bool := c != lparen && c != rparen

/-- The copy without parentheses. -/
def stripParens (input : CString) : CString :=
  (input.filter notParen).take 4095

/-- The first run of characters of the class. -/
def firstMatch (s : CString) : CString :=
  truncated 4096 ((s.dropWhile fun c => !inClass c).takeWhile inClass)

/-- `process_string(in, out, size)` -/
def processString (input : CString) (size : ℕ) : CString :=
  let s := stripParens input
  -- without a match the original string is kept
  if s.all fun c => !inClass c then truncated size input
  else
    let matched := firstMatch s
    if 1 < (countWords matched).1 then
      truncated size (replaceAll s 4096 matched (replaceSeparators matched))
    else truncated size s

/-! ## The name of a process -/

/-- `PNAMLEN` -/
def pnamLen : ℕ := 15

/-- `lp = strchr(buf, '(')`, `rp = strrchr(buf, ')')`, and at most 15 bytes of what
    is between. -/
def commOf (buf : CString) : Option CString :=
  match strchr buf lparen, strrchr buf rparen with
  | some lp, some rp =>
    if rp < lp then none
    else some ((buf.drop (lp + 1)).take (if rp - lp - 1 < pnamLen then rp - lp - 1 else pnamLen))
  | _, _ => none

theorem strchr_append {s t : CString} {c : UInt8} (h : c ∉ s) : strchr (s ++ c :: t) c = some s.length := by
  unfold strchr
  rw [List.findIdx?_eq_some_iff_getElem]
  refine ⟨by simp, by simp, fun j hj => ?_⟩
  rw [List.getElem_append_left hj]
  intro heq
  exact h (beq_iff_eq.1 heq ▸ List.getElem_mem hj)

theorem strrchr_append {s t : CString} {c : UInt8} (h : c ∉ t) : strrchr (s ++ c :: t) c = some s.length := by
  unfold strrchr
  have hrev : (s ++ c :: t).reverse = t.reverse ++ c :: s.reverse := by simp
  have hfirst := strchr_append (t := s.reverse) fun hmem => h (List.mem_reverse.1 hmem)
  unfold strchr at hfirst
  rw [hrev, hfirst, Option.map_some]
  congr 1
  simp only [List.length_reverse, List.length_append, List.length_cons]
  omega

/-- **The name of a process is between the first and the last parenthesis.** -/
theorem commOf_statLine {front comm rest : CString} (hfront : lparen ∉ front) (hrest : rparen ∉ rest) :
    commOf (front ++ lparen :: (comm ++ rparen :: rest)) = some (comm.take pnamLen) := by
  have hlp := strchr_append (t := comm ++ rparen :: rest) hfront
  have hsplit : front ++ lparen :: (comm ++ rparen :: rest) =
      (front ++ lparen :: comm) ++ rparen :: rest := by simp
  have hrp : strrchr (front ++ lparen :: (comm ++ rparen :: rest)) rparen =
      some (front.length + comm.length + 1) := by
    rw [hsplit, strrchr_append hrest]
    simp [Nat.add_assoc]
  have hafter : (front ++ lparen :: (comm ++ rparen :: rest)).drop (front.length + 1) =
      comm ++ rparen :: rest := by
    rw [← List.drop_drop, List.drop_left]
    rfl
  have horder : ¬ front.length + comm.length + 1 < front.length := by omega
  unfold commOf
  simp only [hlp, hrp, if_neg horder, hafter]
  have hlen : front.length + comm.length + 1 - front.length - 1 = comm.length := by omega
  rw [hlen]
  congr 1
  split_ifs with hshort
  · rw [List.take_left, List.take_of_length_le (Nat.le_of_lt hshort)]
  · rw [List.take_append_of_le_length (not_lt.1 hshort)]

end ServerlessYarn
