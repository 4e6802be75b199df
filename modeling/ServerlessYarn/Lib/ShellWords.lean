/-
  The words of a command line, as a POSIX shell splits them.

  Words are separated by blanks.  A word is written piece by piece: characters that stand for
  themselves, escaped characters, and texts in single or double quotes.  Between double quotes
  a backslash escapes only a double quote or a backslash.

  * `split_of_writes`: however words are written, they are what the text is split into;
  * `writes_self`: words without blanks, quotes and backslashes can be written as they are.
-/
import Mathlib.Data.List.Basic

namespace ShellWords

inductive LexError where
  | noClosingQuotation
  | noEscapedCharacter
deriving DecidableEq

def isBlank (c : Char) : Bool := c = ' ' || c = '\t' || c = '\r' || c = '\n'

/-! ## Reading -/

/-- In a word or before it, between quotes, or behind a backslash. -/
inductive Mode where
  | word
  | single
  | double
  | escape (in_double : Bool)

/-- The word that ends here: a text between quotes makes one, even if there is nothing in it. -/
def finish (token : List Char) (quoted : Bool) : List (List Char) :=
  if token = [] ∧ quoted = false then [] else [token]

/-- The words of a text, with the word that has been begun. -/
def splitFrom : Mode → List Char → Bool → List Char → Except LexError (List (List Char))
  | .word, token, quoted, [] => .ok (finish token quoted)
  | .word, token, quoted, c :: cs =>
    if isBlank c then (splitFrom .word [] false cs).map fun words => finish token quoted ++ words
    else if c = '\'' then splitFrom .single token quoted cs
    else if c = '"' then splitFrom .double token quoted cs
    else if c = '\\' then splitFrom (.escape false) token quoted cs
    else splitFrom .word (token ++ [c]) quoted cs
  | .single, _, _, [] => .error .noClosingQuotation
  | .single, token, quoted, c :: cs =>
    if c = '\'' then splitFrom .word token true cs else splitFrom .single (token ++ [c]) quoted cs
  | .double, _, _, [] => .error .noClosingQuotation
  | .double, token, quoted, c :: cs =>
    if c = '"' then splitFrom .word token true cs
    else if c = '\\' then splitFrom (.escape true) token quoted cs
    else splitFrom .double (token ++ [c]) quoted cs
  | .escape _, _, _, [] => .error .noEscapedCharacter
  | .escape in_double, token, quoted, c :: cs =>
    if in_double then
      splitFrom .double (token ++ if c = '"' || c = '\\' then [c] else ['\\', c]) quoted cs
    else splitFrom .word (token ++ [c]) quoted cs

def split (text : List Char) : Except LexError (List (List Char)) := splitFrom .word [] false text

/-! ## Writing -/

/-- What stands between double quotes: characters, and characters behind a backslash. -/
inductive Quoted where
  | char (c : Char)
  | escape (c : Char)

namespace Quoted

def text : Quoted → List Char
  | char c => [c]
  | escape c => ['\\', c]

def value : Quoted → List Char
  | char c => [c]
  | escape c => if c = '"' || c = '\\' then [c] else ['\\', c]

def Ok : Quoted → Prop
  | char c => c ≠ '"' ∧ c ≠ '\\'
  | escape _ => True

end Quoted

/-- A character that stands for itself. -/
def Plain (c : Char) : Prop := isBlank c = false ∧ c ≠ '\'' ∧ c ≠ '"' ∧ c ≠ '\\'

/-- A piece of a word. -/
inductive Piece where
  | plain (c : Char)
  | escaped (c : Char)
  | single (s : List Char)
  | double (s : List Quoted)

namespace Piece

def text : Piece → List Char
  | plain c => [c]
  | escaped c => ['\\', c]
  | single s => '\'' :: s ++ ['\'']
  | double s => '"' :: s.flatMap Quoted.text ++ ['"']

def value : Piece → List Char
  | plain c => [c]
  | escaped c => [c]
  | single s => s
  | double s => s.flatMap Quoted.value

def Ok : Piece → Prop
  | plain c => Plain c
  | escaped _ => True
  | single s => '\'' ∉ s
  | double s => ∀ q ∈ s, q.Ok

def isQuoted : Piece → Bool
  | plain _ => false
  | escaped _ => false
  | single _ => true
  | double _ => true

end Piece

/-- A text in which the words are written, with blanks between them. -/
inductive Writes : List (List Char) → List Char → Prop
  | blanks {text : List Char} (hblanks : ∀ c ∈ text, isBlank c = true) : Writes [] text
  | word {blanks rest : List Char} {pieces : List Piece} {words : List (List Char)}
      (hblanks : ∀ c ∈ blanks, isBlank c = true) (hne : pieces ≠ []) (hok : ∀ p ∈ pieces, p.Ok)
      (hrest : Writes words rest) (hends : rest = [] ∨ ∃ c cs, rest = c :: cs ∧ isBlank c = true) :
      Writes (pieces.flatMap Piece.value :: words) (blanks ++ (pieces.flatMap Piece.text ++ rest))

/-! ## What is written is read -/

theorem splitFrom_blank {c : Char} (hc : isBlank c = true) (token : List Char) (quoted : Bool) (rest : List Char) :
    splitFrom .word token quoted (c :: rest) =
      (split rest).map fun words => finish token quoted ++ words := by
  rw [splitFrom, if_pos hc]
  rfl

theorem split_blanks {blanks : List Char} (hblanks : ∀ c ∈ blanks, isBlank c = true) (rest : List Char) :
    split (blanks ++ rest) = split rest := by
  induction blanks with
  | nil => rfl
  | cons c blanks ih =>
    rw [List.cons_append, split, splitFrom_blank (hblanks c List.mem_cons_self),
      ih fun c hc => hblanks c (List.mem_cons_of_mem _ hc)]
    cases split rest <;> rfl

theorem splitFrom_single {s : List Char} (hs : '\'' ∉ s) (token : List Char) (quoted : Bool) (rest : List Char) :
    splitFrom .single token quoted (s ++ '\'' :: rest) = splitFrom .word (token ++ s) true rest := by
  induction s generalizing token with
  | nil => simp [splitFrom]
  | cons c s ih =>
    rw [List.mem_cons, not_or] at hs
    rw [List.cons_append, splitFrom, if_neg (Ne.symm hs.1), ih hs.2]
    simp

theorem splitFrom_double {s : List Quoted} (hs : ∀ q ∈ s, q.Ok) (token : List Char) (quoted : Bool)
    (rest : List Char) : splitFrom .double token quoted (s.flatMap Quoted.text ++ '"' :: rest) =
      splitFrom .word (token ++ s.flatMap Quoted.value) true rest := by
  induction s generalizing token with
  | nil => simp [splitFrom]
  | cons q s ih =>
    have hrest := ih fun q hq => hs q (List.mem_cons_of_mem _ hq)
    cases q with
    | char c =>
      obtain ⟨hquote, hslash⟩ := hs _ List.mem_cons_self
      simp [Quoted.text, Quoted.value, splitFrom, hquote, hslash, hrest]
    | escape c => simp [Quoted.text, Quoted.value, splitFrom, hrest]

/-- A piece is read as its value. -/
theorem splitFrom_piece {p : Piece} (hp : p.Ok) (token : List Char) (quoted : Bool) (rest : List Char) :
    splitFrom .word token quoted (p.text ++ rest) =
      splitFrom .word (token ++ p.value) (quoted || p.isQuoted) rest := by
  cases p with
  | plain c =>
    obtain ⟨hblank, hsingle, hdouble, hslash⟩ := hp
    simp [Piece.text, Piece.value, Piece.isQuoted, splitFrom, hblank, hsingle, hdouble, hslash]
  | escaped c => simp [Piece.text, Piece.value, Piece.isQuoted, splitFrom, isBlank]
  | single s =>
    have h := splitFrom_single hp token quoted rest
    simp [Piece.text, Piece.value, Piece.isQuoted, splitFrom, isBlank, h]
  | double s =>
    have h := splitFrom_double hp token quoted rest
    simp [Piece.text, Piece.value, Piece.isQuoted, splitFrom, isBlank, h]

theorem splitFrom_pieces {pieces : List Piece} (hok : ∀ p ∈ pieces, p.Ok) (token : List Char) (quoted : Bool)
    (rest : List Char) : splitFrom .word token quoted (pieces.flatMap Piece.text ++ rest) =
      splitFrom .word (token ++ pieces.flatMap Piece.value) (quoted || pieces.any Piece.isQuoted) rest := by
  induction pieces generalizing token quoted with
  | nil => simp
  | cons p pieces ih =>
    rw [List.flatMap_cons, List.append_assoc, splitFrom_piece (hok p List.mem_cons_self),
      ih fun p hp => hok p (List.mem_cons_of_mem _ hp)]
    simp [Bool.or_assoc]

/-- A word that has been written is one. -/
theorem finish_pieces {pieces : List Piece} (hne : pieces ≠ []) :
    finish (pieces.flatMap Piece.value) (pieces.any Piece.isQuoted) = [pieces.flatMap Piece.value] := by
  rw [finish, if_neg]
  rintro ⟨hvalue, hquoted⟩
  obtain ⟨p, pieces, rfl⟩ := List.exists_cons_of_ne_nil hne
  rw [List.any_cons, Bool.or_eq_false_iff] at hquoted
  cases p <;> simp [Piece.isQuoted, Piece.value] at hquoted hvalue

/-- **However words are written, they are what the text is split into.** -/
theorem split_of_writes {words : List (List Char)} {text : List Char} (h : Writes words text) :
    split text = .ok words := by
  induction h with
  | @blanks text hblanks =>
    have hread := split_blanks hblanks []
    rw [List.append_nil] at hread
    rw [hread]
    rfl
  | @word blanks rest pieces words hblanks hne hok hrest hends ih =>
    rw [split_blanks hblanks, split, splitFrom_pieces hok, List.nil_append, Bool.false_or]
    rcases hends with rfl | ⟨c, cs, rfl, hc⟩
    · have hwords : words = [] := (Except.ok.inj ih).symm
      rw [hwords, splitFrom, finish_pieces hne]
    · have hcs : split cs = .ok words := by
        rw [← ih, ← List.singleton_append, split_blanks (by simpa using hc)]
      rw [splitFrom_blank hc, hcs, finish_pieces hne]
      rfl

/-- A word that can be written as it is. -/
def Bare (word : List Char) : Prop := word ≠ [] ∧ ∀ c ∈ word, Plain c

/-- `Bare`, as a test. -/
def isBare (word : List Char) : Bool :=
  !word.isEmpty && word.all fun c => !isBlank c && c != '\'' && c != '"' && c != '\\'

theorem isBare_iff {word : List Char} : isBare word = true ↔ Bare word := by
  simp [isBare, Bare, Plain, and_assoc]

/-- Blanks may stand before the words. -/
theorem Writes.cons_blank {words : List (List Char)} {text : List Char} (h : Writes words text) {c : Char}
    (hc : isBlank c = true) : Writes words (c :: text) := by
  cases h with
  | blanks hblanks => exact .blanks (List.forall_mem_cons.2 ⟨hc, hblanks⟩)
  | word hblanks hne hok hrest hends => exact .word (List.forall_mem_cons.2 ⟨hc, hblanks⟩) hne hok hrest hends

/-- A word that is written as it is. -/
theorem Writes.cons_bare {word : List Char} (hword : Bare word) {words : List (List Char)} {rest : List Char}
    (hrest : Writes words rest) (hends : rest = [] ∨ ∃ c cs, rest = c :: cs ∧ isBlank c = true) :
    Writes (word :: words) (word ++ rest) := by
  have hvalue : (word.map Piece.plain).flatMap Piece.value = word := by simp [List.flatMap_map, Piece.value]
  have htext : (word.map Piece.plain).flatMap Piece.text = word := by simp [List.flatMap_map, Piece.text]
  have hok : ∀ p ∈ word.map Piece.plain, p.Ok := by
    intro p hp
    obtain ⟨c, hc, rfl⟩ := List.mem_map.1 hp
    exact hword.2 c hc
  have hblanks : ∀ c ∈ ([] : List Char), isBlank c = true := fun _ hc => absurd hc List.not_mem_nil
  have hwrites : Writes ((word.map Piece.plain).flatMap Piece.value :: words)
      ([] ++ ((word.map Piece.plain).flatMap Piece.text ++ rest)) :=
    .word hblanks (by simpa using hword.1) hok hrest hends
  rw [hvalue, htext] at hwrites
  exact hwrites

/-- Words without blanks, quotes and backslashes can be written as they are, with a blank between them. -/
theorem writes_self {words : List (List Char)} (hwords : ∀ word ∈ words, Bare word) :
    Writes words (List.intercalate [' '] words) := by
  induction words with
  | nil => exact .blanks fun _ hc => absurd hc List.not_mem_nil
  | cons word words ih =>
    have hword := hwords word List.mem_cons_self
    have hrest := ih fun word hword => hwords word (List.mem_cons_of_mem _ hword)
    cases words with
    | nil => simpa using Writes.cons_bare hword hrest (Or.inl rfl)
    | cons word' words =>
      have hwrites := Writes.cons_bare hword (hrest.cons_blank (c := ' ') rfl) (Or.inr ⟨' ', _, rfl, rfl⟩)
      simpa [List.intercalate] using hwrites

end ShellWords
