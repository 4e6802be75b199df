/-
  JSON texts (RFC 8259), as bytes.

  A text is read into tokens by a machine, `lexStep`; it denotes a value if it is
  UTF-8 and its tokens are those of the value.  Strings and numbers are kept as
  they are written.

  * `run_string`, `run_number`: the tokens of a string and of a number;
  * `IsBody.of_closed`: what was read as one string is the body of a string;
  * `closed_of_name`, `closed_of_end`: in front of a member whose name is known, and
    in front of a closing brace, a string has been closed.
-/
import ServerlessYarn.Lib.Utf8

namespace Json

/-! ## Strings and numbers -/

/-- Inside a string: between characters, after a backslash, or with hexadecimal
    digits owed. -/
inductive StrMode where
  | plain
  | escape
  | hex (owed : ℕ)
  deriving DecidableEq

/-- The characters behind a backslash, `u` apart: `"`, `\`, `/`, `b`, `f`, `n`, `r`
    and `t`. -/
def isEscape (c : UInt8) : Bool :=
  [34, 92, 47, 98, 102, 110, 114, 116].contains c

def isHexDigit (c : UInt8) : Bool :=
  (48 ≤ c && c ≤ 57) || (65 ≤ c && c ≤ 70) || (97 ≤ c && c ≤ 102)

/-- One byte of the body of a string: no quote and no control character between
    characters. -/
def strStep (m : StrMode) (c : UInt8) : Option StrMode :=
  match m with
  | .plain => if c = 92 then some .escape else if c < 32 ∨ c = 34 then none else some .plain
  | .escape => if c = 117 then some (.hex 3) else if isEscape c then some .plain else none
  | .hex owed =>
    if isHexDigit c then
      match owed with
      | 0 => some .plain
      | n + 1 => some (.hex n)
    else none

/-- What may stand between the quotes of a string. -/
def IsBody (s : List UInt8) : Prop :=
  runSteps strStep .plain s = some .plain

instance (s : List UInt8) : Decidable (IsBody s) :=
  inferInstanceAs (Decidable (_ = _))

/-- Inside a number. -/
inductive NumMode where
  | start
  | minus
  | zero
  | int
  | point
  | frac
  | exp
  | expSign
  | expInt
  deriving DecidableEq

def isDigit (c : UInt8) : Bool := 48 ≤ c && c ≤ 57

/-- One byte of a number. -/
def numStep (m : NumMode) (c : UInt8) : Option NumMode :=
  match m with
  | .start => if c = 45 then some .minus else if c = 48 then some .zero
      else if isDigit c then some .int else none
  | .minus => if c = 48 then some .zero else if isDigit c then some .int else none
  | .zero => if c = 46 then some .point else if c = 101 ∨ c = 69 then some .exp else none
  | .int => if isDigit c then some .int else if c = 46 then some .point
      else if c = 101 ∨ c = 69 then some .exp else none
  | .point => if isDigit c then some .frac else none
  | .frac => if isDigit c then some .frac else if c = 101 ∨ c = 69 then some .exp else none
  | .exp => if c = 43 ∨ c = 45 then some .expSign else if isDigit c then some .expInt else none
  | .expSign => if isDigit c then some .expInt else none
  | .expInt => if isDigit c then some .expInt else none

/-- Where a number may end. -/
def NumMode.done : NumMode → Bool
  | .zero | .int | .frac | .expInt => true
  | _ => false

def isNumber (t : List UInt8) : Bool :=
  ((runSteps numStep .start t).map NumMode.done).getD false

/-! ## Tokens -/

inductive Token where
  | lbrace
  | rbrace
  | lbracket
  | rbracket
  | colon
  | comma
  | null
  | bool (b : Bool)
  | num (text : List UInt8)
  | str (body : List UInt8)
  deriving DecidableEq

/-- Between tokens, inside a number or a word, or inside a string. -/
inductive Mode where
  | outside
  | atom (text : List UInt8)
  | str (m : StrMode) (body : List UInt8)
  deriving DecidableEq

def isSpace (c : UInt8) : Bool := [32, 9, 10, 13].contains c

/-- The bytes of numbers and words: letters, digits, `+`, `-` and `.`. -/
def isAtomByte (c : UInt8) : Bool :=
  isDigit c || (65 ≤ c && c ≤ 90) || (97 ≤ c && c ≤ 122) || c == 43 || c == 45 || c == 46

/-- The token of a number or a word. -/
def atomToken (text : List UInt8) : Option Token :=
  if isNumber text then some (.num text)
  else if text = [110, 117, 108, 108] then some .null
  else if text = [116, 114, 117, 101] then some (.bool true)
  else if text = [102, 97, 108, 115, 101] then some (.bool false)
  else none

def punctuation (c : UInt8) : Option Token :=
  if c = 123 then some .lbrace
  else if c = 125 then some .rbrace
  else if c = 91 then some .lbracket
  else if c = 93 then some .rbracket
  else if c = 58 then some .colon
  else if c = 44 then some .comma
  else none

/-- The first byte behind a token. -/
def startToken (ts : List Token) (c : UInt8) : Option (Mode × List Token) :=
  if isSpace c then some (.outside, ts)
  else if c = 34 then some (.str .plain [], ts)
  else if isAtomByte c then some (.atom [c], ts)
  else (punctuation c).map fun t => (.outside, ts ++ [t])

/-- One byte: where the machine is, and the tokens so far. -/
def lexStep (s : Mode × List Token) (c : UInt8) : Option (Mode × List Token) :=
  match s.1 with
  | .outside => startToken s.2 c
  | .atom text =>
    if isAtomByte c then some (.atom (text ++ [c]), s.2)
    else (atomToken text).bind fun t => startToken (s.2 ++ [t]) c
  | .str m body =>
    if m = .plain ∧ c = 34 then some (.outside, s.2 ++ [Token.str body])
    else (strStep m c).map fun m' => (.str m' (body ++ [c]), s.2)

/-- The tokens at the end of the text. -/
def finish (s : Mode × List Token) : Option (List Token) :=
  match s.1 with
  | .outside => some s.2
  | .atom text => (atomToken text).map fun t => s.2 ++ [t]
  | .str _ _ => none

/-- The tokens of a text. -/
def lex (text : List UInt8) : Option (List Token) :=
  (runSteps lexStep (.outside, []) text).bind finish

/-! ## Values -/

inductive Value where
  | null
  | bool (b : Bool)
  | num (text : List UInt8)
  | str (body : List UInt8)
  | arr (values : List Value)
  | obj (members : List (List UInt8 × Value))

mutual
/-- The tokens of a value. -/
def Value.tokens : Value → List Token
  | .null => [.null]
  | .bool b => [.bool b]
  | .num text => [.num text]
  | .str body => [.str body]
  | .arr values => .lbracket :: (tokensOfValues values ++ [.rbracket])
  | .obj members => .lbrace :: (tokensOfMembers members ++ [Token.rbrace])

def tokensOfValues : List Value → List Token
  | [] => []
  | [v] => v.tokens
  | v :: w :: vs => v.tokens ++ .comma :: tokensOfValues (w :: vs)

def tokensOfMembers : List (List UInt8 × Value) → List Token
  | [] => []
  | [(name, v)] => .str name :: .colon :: v.tokens
  | (name, v) :: m :: ms => .str name :: .colon :: (v.tokens ++ .comma :: tokensOfMembers (m :: ms))
end

/-- The text is a JSON text of the value. -/
def Denotes (text : List UInt8) (v : Value) : Prop :=
  IsUtf8 text ∧ lex text = some v.tokens

/-! ## Reading tokens -/

section reading
variable {ts ts' : List Token} {mode mode' : Mode}

/-- The body of a string, as far as it has been read. -/
theorem run_body {m m' : StrMode} {s : List UInt8} (h : runSteps strStep m s = some m')
    (ts : List Token) (body : List UInt8) :
    runSteps lexStep (.str m body, ts) s = some (.str m' (body ++ s), ts) := by
  induction s generalizing m body with
  | nil =>
    cases h
    rw [List.append_nil]
    rfl
  | cons c s ih =>
    obtain ⟨m₁, hm₁, hrest⟩ := Option.bind_eq_some_iff.1 h
    have hopen : ¬ (m = .plain ∧ c = 34) := by
      rintro ⟨rfl, rfl⟩
      cases hm₁
    have hstep : lexStep (.str m body, ts) c = some (.str m₁ (body ++ [c]), ts) := by
      unfold lexStep
      simp only [if_neg hopen, hm₁, Option.map_some]
    rw [runSteps, hstep, Option.bind_some, ih hrest, List.append_assoc]
    rfl

/-- A string that has been opened. -/
theorem run_string {s : List UInt8} (h : IsBody s) (ts : List Token) :
    runSteps lexStep (.str .plain [], ts) (s ++ [34]) = some (.outside, ts ++ [Token.str s]) := by
  rw [runSteps_concat, run_body h]
  rfl

theorem isAtomByte_not_special {c : UInt8} (h : isAtomByte c = true) :
    isSpace c = false ∧ c ≠ 34 := by
  constructor
  · by_contra hspace
    have hmem : c ∈ [32, 9, 10, 13] := List.contains_iff_mem.1 (Bool.of_not_eq_false hspace)
    simp only [List.mem_cons, List.not_mem_nil, or_false] at hmem
    rcases hmem with rfl | rfl | rfl | rfl <;> cases h
  · rintro rfl
    cases h

/-- A number or a word. -/
theorem run_atom {t : List UInt8} (ht : ∀ c ∈ t, isAtomByte c = true) (hne : t ≠ []) (ts : List Token) :
    runSteps lexStep (.outside, ts) t = some (.atom t, ts) := by
  induction t using List.reverseRecOn with
  | nil => exact absurd rfl hne
  | append_singleton t c ih =>
    have hc := ht c (List.mem_append_right t List.mem_cons_self)
    rw [runSteps_concat]
    by_cases hempty : t = []
    · subst hempty
      obtain ⟨hspace, hquote⟩ := isAtomByte_not_special hc
      show startToken ts c = _
      unfold startToken
      rw [hspace, if_neg Bool.false_ne_true, if_neg hquote, if_pos hc]
      rfl
    · rw [ih (fun c' hc' => ht c' (List.mem_append_left _ hc')) hempty]
      show lexStep (.atom t, ts) c = _
      unfold lexStep
      simp only [if_pos hc]

/-- Numbers are made of the bytes of numbers. -/
theorem isAtomByte_of_numStep {m m' : NumMode} {c : UInt8} (h : numStep m c = some m') :
    isAtomByte c = true := by
  have hdigit : ∀ d : UInt8, isDigit d = true → isAtomByte d = true := by
    intro d hd
    unfold isAtomByte
    rw [hd]
    rfl
  unfold numStep at h
  split at h
  all_goals split_ifs at h
  all_goals first
    | exact hdigit c ‹_›
    | (rename_i hc; rcases hc with rfl | rfl <;> rfl)

theorem isAtomByte_of_isNumber {t : List UInt8} (h : isNumber t = true) : ∀ c ∈ t, isAtomByte c = true := by
  have hrun : ∀ m m', runSteps numStep m t = some m' → ∀ c ∈ t, isAtomByte c = true := by
    clear h
    induction t with
    | nil => exact fun _ _ _ c hc => absurd hc List.not_mem_nil
    | cons d t ih =>
      intro m m' h c hc
      obtain ⟨m₁, hm₁, hrest⟩ := Option.bind_eq_some_iff.1 h
      rcases List.mem_cons.1 hc with rfl | hc
      · exact isAtomByte_of_numStep hm₁
      · exact ih m₁ m' hrest c hc
  cases hdone : runSteps numStep .start t with
  | none =>
    unfold isNumber at h
    rw [hdone] at h
    cases h
  | some m => exact hrun _ m hdone

theorem isAtomByte_ascii {c : UInt8} (h : isAtomByte c = true) : c < 0x80 := by
  unfold isAtomByte isDigit at h
  simp only [Bool.or_eq_true, Bool.and_eq_true, decide_eq_true_eq, beq_iff_eq] at h
  rcases h with ((((⟨-, h⟩ | ⟨-, h⟩) | ⟨-, h⟩) | rfl) | rfl) | rfl
  · exact UInt8.lt_of_le_of_lt h (by decide)
  · exact UInt8.lt_of_le_of_lt h (by decide)
  · exact UInt8.lt_of_le_of_lt h (by decide)
  · decide
  · decide
  · decide

theorem isAscii_of_isNumber {t : List UInt8} (h : isNumber t = true) : IsAscii t :=
  fun c hc => isAtomByte_ascii (isAtomByte_of_isNumber h c hc)

/-- A number in front of a comma. -/
theorem run_number {t : List UInt8} (h : isNumber t = true) (ts : List Token) :
    runSteps lexStep (.outside, ts) (t ++ [44]) = some (.outside, ts ++ [Token.num t, .comma]) := by
  have hne : t ≠ [] := by
    rintro rfl
    cases h
  rw [runSteps_concat, run_atom (isAtomByte_of_isNumber h) hne]
  show lexStep (.atom t, ts) 44 = _
  have htoken : atomToken t = some (.num t) := if_pos h
  unfold lexStep
  simp only [htoken, Option.bind_some]
  show some (Mode.outside, (ts ++ [Token.num t]) ++ [Token.comma]) = _
  rw [List.append_assoc]
  rfl

/-! ## Reading backwards -/

/-- Tokens stay. -/
theorem lexStep_grows {s s' : Mode × List Token} {c : UInt8} (h : lexStep s c = some s') : s.2 <+: s'.2 := by
  have hstart : ∀ ts s', startToken ts c = some s' → ts <+: s'.2 := by
    intro ts s' h
    unfold startToken at h
    split_ifs at h
    · cases h
      exact List.prefix_rfl
    · cases h
      exact List.prefix_rfl
    · cases h
      exact List.prefix_rfl
    · obtain ⟨t, -, rfl⟩ := Option.map_eq_some_iff.1 h
      exact List.prefix_append ts [t]
  obtain ⟨mode, ts⟩ := s
  unfold lexStep at h
  cases mode with
  | outside => exact hstart ts s' h
  | atom text =>
    simp only at h
    split_ifs at h
    · cases h
      exact List.prefix_rfl
    · obtain ⟨t, -, ht⟩ := Option.bind_eq_some_iff.1 h
      exact (List.prefix_append ts [t]).trans (hstart _ s' ht)
  | str m body =>
    simp only at h
    split_ifs at h
    · cases h
      exact List.prefix_append ts _
    · obtain ⟨m', -, rfl⟩ := Option.map_eq_some_iff.1 h
      exact List.prefix_rfl

theorem run_grows {s s' : Mode × List Token} {l : List UInt8} (h : runSteps lexStep s l = some s') :
    s.2 <+: s'.2 := by
  have hstep : ∀ (q : Mode × List Token) (c : UInt8) (q' : Mode × List Token), s.2 <+: q.2 →
      lexStep q c = some q' → s.2 <+: q'.2 := by
    intro q c q' hq h
    exact hq.trans (lexStep_grows h)
  exact runSteps_inv lexStep hstep h List.prefix_rfl

/-- A quote ends a string, or the machine is inside a string behind it. -/
theorem after_quote {s s' : Mode × List Token} (h : lexStep s 34 = some s') :
    (∃ b, s' = (.outside, s.2 ++ [Token.str b])) ∨ ∃ b, s'.1 = .str .plain b := by
  have hopen : ∀ ts, startToken ts 34 = some (.str .plain [], ts) := fun _ => rfl
  obtain ⟨mode, ts⟩ := s
  cases mode with
  | outside =>
    right
    cases h
    exact ⟨[], rfl⟩
  | atom text =>
    right
    obtain ⟨t, -, ht⟩ := Option.bind_eq_some_iff.1 h
    rw [hopen] at ht
    cases ht
    exact ⟨[], rfl⟩
  | str m body =>
    cases m with
    | plain =>
      left
      cases h
      exact ⟨body, rfl⟩
    | escape =>
      right
      cases h
      exact ⟨body ++ [34], rfl⟩
    | hex => cases h

/-- Inside a string, either no quote ends it or the first one that does is known. -/
theorem run_str_cases {m : StrMode} {body : List UInt8} {s : List UInt8} {s' : Mode × List Token}
    (h : runSteps lexStep (.str m body, ts) s = some s') :
    (∃ m', runSteps strStep m s = some m' ∧ s' = (.str m' (body ++ s), ts)) ∨
      ∃ s₁ s₂, s = s₁ ++ 34 :: s₂ ∧ runSteps strStep m s₁ = some .plain ∧
        runSteps lexStep (.outside, ts ++ [Token.str (body ++ s₁)]) s₂ = some s' := by
  induction s generalizing m body with
  | nil =>
    left
    cases h
    exact ⟨m, rfl, by rw [List.append_nil]⟩
  | cons c s ih =>
    obtain ⟨s₁, hstep, hrest⟩ := Option.bind_eq_some_iff.1 h
    unfold lexStep at hstep
    simp only at hstep
    split_ifs at hstep with hclose
    · obtain ⟨rfl, rfl⟩ := hclose
      right
      cases hstep
      exact ⟨[], s, rfl, rfl, by rw [List.append_nil]; exact hrest⟩
    · obtain ⟨m₁, hm₁, rfl⟩ := Option.map_eq_some_iff.1 hstep
      rcases ih hrest with ⟨m', hm', rfl⟩ | ⟨t₁, t₂, rfl, ht₁, ht₂⟩
      · left
        refine ⟨m', ?_, by rw [List.append_assoc]; rfl⟩
        rw [runSteps, hm₁]
        exact hm'
      · right
        refine ⟨c :: t₁, t₂, rfl, ?_, ?_⟩
        · rw [runSteps, hm₁]
          exact ht₁
        · rw [List.append_assoc] at ht₂
          exact ht₂

/-- **What was read as one string is the body of a string.** -/
theorem IsBody.of_closed {s b : List UInt8}
    (h : runSteps lexStep (.str .plain [], ts) (s ++ [34]) = some (.outside, ts ++ [Token.str b])) :
    IsBody s ∧ b = s := by
  rcases run_str_cases h with ⟨m', -, hend⟩ | ⟨s₁, s₂, hs, hs₁, hrest⟩
  · cases hend
  · rcases List.eq_nil_or_concat s₂ with rfl | ⟨s₂, c, rfl⟩
    · obtain ⟨rfl, -⟩ := List.append_inj' hs rfl
      rw [runSteps, List.nil_append] at hrest
      have htoken := List.append_cancel_left (Prod.mk.inj (Option.some.inj hrest)).2
      exact ⟨hs₁, (Token.str.inj (List.cons.inj htoken).1).symm⟩
    · rw [List.concat_eq_append] at hs hrest
      -- another string would have been closed behind the first one
      exfalso
      have hc : c = 34 := by
        have hlast := congrArg List.getLast? hs
        rw [← List.cons_append, ← List.append_assoc, List.getLast?_concat, List.getLast?_concat] at hlast
        exact (Option.some.inj hlast).symm
      rw [runSteps_concat, hc] at hrest
      obtain ⟨q, hq, hstep⟩ := Option.bind_eq_some_iff.1 hrest
      rcases after_quote hstep with ⟨b', hout⟩ | ⟨b', hin⟩
      · have hlen := (run_grows hq).length_le
        have htokens := congrArg List.length (Prod.mk.inj hout).2
        simp only [List.length_append, List.length_singleton, List.nil_append] at hlen htokens
        omega
      · cases hin

/-- A text whose last token is a closing brace. -/
theorem finish_eq_rbrace {s : Mode × List Token} {ts : List Token}
    (h : finish s = some (ts ++ [Token.rbrace])) :
    s = (.outside, ts ++ [Token.rbrace]) := by
  obtain ⟨mode, tokens⟩ := s
  cases mode with
  | outside =>
    cases h
    rfl
  | atom text =>
    exfalso
    obtain ⟨t, htoken, ht⟩ := Option.map_eq_some_iff.1 h
    have hlast : t = .rbrace := (List.cons.inj (List.append_inj' ht rfl).2).1
    subst hlast
    unfold atomToken at htoken
    split_ifs at htoken <;> cases htoken
  | str => cases h

/-! ## The end of a string -/

/-- The text between the value of a member, a string, and that of the next one:
    `", "name": "`. -/
def toNext (name : List UInt8) : List UInt8 :=
  [34, 44, 32, 34] ++ name ++ [34, 58, 32, 34]

/-- A name that is no number and none of the words of JSON. -/
structure IsMemberName (name : List UInt8) : Prop where
  body : IsBody name
  ne_nil : name ≠ []
  atom : ∀ c ∈ name, isAtomByte c = true
  not_token : atomToken name = none

/-- The tokens up to the next member. -/
theorem run_toNext {s name : List UInt8} (hs : IsBody s) (hname : IsMemberName name) (ts : List Token) :
    runSteps lexStep (.str .plain [], ts) (s ++ toNext name) =
      some (.str .plain [], ts ++ [Token.str s, .comma, .str name, .colon]) := by
  have hsplit : s ++ toNext name = (s ++ [34]) ++ ([44, 32, 34] ++ ((name ++ [34]) ++ [58, 32, 34])) := by
    unfold toNext
    simp
  rw [hsplit, runSteps_append, run_string hs, Option.bind_some, runSteps_append]
  show (some (Mode.str .plain [], ts ++ [Token.str s] ++ [Token.comma])).bind _ = _
  rw [Option.bind_some, runSteps_append, run_string hname.body, Option.bind_some]
  show some (Mode.str .plain [], ts ++ [Token.str s] ++ [Token.comma] ++ [Token.str name] ++ [Token.colon]) = _
  simp only [List.append_assoc, List.cons_append, List.nil_append]

/-- The first member of a name, if the tokens behind it have no other. -/
theorem first_member {b name : List UInt8} {more X Y : List Token}
    (hmore : ∀ X Y, X ++ (Token.comma :: .str name :: .colon :: Y) ≠ more)
    (h : X ++ (Token.comma :: .str name :: .colon :: Y) = .str b :: .comma :: .str name :: .colon :: more) :
    X = [.str b] := by
  rcases X with _ | ⟨x, _ | ⟨y, _ | ⟨z, _ | ⟨w, X⟩⟩⟩⟩
  · cases h
  · cases h
    rfl
  · cases h
  · cases h
  · exfalso
    have hrest : X ++ (Token.comma :: .str name :: .colon :: Y) = more := by
      simp only [List.cons_append, List.cons.injEq] at h
      exact h.2.2.2.2
    exact hmore X Y hrest

/-- **In front of a known member, the string before it has been closed**, if the
    tokens are those of the string and the member. -/
theorem closed_of_name {s name rest b : List UInt8} {more : List Token} (hname : IsMemberName name)
    (h : runSteps lexStep (.str .plain [], ts) (s ++ toNext name ++ rest) =
      some (.outside, ts ++ (Token.str b :: .comma :: .str name :: .colon :: more)))
    (hmore : ∀ X Y, X ++ (Token.comma :: .str name :: .colon :: Y) ≠ more) :
    IsBody s ∧ b = s ∧
      runSteps lexStep (.str .plain [], ts ++ [Token.str s, .comma, .str name, .colon]) rest =
        some (.outside, ts ++ [Token.str s, .comma, .str name, .colon] ++ more) := by
  have hsplit : s ++ toNext name ++ rest =
      (s ++ [34]) ++ ([44, 32, 34] ++ (name ++ ([34] ++ ([58, 32, 34] ++ rest)))) := by
    unfold toNext
    simp
  rw [hsplit, runSteps_append] at h
  obtain ⟨q, hq, h⟩ := Option.bind_eq_some_iff.1 h
  rw [runSteps_concat] at hq
  obtain ⟨q₀, hq₀, hquote⟩ := Option.bind_eq_some_iff.1 hq
  rcases after_quote hquote with ⟨b', rfl⟩ | ⟨b', hin⟩
  · -- closed: the comma, the name and the colon are tokens
    rw [runSteps_append] at h
    change (some (Mode.str .plain [], q₀.2 ++ [Token.str b'] ++ [Token.comma])).bind _ = _ at h
    rw [Option.bind_some, ← List.append_assoc name, runSteps_append, run_string hname.body,
      Option.bind_some, runSteps_append] at h
    change (some (Mode.str .plain [], q₀.2 ++ [Token.str b'] ++ [Token.comma] ++ [Token.str name] ++
      [Token.colon])).bind _ = _ at h
    rw [Option.bind_some] at h
    obtain ⟨X₀, hX₀⟩ : ∃ X₀, ts ++ X₀ = q₀.2 := run_grows hq₀
    obtain ⟨Y, hY⟩ : ∃ Y, q₀.2 ++ [Token.str b'] ++ [Token.comma] ++ [Token.str name] ++ [Token.colon] ++ Y =
        ts ++ (Token.str b :: .comma :: .str name :: .colon :: more) := run_grows h
    have hX : X₀ ++ [Token.str b'] = [.str b] := by
      refine first_member hmore (Y := Y) ?_
      refine List.append_cancel_left (?_ : ts ++ _ = ts ++ _)
      rw [← hY, ← hX₀]
      simp
    have hclosed : runSteps lexStep (.str .plain [], ts) (s ++ [34]) =
        some (.outside, ts ++ [Token.str b]) := by
      rw [runSteps_concat, hq₀, Option.bind_some, hquote, ← hX, ← List.append_assoc, hX₀]
    obtain ⟨hbody, hsame⟩ := IsBody.of_closed hclosed
    have htokens : q₀.2 ++ [Token.str b'] ++ [Token.comma] ++ [Token.str name] ++ [Token.colon] =
        ts ++ [Token.str s, .comma, .str name, .colon] := by
      rw [← hX₀, List.append_assoc ts, hX, hsame]
      simp
    refine ⟨hbody, hsame, ?_⟩
    have hend : ts ++ (Token.str b :: .comma :: .str name :: .colon :: more) =
        ts ++ [Token.str s, .comma, .str name, .colon] ++ more := by
      rw [hsame]
      simp
    rw [← htokens, h, htokens, hend]
  · -- not closed: the quote in front of the name closes it, and the name is no token
    exfalso
    obtain ⟨mode, tokens⟩ := q
    cases hin
    rw [runSteps_append] at h
    change (some (Mode.outside, tokens ++ [Token.str (b' ++ [44] ++ [32])])).bind _ = _ at h
    rw [Option.bind_some, runSteps_append, run_atom hname.atom hname.ne_nil, Option.bind_some] at h
    obtain ⟨q₁, hq₁, -⟩ := Option.bind_eq_some_iff.1 h
    change (atomToken name).bind _ = _ at hq₁
    rw [hname.not_token] at hq₁
    cases hq₁

/-- The tokens up to the end of two objects. -/
theorem run_end {s : List UInt8} (hs : IsBody s) (ts : List Token) :
    runSteps lexStep (.str .plain [], ts) (s ++ [34, 125, 125]) =
      some (.outside, ts ++ [Token.str s, .rbrace, .rbrace]) := by
  have hsplit : s ++ [34, 125, 125] = (s ++ [34]) ++ [125, 125] := by simp
  rw [hsplit, runSteps_append, run_string hs, Option.bind_some]
  show some (Mode.outside, ts ++ [Token.str s] ++ [Token.rbrace] ++ [Token.rbrace]) = _
  simp only [List.append_assoc, List.cons_append, List.nil_append]

/-- **In front of closing braces, the string before them has been closed.** -/
theorem closed_of_end {s b : List UInt8}
    (h : runSteps lexStep (.str .plain [], ts) (s ++ [34, 125, 125]) =
      some (.outside, ts ++ [Token.str b, .rbrace, .rbrace])) :
    IsBody s ∧ b = s := by
  have hsplit : s ++ [34, 125, 125] = (s ++ [34]) ++ [125, 125] := by simp
  rw [hsplit, runSteps_append] at h
  obtain ⟨q, hq, hrest⟩ := Option.bind_eq_some_iff.1 h
  have hquote := hq
  rw [runSteps_concat] at hquote
  obtain ⟨q₀, -, hquote⟩ := Option.bind_eq_some_iff.1 hquote
  rcases after_quote hquote with ⟨b', rfl⟩ | ⟨b', hin⟩
  · have htokens : q₀.2 ++ [Token.str b'] ++ [Token.rbrace] ++ [Token.rbrace] =
        ts ++ [Token.str b, .rbrace, .rbrace] :=
      (Prod.mk.inj (Option.some.inj hrest)).2
    have hshift : ts ++ [Token.str b, .rbrace, .rbrace] =
        ts ++ [Token.str b] ++ [Token.rbrace] ++ [Token.rbrace] := by simp
    rw [hshift] at htokens
    have htwo := (List.append_inj' htokens rfl).1
    rw [(List.append_inj' htwo rfl).1] at hq
    exact IsBody.of_closed hq
  · exfalso
    obtain ⟨mode, tokens⟩ := q
    cases hin
    cases hrest

end reading

end Json
