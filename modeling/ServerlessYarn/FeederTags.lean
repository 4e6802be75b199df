/-
  ServerlessYARN model — what `process_string` does to a tag, for a machine that
  reads it.

  `replace_all` substitutes one text for another; a machine that cannot tell the two
  texts apart reads the result as it reads the original.  The separators and their
  names are such texts for the machine of UTF-8, and for any that looks for bytes of
  some kind.

  * `replaceAll_eq`: no buffer cuts a short text;
  * `run_substitute`: what a machine makes of a substitution;
  * `command_ok_iff`: the command tag of a process that is not skipped is the body of
    a string, and UTF-8, iff its name is `NameOk`.
-/
import ServerlessYarn.FeederDocs
import ServerlessYarn.Lib.Json

namespace ServerlessYarn

/-! ## Substitution -/

/-- `replace_all` without the limit of its buffer. -/
def substitute (old new : CString) : ℕ → CString → CString
  | _, [] => []
  | skip + 1, _ :: p => substitute old new skip p
  | 0, c :: p =>
    if old ≠ [] ∧ old.isPrefixOf (c :: p) then new ++ substitute old new (old.length - 1) p
    else c :: substitute old new 0 p

theorem substitute_skip (old new : CString) (skip : ℕ) (p : CString) :
    substitute old new skip p = substitute old new 0 (p.drop skip) := by
  induction skip generalizing p with
  | zero => rfl
  | succ skip ih =>
    cases p with
    | nil => rfl
    | cons c p => exact ih p

/-- The limit does not matter for a short text. -/
theorem replaceFrom_eq {old new : CString} {k : ℕ} (hk : 1 ≤ k) (hnew : new.length ≤ k) (skip : ℕ)
    (p out : CString) (h : out.length + p.length * k < 4095) :
    replaceFrom old new skip p out = out ++ substitute old new skip p := by
  induction p generalizing skip out with
  | nil =>
    rw [replaceFrom, substitute, List.append_nil]
  | cons c p ih =>
    rw [List.length_cons, Nat.add_mul, Nat.one_mul] at h
    cases skip with
    | succ skip =>
      rw [replaceFrom, substitute]
      exact ih skip out (by omega)
    | zero =>
      have hroom : out.length < 4095 := by omega
      rw [replaceFrom, substitute, if_pos hroom]
      split_ifs with hmatch hfull
      · omega
      · rw [ih _ _ (by rw [List.length_append]; omega), List.append_assoc]
      · rw [ih 0 _ (by rw [List.length_append, List.length_singleton]; omega), List.append_assoc]
        rfl

/-- The substitution at a match. -/
theorem substitute_match {old : CString} (new : CString) (hold : old ≠ []) (r : CString) :
    substitute old new 0 (old ++ r) = new ++ substitute old new 0 r := by
  cases old with
  | nil => exact absurd rfl hold
  | cons c old =>
    have hmatch : (c :: old) ≠ [] ∧ (c :: old).isPrefixOf (c :: (old ++ r)) = true :=
      ⟨hold, List.isPrefixOf_iff_prefix.2 (List.prefix_append (c :: old) r)⟩
    rw [List.cons_append, substitute, if_pos hmatch, substitute_skip]
    have hlen : (c :: old).length - 1 = old.length := rfl
    rw [hlen, List.drop_left]

/-- Every text is a match with a rest, a byte with a rest, or empty. -/
theorem substitute_induct (old new : CString) {P : CString → Prop} (hnil : P [])
    (hmatch : ∀ r, old ≠ [] → P r → P (old ++ r))
    (hbyte : ∀ c p, substitute old new 0 (c :: p) = c :: substitute old new 0 p → P p → P (c :: p))
    (p : CString) : P p := by
  induction hn : p.length using Nat.strong_induction_on generalizing p with
  | _ n ih =>
    subst hn
    cases p with
    | nil => exact hnil
    | cons c p =>
      by_cases h : old ≠ [] ∧ old.isPrefixOf (c :: p) = true
      · obtain ⟨r, hr⟩ := List.isPrefixOf_iff_prefix.1 h.2
        rw [← hr]
        refine hmatch r h.1 (ih r.length ?_ r rfl)
        have hpos := List.length_pos_iff.2 h.1
        rw [← hr, List.length_append]
        omega
      · refine hbyte c p ?_ (ih p.length (by rw [List.length_cons]; omega) p rfl)
        rw [substitute, if_neg h]

/-- **A machine that cannot tell two texts apart** cannot tell the result of the
    substitution from the original. -/
theorem run_substitute {σ : Type*} {step : σ → UInt8 → Option σ} {I : σ → Prop}
    (hI : ∀ q a q', I q → step q a = some q' → I q') {old new : CString}
    (hsame : ∀ q, I q → runSteps step q new = runSteps step q old) (p : CString) :
    ∀ q, I q → runSteps step q (substitute old new 0 p) = runSteps step q p := by
  induction p using substitute_induct old new with
  | hnil => exact fun _ _ => rfl
  | hmatch r hold ih =>
    intro q hq
    rw [substitute_match new hold, runSteps_append, runSteps_append, hsame q hq]
    cases hrun : runSteps step q old with
    | none => rfl
    | some q' => exact ih q' (runSteps_inv step hI hrun hq)
  | hbyte c p hstep ih =>
    intro q hq
    rw [hstep, runSteps, runSteps]
    cases hc : step q c with
    | none => rfl
    | some q' => exact ih q' (hI q c q' hq hc)

/-- What a byte can become at most: the longest name of a separator has 8 bytes. -/
def weight (c : UInt8) : ℕ :=
  if c = comma ∨ c = colon ∨ c = slash ∨ c = 32 then 8 else 1

def totalWeight (s : CString) : ℕ := (s.map weight).sum

theorem totalWeight_append (s t : CString) : totalWeight (s ++ t) = totalWeight s + totalWeight t := by
  unfold totalWeight
  rw [List.map_append, List.sum_append]

theorem one_le_weight (c : UInt8) : 1 ≤ weight c := by
  unfold weight
  split_ifs <;> omega

theorem weight_le (c : UInt8) : weight c ≤ 8 := by
  unfold weight
  split_ifs <;> omega

theorem length_le_totalWeight (s : CString) : s.length ≤ totalWeight s := by
  induction s with
  | nil => exact Nat.le_refl 0
  | cons c s ih =>
    have hc := one_le_weight c
    have hsum : totalWeight (c :: s) = weight c + totalWeight s := rfl
    rw [List.length_cons, hsum]
    omega

theorem totalWeight_le (s : CString) : totalWeight s ≤ 8 * s.length := by
  induction s with
  | nil => exact Nat.le_refl 0
  | cons c s ih =>
    have hc := weight_le c
    have hsum : totalWeight (c :: s) = weight c + totalWeight s := rfl
    rw [List.length_cons, hsum]
    omega

/-- A substitution by something no heavier adds no weight. -/
theorem totalWeight_substitute {old new : CString} (h : totalWeight new ≤ totalWeight old) (p : CString) :
    totalWeight (substitute old new 0 p) ≤ totalWeight p := by
  induction p using substitute_induct old new with
  | hnil => exact Nat.le_refl _
  | hmatch r hold ih =>
    rw [substitute_match new hold, totalWeight_append, totalWeight_append]
    exact Nat.add_le_add h ih
  | hbyte c p hstep ih =>
    rw [hstep]
    exact Nat.add_le_add_left ih _

/-- **No buffer cuts a light text.** -/
theorem replaceAll_eq {old new p : CString} {k : ℕ} (hk : 1 ≤ k) (hnew : new.length ≤ k)
    (hlen : p.length * k < 4095) (hp : totalWeight p < 4096) (h : totalWeight new ≤ totalWeight old) :
    replaceAll p 4096 old new = substitute old new 0 p := by
  have hsmall : ([] : CString).length + p.length * k < 4095 := by rwa [List.length_nil, Nat.zero_add]
  unfold replaceAll
  rw [replaceFrom_eq hk hnew 0 p [] hsmall, List.nil_append]
  refine truncated_eq (Nat.lt_of_le_of_lt (length_le_totalWeight _) ?_)
  exact Nat.lt_of_le_of_lt (totalWeight_substitute h p) hp

/-! ## Separators -/

/-- The separators and their names. -/
def separators : List (CString × CString) :=
  [(ascii ",", ascii "_comma_"), (ascii ":", ascii "_twodot_"), (ascii "/", ascii "_slash_"),
    (ascii " ", ascii "_space_")]

theorem separators_light : ∀ sep ∈ separators, sep.2.length ≤ 8 ∧ totalWeight sep.2 ≤ totalWeight sep.1 := by
  decide

/-- Replacing the separators, one after the other. -/
def substituteSeparators (s : CString) : CString :=
  separators.foldl (fun s sep => substitute sep.1 sep.2 0 s) s

theorem foldl_substitute_light {seps : List (CString × CString)} (hseps : ∀ sep ∈ seps, sep ∈ separators)
    (s : CString) : totalWeight (seps.foldl (fun s sep => substitute sep.1 sep.2 0 s) s) ≤ totalWeight s := by
  induction seps generalizing s with
  | nil => exact Nat.le_refl _
  | cons sep seps ih =>
    have hsep := separators_light sep (hseps sep List.mem_cons_self)
    exact (ih (fun x hx => hseps x (List.mem_cons_of_mem sep hx)) _).trans (totalWeight_substitute hsep.2 s)

theorem foldl_replaceAll {seps : List (CString × CString)} (hseps : ∀ sep ∈ seps, sep ∈ separators)
    {s : CString} (hs : totalWeight s ≤ 120) :
    seps.foldl (fun s sep => replaceAll s 4096 sep.1 sep.2) s =
      seps.foldl (fun s sep => substitute sep.1 sep.2 0 s) s := by
  induction seps generalizing s with
  | nil => rfl
  | cons sep seps ih =>
    obtain ⟨hname, hlight⟩ := separators_light sep (hseps sep List.mem_cons_self)
    have hlen := length_le_totalWeight s
    have hstep : replaceAll s 4096 sep.1 sep.2 = substitute sep.1 sep.2 0 s :=
      replaceAll_eq (by decide) hname (by omega) (by omega) hlight
    rw [List.foldl_cons, List.foldl_cons, hstep]
    exact ih (fun x hx => hseps x (List.mem_cons_of_mem sep hx)) ((totalWeight_substitute hlight s).trans hs)

theorem replaceSeparators_eq {matched : CString} (h : totalWeight matched ≤ 120) :
    replaceSeparators matched = substituteSeparators matched := by
  have hmatched : truncated 4096 matched = matched := by
    have hlen := length_le_totalWeight matched
    exact truncated_eq (by omega)
  have hfold := foldl_replaceAll (fun sep hsep => hsep) h
  unfold replaceSeparators
  rw [hmatched]
  exact hfold

/-! ## The tag of a process -/

/-- What the command tag is made of: the name without parentheses if any of its
    characters is of the class. -/
def commandText (comm : CString) : CString :=
  if comm.any inClass then comm.filter notParen else comm

theorem stripParens_procCmd {comm : CString} (h : comm.length ≤ pnamLen) :
    stripParens (procCmd comm) = comm.filter notParen := by
  have hlen : comm.length ≤ 15 := h
  have hfilter : (comm.filter notParen).length ≤ comm.length :=
    List.length_filter_le _ _
  have hinner : (ascii "(" ++ comm ++ ascii ")").filter notParen =
      comm.filter notParen := by
    rw [List.filter_append, List.filter_append]
    show [] ++ _ ++ [] = _
    rw [List.nil_append, List.append_nil]
  unfold stripParens
  rw [procCmd_eq h, hinner]
  exact List.take_of_length_le (by omega)

/-- The parentheses are not of the class. -/
theorem all_not_inClass_filter (comm : CString) :
    ((comm.filter notParen).all fun c => !inClass c) = !comm.any inClass := by
  induction comm with
  | nil => rfl
  | cons c comm ih =>
    by_cases hc : notParen c = true
    · rw [List.filter_cons_of_pos hc, List.all_cons, ih, List.any_cons, Bool.not_or]
    · have hparen : inClass c = false := by
        simp only [notParen, Bool.and_eq_true, bne_iff_ne, ne_eq, not_and, not_not] at hc
        by_cases hl : c = lparen
        · rw [hl]
          rfl
        · rw [hc hl]
          rfl
      rw [List.filter_cons_of_neg hc, ih, List.any_cons, hparen, Bool.false_or]

/-- Without a character of the class, the name stays in its parentheses. -/
theorem processString_unmatched {comm : CString} (h : comm.length ≤ pnamLen)
    (hclass : comm.any inClass = false) : processString (procCmd comm) 256 = ascii "(" ++ comm ++ ascii ")" := by
  have hlen : comm.length ≤ 15 := h
  have hall : ((stripParens (procCmd comm)).all fun c => !inClass c) = true := by
    rw [stripParens_procCmd h, all_not_inClass_filter, hclass]
    rfl
  unfold processString
  simp only [hall, if_true]
  rw [procCmd_eq h]
  refine truncated_eq ?_
  rw [List.length_append, List.length_append]
  show 1 + _ + 1 < 256
  omega

section machines
variable {σ : Type*} {step : σ → UInt8 → Option σ} {I : σ → Prop}

theorem run_substituteSeparators (hI : ∀ q a q', I q → step q a = some q' → I q')
    (hsep : ∀ sep ∈ separators, ∀ q, I q → runSteps step q sep.2 = runSteps step q sep.1) (s : CString) :
    ∀ q, I q → runSteps step q (substituteSeparators s) = runSteps step q s := by
  have hfold : ∀ seps : List (CString × CString), (∀ sep ∈ seps, sep ∈ separators) → ∀ s q, I q →
      runSteps step q (seps.foldl (fun s sep => substitute sep.1 sep.2 0 s) s) = runSteps step q s := by
    intro seps
    induction seps with
    | nil => exact fun _ _ _ _ => rfl
    | cons sep seps ih =>
      intro hseps s q hq
      rw [List.foldl_cons, ih (fun x hx => hseps x (List.mem_cons_of_mem sep hx)) _ q hq]
      exact run_substitute hI (hsep sep (hseps sep List.mem_cons_self)) s q hq
  exact hfold separators (fun _ h => h) s

/-- **A machine that cannot tell the separators from their names** reads the command
    tag as it reads the name without parentheses. -/
theorem run_processString (hI : ∀ q a q', I q → step q a = some q' → I q')
    (hsep : ∀ sep ∈ separators, ∀ q, I q → runSteps step q sep.2 = runSteps step q sep.1)
    {comm : CString} (h : comm.length ≤ pnamLen) (hclass : comm.any inClass = true) {q : σ} (hq : I q) :
    runSteps step q (processString (procCmd comm) 256) =
      runSteps step q (comm.filter notParen) := by
  have hlen : comm.length ≤ 15 := h
  have hs := stripParens_procCmd h
  have hall : ((stripParens (procCmd comm)).all fun c => !inClass c) = false := by
    rw [hs, all_not_inClass_filter, hclass]
    rfl
  have hslen : (stripParens (procCmd comm)).length ≤ 15 := by
    rw [hs]
    exact (List.length_filter_le _ _).trans hlen
  rw [← hs]
  unfold processString
  simp only [hall, Bool.false_eq_true, if_false]
  generalize stripParens (procCmd comm) = s at hslen
  have hweight := totalWeight_le s
  split_ifs
  · -- several words: the separators of the first match are replaced wherever it occurs
    have hmlen : (firstMatch s).length ≤ s.length :=
      (List.take_sublist _ _).length_le.trans ((List.takeWhile_sublist _).length_le.trans (List.dropWhile_sublist _).length_le)
    have hmweight : totalWeight (firstMatch s) ≤ 120 := by
      have := totalWeight_le (firstMatch s)
      omega
    have hrepl := replaceSeparators_eq hmweight
    have hlight : totalWeight (substituteSeparators (firstMatch s)) ≤ totalWeight (firstMatch s) :=
      foldl_substitute_light (fun _ h => h) _
    have hrlen := length_le_totalWeight (substituteSeparators (firstMatch s))
    have hreplace : replaceAll s 4096 (firstMatch s) (replaceSeparators (firstMatch s)) =
        substitute (firstMatch s) (substituteSeparators (firstMatch s)) 0 s := by
      rw [hrepl]
      refine replaceAll_eq (k := 120) (by decide) (by omega) (by omega) (by omega) hlight
    have hsub := totalWeight_substitute hlight s
    have hsublen := length_le_totalWeight (substitute (firstMatch s) (substituteSeparators (firstMatch s)) 0 s)
    rw [hreplace, truncated_eq (by omega)]
    exact run_substitute hI (run_substituteSeparators hI hsep (firstMatch s)) s q hq
  · rw [truncated_eq (by omega)]

end machines

/-! ## Strings and UTF-8 -/

/-- The machine that reads bytes of one kind only. -/
def allStep (P : UInt8 → Bool) (_ : Unit) (c : UInt8) : Option Unit :=
  if P c then some () else none

theorem run_allStep_iff {P : UInt8 → Bool} {s : CString} :
    runSteps (allStep P) () s = some () ↔ ∀ c ∈ s, P c = true := by
  induction s with
  | nil => exact ⟨fun _ _ h => absurd h List.not_mem_nil, fun _ => rfl⟩
  | cons c s ih =>
    rw [List.forall_mem_cons, ← ih, runSteps]
    unfold allStep
    by_cases hc : P c = true
    · rw [if_pos hc]
      exact ⟨fun h => And.intro hc h, fun h => h.2⟩
    · rw [if_neg hc]
      exact ⟨fun h => absurd h (Option.some_ne_none ()).symm, fun h => absurd h.1 hc⟩

/-- **The command tag has only bytes of a kind** iff the text it is made of has, if
    the separators, their names and the parentheses are of this kind. -/
theorem command_all_iff {P : UInt8 → Bool}
    (hP : ∀ sep ∈ separators, sep.1.all P = true ∧ sep.2.all P = true)
    (hparens : P lparen = true ∧ P rparen = true) {comm : CString} (h : comm.length ≤ pnamLen) :
    (∀ c ∈ processString (procCmd comm) 256, P c = true) ↔ ∀ c ∈ commandText comm, P c = true := by
  have hsep : ∀ sep ∈ separators, ∀ q : Unit, True →
      runSteps (allStep P) q sep.2 = runSteps (allStep P) q sep.1 := by
    intro sep hsep q _
    rw [run_allStep_iff.2 (List.all_eq_true.1 (hP sep hsep).2),
      run_allStep_iff.2 (List.all_eq_true.1 (hP sep hsep).1)]
  unfold commandText
  cases hclass : comm.any inClass with
  | true =>
    rw [if_pos rfl, ← run_allStep_iff, ← run_allStep_iff,
      run_processString (fun _ _ _ _ _ => trivial) hsep h hclass trivial]
  | false =>
    rw [if_neg Bool.false_ne_true, processString_unmatched h hclass]
    have hopen : ∀ c ∈ ascii "(", P c = true := fun c hc => (List.mem_singleton.1 hc) ▸ hparens.1
    have hclose : ∀ c ∈ ascii ")", P c = true := fun c hc => (List.mem_singleton.1 hc) ▸ hparens.2
    rw [List.forall_mem_append, List.forall_mem_append]
    exact ⟨fun h => h.1.2, fun h => ⟨⟨hopen, h⟩, hclose⟩⟩

theorem utf8_separators : ∀ sep ∈ separators, ∀ q : Utf8.State, q.Sound →
    runSteps Utf8.step q sep.2 = runSteps Utf8.step q sep.1 := by
  intro sep hsep q hq
  have hascii : ∀ sep ∈ separators, (IsAscii sep.1 ∧ sep.1 ≠ []) ∧ IsAscii sep.2 ∧ sep.2 ≠ [] := by decide
  obtain ⟨⟨hold, hold0⟩, hnew, hnew0⟩ := hascii sep hsep
  rw [Utf8.run_ascii hq hold hold0, Utf8.run_ascii hq hnew hnew0]

theorem isUtf8_parens (s : CString) : IsUtf8 (ascii "(" ++ s ++ ascii ")") ↔ IsUtf8 s := by
  have hopen : ascii "(" ++ s ++ ascii ")" = [] ++ ascii "(" ++ (s ++ ascii ")") := by simp
  have hclose : s ++ ascii ")" = s ++ ascii ")" ++ [] := by simp
  rw [hopen, isUtf8_split (by decide) (by decide), hclose, isUtf8_split (by decide) (by decide)]
  exact ⟨fun h => h.2.1, fun h => ⟨rfl, h, rfl⟩⟩

/-- **The command tag is UTF-8 iff the text it is made of is.** -/
theorem command_utf8_iff {comm : CString} (h : comm.length ≤ pnamLen) :
    IsUtf8 (processString (procCmd comm) 256) ↔ IsUtf8 (commandText comm) := by
  unfold commandText
  cases hclass : comm.any inClass with
  | true =>
    rw [if_pos rfl]
    unfold IsUtf8
    rw [run_processString (fun _ _ _ => Utf8.sound_step) utf8_separators h hclass Utf8.sound_start]
  | false =>
    rw [if_neg Bool.false_ne_true, processString_unmatched h hclass]
    exact isUtf8_parens comm

open Json in
/-- Without quotes and backslashes, only control characters are in the way. -/
theorem isBody_iff_of_plain {s : CString} (h : ∀ c ∈ s, c ≠ 34 ∧ c ≠ 92) :
    IsBody s ↔ ∀ c ∈ s, 32 ≤ c := by
  induction s with
  | nil => exact ⟨fun _ _ hc => absurd hc List.not_mem_nil, fun _ => rfl⟩
  | cons c s ih =>
    obtain ⟨hquote, hback⟩ := h c List.mem_cons_self
    have hrest := ih fun d hd => h d (List.mem_cons_of_mem c hd)
    have hstep : strStep .plain c = if c < 32 then none else some .plain := by
      unfold strStep
      simp only [if_neg hback, hquote, or_false]
    rw [List.forall_mem_cons, ← hrest]
    unfold IsBody
    rw [runSteps, hstep]
    by_cases hlow : c < 32
    · rw [if_pos hlow]
      exact ⟨fun h => absurd h.symm (Option.some_ne_none StrMode.plain), fun h => absurd hlow (UInt8.not_lt.2 h.1)⟩
    · rw [if_neg hlow]
      exact ⟨fun h => ⟨UInt8.not_lt.1 hlow, h⟩, fun h => h.2⟩

/-- The name has no control character, and what remains of it is UTF-8. -/
def NameOk (comm : CString) : Prop :=
  (∀ c ∈ comm, 32 ≤ c) ∧ IsUtf8 (commandText comm)

theorem mem_commandText {comm : CString} {c : UInt8} (h : c ∈ commandText comm) : c ∈ comm := by
  unfold commandText at h
  split_ifs at h
  · exact List.mem_of_mem_filter h
  · exact h

/-- Removing parentheses removes no control character. -/
theorem commandText_printable (comm : CString) :
    (∀ c ∈ commandText comm, 32 ≤ c) ↔ ∀ c ∈ comm, 32 ≤ c := by
  constructor
  · intro h c hc
    by_cases hparen : notParen c = true
    · apply h c
      unfold commandText
      split_ifs
      · exact List.mem_filter.2 ⟨hc, hparen⟩
      · exact hc
    · simp only [notParen, Bool.and_eq_true, bne_iff_ne, ne_eq, not_and, not_not] at hparen
      by_cases hl : c = lparen
      · rw [hl]
        decide
      · rw [hparen hl]
        decide
  · intro h c hc
    exact h c (mem_commandText hc)

/-- **The command tag of a process that is not skipped** can stand in a document iff
    the name can. -/
theorem command_ok_iff {opts : SampleOptions} {comm : CString} (h : comm.length ≤ pnamLen)
    (hskip : procSkipped opts comm = false) :
    Json.IsBody (processString (procCmd comm) 256) ∧ IsUtf8 (processString (procCmd comm) 256) ↔
      NameOk comm := by
  have hplain : ∀ c ∈ commandText comm, (c != 34 && c != 92) = true := by
    intro c hc
    have hnot : (ascii " @[]\"\\").contains c = false := by
      have hcomm := (Bool.or_eq_false_iff.1 hskip).1
      exact Bool.eq_false_iff.2 (List.any_eq_false.1 hcomm c (mem_commandText hc))
    rw [Bool.and_eq_true, bne_iff_ne, bne_iff_ne]
    constructor
    · rintro rfl
      cases hnot
    · rintro rfl
      cases hnot
  have htag : ∀ c ∈ processString (procCmd comm) 256, c ≠ 34 ∧ c ≠ 92 := by
    intro c hc
    have hboth := (command_all_iff (by decide) (by decide) h).2 hplain c hc
    rwa [Bool.and_eq_true, bne_iff_ne, bne_iff_ne] at hboth
  have hprintable : (∀ c ∈ processString (procCmd comm) 256, 32 ≤ c) ↔ ∀ c ∈ commandText comm, 32 ≤ c := by
    have hall : (∀ c ∈ processString (procCmd comm) 256, decide (32 ≤ c) = true) ↔
        ∀ c ∈ commandText comm, decide (32 ≤ c) = true := command_all_iff (by decide) (by decide) h
    simpa only [decide_eq_true_eq] using hall
  rw [command_utf8_iff h, isBody_iff_of_plain htag, hprintable, commandText_printable]
  rfl

end ServerlessYarn
