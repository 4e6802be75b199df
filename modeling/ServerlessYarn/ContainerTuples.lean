/-
  ServerlessYARN model — the texts in which containers reach
  `processRemoveContainersFromApp` (`ui/views/apps/operations.py`).

  `processStopApp` writes `(name,host,path)`; the form of
  `setRemoveContainersFromAppForm` sends the text of a Python tuple.  Nothing is escaped
  in the first, and the decoder undoes no escape of the second: it strips parentheses,
  splits at the commas, and strips blanks and single quotes.

  * `splitParts_ok_iff`: what the decoder makes of three parts;
  * `clean_pyRepr_iff`: which representations it reads back;
  * `container_tuples_survive_iff`: both encodings, exactly.
-/
import ServerlessYarn.HostRemoval
import ServerlessYarn.Lib.Components
import ServerlessYarn.Lib.Traversal
import ServerlessYarn.Texts
import Mathlib.Data.List.Basic

namespace ServerlessYarn

open Traversal Trim HostsTask

/-! ## Encoders and decoder -/

/-- An entry of `container_list`. -/
structure RemovedContainer where
  container_name : String
  host : String
  disk_path : String
deriving DecidableEq

/-- What should be removed for a container of the database. -/
def removedEntry (c : DbStructure) : RemovedContainer := ⟨c.name, c.host, c.disk_path.getD ""⟩

/-- `"({0},{1},{2})".format(name, host, disk_path)` of `processStopApp`. -/
def stopAppText (name host disk_path : String) : List Char :=
  '(' :: name.toList ++ ',' :: host.toList ++ ',' :: disk_path.toList ++ [')']

/-- The text of the tuple `(name, host, disk_path)`, the value of a choice of
    `setRemoveContainersFromAppForm`. -/
def choiceText (isprintable : Char → Bool) (name host disk_path : String) : List Char :=
  '(' :: pyRepr isprintable name.toList ++ ',' :: ' ' :: pyRepr isprintable host.toList ++
    ',' :: ' ' :: pyRepr isprintable disk_path.toList ++ [')']

/-- `container_list` of `processStopApp`. -/
def stopAppTexts (app_containers : List DbStructure) : List (List Char) :=
  app_containers.map fun c => stopAppText c.name c.host (c.disk_path.getD "")

/-- The values of the choices of `setRemoveContainersFromAppForm`. -/
def choiceTexts (isprintable : Char → Bool) (containers : List DbStructure) : List (List Char) :=
  containers.map fun c => choiceText isprintable c.name c.host (c.disk_path.getD "")

/-- `part.strip().strip("'")`. -/
def clean (part : List Char) : List Char := stripChar '\'' (strip part)

/-- The first three parts between the commas. -/
def splitParts (s : List Char) : Py (List Char × List Char × List Char) :=
  match s.splitOn ',' with
  | container :: host :: disk_path :: _ => .ok (clean container, clean host, clean disk_path)
  | _ => .error .indexError

/-- The body of the loop of `processRemoveContainersFromApp`. -/
def decodeContainer (cont_hosts : List Char) : Py RemovedContainer := do
  let parts ← splitParts (stripChar ')' (stripChar '(' cont_hosts))
  return ⟨String.ofList parts.1, String.ofList parts.2.1, String.ofList parts.2.2⟩

/-- The `container_list` that `processRemoveContainersFromApp` passes on. -/
def removedContainers (container_host_duples : List (List Char)) : Py (List RemovedContainer) :=
  container_host_duples.mapM decodeContainer

/-! ## The parts -/

theorem clean_sublist (s : List Char) : (clean s).Sublist s :=
  (trim_sublist _ _).trans (trim_sublist _ _)

/-- What the decoder makes of three parts, if the text was not cut elsewhere. -/
theorem splitParts_ok_iff {a b c x y z : List Char} (ha : ',' ∉ x → ',' ∉ a) (hb : ',' ∉ y → ',' ∉ b)
    (hc : ',' ∉ z → ',' ∉ c) :
    splitParts (a ++ ',' :: (b ++ ',' :: c)) = .ok (x, y, z) ↔
      (',' ∉ x ∧ clean a = x) ∧ (',' ∉ y ∧ clean b = y) ∧ ',' ∉ z ∧ clean c = z := by
  have hfree {part s : List Char} (h : part ∈ s.splitOn ',') : ',' ∉ clean part :=
    fun hmem => Components.notMem_of_mem_splitOn h ((clean_sublist part).subset hmem)
  constructor
  · intro h
    -- the parts are found one after the other
    cases hsplit : (a ++ ',' :: (b ++ ',' :: c)).splitOn ',' with
    | nil => exact absurd hsplit (List.splitOn_ne_nil _ _)
    | cons p ps =>
      have hp : ',' ∉ clean p := hfree (hsplit ▸ List.mem_cons_self)
      unfold splitParts at h
      rw [hsplit] at h
      rcases ps with _ | ⟨p', _ | ⟨p'', ps⟩⟩
      · cases h
      · cases h
      · cases h
        rw [List.splitOn_append_cons_self_of_not_mem (ha hp)] at hsplit
        obtain ⟨hp_eq, hrest⟩ := List.cons.inj hsplit
        have hp' : ',' ∉ clean p' := by
          refine hfree (s := b ++ ',' :: c) ?_
          rw [hrest]
          exact List.mem_cons_self
        rw [List.splitOn_append_cons_self_of_not_mem (hb hp')] at hrest
        obtain ⟨hp'_eq, hlast⟩ := List.cons.inj hrest
        have hp'' : ',' ∉ clean p'' := by
          refine hfree (s := c) ?_
          rw [hlast]
          exact List.mem_cons_self
        rw [List.splitOn_eq_singleton (hc hp'')] at hlast
        obtain ⟨hp''_eq, -⟩ := List.cons.inj hlast
        rw [hp_eq, hp'_eq, hp''_eq]
        exact ⟨⟨hp, rfl⟩, ⟨hp', rfl⟩, hp'', rfl⟩
  · rintro ⟨⟨hx, rfl⟩, ⟨hy, rfl⟩, hz, rfl⟩
    unfold splitParts
    rw [List.splitOn_append_cons_self_of_not_mem (ha hx),
      List.splitOn_append_cons_self_of_not_mem (hb hy), List.splitOn_eq_singleton (hc hz)]

theorem decodeContainer_ok_iff {s : List Char} {name host disk_path : String} :
    decodeContainer s = .ok ⟨name, host, disk_path⟩ ↔
      splitParts (stripChar ')' (stripChar '(' s)) =
        .ok (name.toList, host.toList, disk_path.toList) := by
  unfold decodeContainer
  rw [bind_eq_ok]
  constructor
  · rintro ⟨⟨x, y, z⟩, hparts, h⟩
    cases h
    simpa using hparts
  · intro h
    exact ⟨_, h, by simp⟩

/-! ## Plain texts -/

/-- What the decoder keeps of a part that is written as it is. -/
structure PlainPart (x : List Char) : Prop where
  comma : ',' ∉ x
  first : ∀ c ∈ x.head?, Tasks.isSpace c = false ∧ c ≠ '\''
  last : ∀ c ∈ x.getLast?, Tasks.isSpace c = false ∧ c ≠ '\''

theorem clean_eq_self_iff {x : List Char} :
    clean x = x ↔ (∀ c ∈ x.head?, Tasks.isSpace c = false ∧ c ≠ '\'') ∧
      ∀ c ∈ x.getLast?, Tasks.isSpace c = false ∧ c ≠ '\'' := by
  have hboth : clean x = x ↔ strip x = x ∧ stripChar '\'' x = x := by
    constructor
    · intro h
      have hstrip : strip x = x := by
        refine (trim_sublist _ x).antisymm ?_
        have hsub := trim_sublist (fun c => decide (c = '\'')) (strip x)
        rwa [show trim (fun c => decide (c = '\'')) (strip x) = x from h] at hsub
      refine ⟨hstrip, ?_⟩
      unfold clean at h
      rwa [hstrip] at h
    · rintro ⟨hstrip, hquotes⟩
      unfold clean
      rw [hstrip, hquotes]
  have hstrip : strip x = x ↔ _ := trim_eq_self_iff
  have hquotes : stripChar '\'' x = x ↔ _ := trim_eq_self_iff
  rw [hboth, hstrip, hquotes]
  simp only [decide_eq_false_iff_not]
  constructor
  · rintro ⟨⟨hf, hl⟩, hf', hl'⟩
    exact ⟨fun c hc => ⟨hf c hc, hf' c hc⟩, fun c hc => ⟨hl c hc, hl' c hc⟩⟩
  · rintro ⟨hf, hl⟩
    exact ⟨⟨fun c hc => (hf c hc).1, fun c hc => (hl c hc).1⟩, fun c hc => (hf c hc).2,
      fun c hc => (hl c hc).2⟩

theorem plainPart_iff {x : List Char} : PlainPart x ↔ ',' ∉ x ∧ clean x = x := by
  rw [clean_eq_self_iff]
  exact ⟨fun h => ⟨h.comma, h.first, h.last⟩, fun h => ⟨h.1, h.2.1, h.2.2⟩⟩

/-! ## Represented texts -/

theorem reprQuote_ne (x : List Char) : reprQuote x ≠ '(' ∧ reprQuote x ≠ ')' := by
  unfold reprQuote
  split_ifs <;> decide

theorem strip_pyRepr (isprintable : Char → Bool) (x : List Char) :
    strip (pyRepr isprintable x) = pyRepr isprintable x := by
  have hquote : Tasks.isSpace (reprQuote x) = false := by
    unfold reprQuote
    split_ifs <;> decide
  refine trim_eq_self_iff.2 ⟨fun c hc => ?_, fun c hc => ?_⟩
  · cases hc
    exact hquote
  · unfold pyRepr at hc
    rw [List.getLast?_concat] at hc
    cases hc
    exact hquote

theorem clean_space_cons (s : List Char) : clean (' ' :: s) = clean s := by
  unfold clean strip
  rw [trim_cons (by decide)]

/-- Without single quotes, the decoder finds what stands between the quotes. -/
theorem clean_pyRepr (isprintable : Char → Bool) {x : List Char} (hx : '\'' ∉ x) :
    clean (pyRepr isprintable x) = reprBody isprintable x := by
  have hquote : reprQuote x = '\'' := if_neg fun h => hx h.1
  have hbody : ∀ c ∈ reprBody isprintable x, decide (c = '\'') = false := by
    intro c hc
    obtain ⟨d, hd, hmem⟩ := List.mem_flatMap.1 hc
    refine decide_eq_false ?_
    rintro rfl
    exact hx (mem_reprChar hmem (.inr rfl) ▸ hd)
  unfold clean
  rw [strip_pyRepr]
  have htrim : stripChar '\'' (pyRepr isprintable x) =
      trim (fun c => decide (c = '\'')) ('\'' :: (reprBody isprintable x ++ ['\''])) := by
    unfold pyRepr
    rw [hquote]
    rfl
  rw [htrim, trim_cons (by decide)]
  cases hnil : reprBody isprintable x with
  | nil => decide
  | cons c cs =>
    rw [hnil] at hbody
    rw [trim_concat (by decide) _ ⟨c, List.mem_cons_self, hbody c List.mem_cons_self⟩]
    refine trim_eq_self_iff.2 ⟨fun d hd => ?_, fun d hd => ?_⟩
    · exact hbody d (List.mem_of_mem_head? hd)
    · exact hbody d (List.mem_of_mem_getLast? hd)

theorem quote_notMem_of_clean_pyRepr {isprintable : Char → Bool} {x : List Char}
    (h : clean (pyRepr isprintable x) = x) : '\'' ∉ x := by
  intro hmem
  unfold clean at h
  rw [strip_pyRepr] at h
  have hcount (c : Char) (hc : decide (c = '\'') = false) :
      x.count c = (pyRepr isprintable x).count c := by
    calc x.count c = (stripChar '\'' (pyRepr isprintable x)).count c := by rw [h]
      _ = (pyRepr isprintable x).count c := count_trim (p := fun d => decide (d = '\'')) hc _
  by_cases hdouble : '"' ∈ x
  · -- the single quote is escaped, and its backslash stays
    have hquote : reprQuote x = '\'' := if_neg fun h => h.2 hdouble
    have hback := hcount '\\' (by decide)
    have hle := count_backslash_le isprintable x
    have hpos : 0 < x.count '\'' := List.count_pos_iff.2 hmem
    unfold pyRepr reprBody at hback
    rw [hquote] at hback
    simp at hback
    omega
  · -- the double quotes around the text stay
    have hquote : reprQuote x = '"' := if_pos ⟨hmem, hdouble⟩
    have hzero : x.count '"' = 0 := List.count_eq_zero.2 hdouble
    have hone := hcount '"' (by decide)
    unfold pyRepr at hone
    rw [hquote, hzero, List.count_append] at hone
    simp at hone

theorem not_verbatim_quote (isprintable : Char → Bool) : ¬ Verbatim isprintable '\'' := by
  unfold Verbatim reprChar
  simp

/-- The decoder reads a representation back if it holds no escapes. -/
theorem clean_pyRepr_iff {isprintable : Char → Bool} {x : List Char} :
    clean (pyRepr isprintable x) = x ↔ ∀ c ∈ x, Verbatim isprintable c := by
  constructor
  · intro h
    have hx := quote_notMem_of_clean_pyRepr h
    rw [clean_pyRepr isprintable hx] at h
    exact (reprBody_eq_self_iff hx).1 h
  · intro h
    have hx : '\'' ∉ x := by
      intro hmem
      exact not_verbatim_quote isprintable (h _ hmem)
    rw [clean_pyRepr isprintable hx]
    exact (reprBody_eq_self_iff hx).2 h

/-! ## Three parts -/

/-- Without the outer parentheses, and those that follow them. -/
theorem strip_parentheses (a b c : List Char) :
    stripChar ')' (stripChar '(' ('(' :: a ++ ',' :: b ++ ',' :: c ++ [')'])) =
      (a.dropWhile (· = '(')).dropWhile (· = ')') ++ ',' :: (b ++ ',' :: c.rdropWhile (· = ')')) := by
  have hopen : stripChar '(' ('(' :: a ++ ',' :: b ++ ',' :: c ++ [')']) =
      a.dropWhile (· = '(') ++ ',' :: (b ++ ',' :: (c ++ [')'])) := by
    have hassoc : '(' :: a ++ ',' :: b ++ ',' :: c ++ [')'] =
        '(' :: (a ++ ',' :: (b ++ ',' :: (c ++ [')']))) := by simp
    have hlast : (b ++ ',' :: (c ++ [')'])).rdropWhile (· = '(') = b ++ ',' :: (c ++ [')']) := by
      rw [rdropWhile_append_cons (by decide), List.rdropWhile_concat_neg _ _ _ (by decide)]
    calc stripChar '(' ('(' :: a ++ ',' :: b ++ ',' :: c ++ [')'])
        = trim (· = '(') ('(' :: (a ++ ',' :: (b ++ ',' :: (c ++ [')'])))) := by rw [hassoc]; rfl
      _ = a.dropWhile (· = '(') ++ ',' :: (b ++ ',' :: (c ++ [')'])).rdropWhile (· = '(') := by
        rw [trim_cons (by decide), trim_append_cons (by decide)]
      _ = a.dropWhile (· = '(') ++ ',' :: (b ++ ',' :: (c ++ [')'])) := by rw [hlast]
  have hclose : (b ++ ',' :: (c ++ [')'])).rdropWhile (· = ')') = b ++ ',' :: c.rdropWhile (· = ')') := by
    rw [rdropWhile_append_cons (by decide), List.rdropWhile_concat_pos _ _ _ (by decide)]
  rw [hopen]
  calc stripChar ')' (a.dropWhile (· = '(') ++ ',' :: (b ++ ',' :: (c ++ [')'])))
      = trim (· = ')') (a.dropWhile (· = '(') ++ ',' :: (b ++ ',' :: (c ++ [')']))) := rfl
    _ = _ := by rw [trim_append_cons (by decide), hclose]

/-- A part that the decoder could only shorten. -/
theorem clean_of_sublist_iff {a x : List Char} (ha : a.Sublist x) :
    ',' ∉ x ∧ clean a = x ↔ PlainPart x ∧ a = x := by
  rw [plainPart_iff]
  constructor
  · rintro ⟨hcomma, hclean⟩
    have hax : a = x := by
      refine ha.antisymm ?_
      have hsub := clean_sublist a
      rwa [hclean] at hsub
    rw [hax] at hclean
    exact ⟨⟨hcomma, hclean⟩, hax⟩
  · rintro ⟨⟨hcomma, hclean⟩, rfl⟩
    exact ⟨hcomma, hclean⟩

theorem dropWhile_parentheses_iff {a : List Char} :
    (a.dropWhile (· = '(')).dropWhile (· = ')') = a ↔ ∀ c ∈ a.head?, c ≠ '(' ∧ c ≠ ')' := by
  have hboth : (a.dropWhile (· = '(')).dropWhile (· = ')') = a ↔
      a.dropWhile (· = '(') = a ∧ a.dropWhile (· = ')') = a := by
    constructor
    · intro h
      have hopen : a.dropWhile (· = '(') = a := by
        refine (List.dropWhile_sublist _).antisymm ?_
        have hsub := List.dropWhile_sublist (l := a.dropWhile (· = '(')) (· = ')')
        rwa [h] at hsub
      rw [hopen] at h
      exact ⟨hopen, h⟩
    · rintro ⟨hopen, hclose⟩
      rw [hopen, hclose]
  rw [hboth, dropWhile_eq_self, dropWhile_eq_self]
  simp only [decide_eq_false_iff_not]
  constructor
  · rintro ⟨hopen, hclose⟩ c hc
    exact ⟨hopen c hc, hclose c hc⟩
  · intro h
    exact ⟨fun c hc => (h c hc).1, fun c hc => (h c hc).2⟩

/-! ## Both encodings -/

/-- The texts that survive `processStopApp`. -/
structure StopAppReadable (name host disk_path : String) : Prop where
  name_plain : PlainPart name.toList
  host_plain : PlainPart host.toList
  disk_path_plain : PlainPart disk_path.toList
  /-- Parentheses at the outer ends are taken for those of the tuple. -/
  name_first : ∀ c ∈ name.toList.head?, c ≠ '(' ∧ c ≠ ')'
  disk_path_last : ∀ c ∈ disk_path.toList.getLast?, c ≠ ')'

/-- The texts that survive the form: no commas, and nothing that `repr` escapes. -/
def ChoiceReadable (isprintable : Char → Bool) (name host disk_path : String) : Prop :=
  ∀ x ∈ [name, host, disk_path], ∀ c ∈ x.toList, c ≠ ',' ∧ Verbatim isprintable c

theorem decodeContainer_stopAppText_iff {name host disk_path : String} :
    decodeContainer (stopAppText name host disk_path) = .ok ⟨name, host, disk_path⟩ ↔
      StopAppReadable name host disk_path := by
  have hname : ((name.toList.dropWhile (· = '(')).dropWhile (· = ')')).Sublist name.toList :=
    (List.dropWhile_sublist _).trans (List.dropWhile_sublist _)
  have hdisk : (disk_path.toList.rdropWhile (· = ')')).Sublist disk_path.toList :=
    (List.rdropWhile_prefix _ _).sublist
  unfold stopAppText
  rw [decodeContainer_ok_iff, strip_parentheses,
    splitParts_ok_iff (fun hx hmem => hx (hname.subset hmem)) id (fun hx hmem => hx (hdisk.subset hmem)),
    clean_of_sublist_iff hname, clean_of_sublist_iff (List.Sublist.refl _), clean_of_sublist_iff hdisk,
    dropWhile_parentheses_iff, rdropWhile_eq_self]
  simp only [decide_eq_false_iff_not]
  constructor
  · rintro ⟨⟨hn, hfirst⟩, ⟨hh, -⟩, hd, hlast⟩
    exact ⟨hn, hh, hd, hfirst, hlast⟩
  · intro h
    exact ⟨⟨h.name_plain, h.name_first⟩, ⟨h.host_plain, trivial⟩, h.disk_path_plain, h.disk_path_last⟩

theorem decodeContainer_choiceText_iff {isprintable : Char → Bool} {name host disk_path : String} :
    decodeContainer (choiceText isprintable name host disk_path) = .ok ⟨name, host, disk_path⟩ ↔
      ChoiceReadable isprintable name host disk_path := by
  have hname : ((pyRepr isprintable name.toList).dropWhile (· = '(')).dropWhile (· = ')') =
      pyRepr isprintable name.toList := by
    refine dropWhile_parentheses_iff.2 fun c hc => ?_
    cases hc
    exact reprQuote_ne name.toList
  have hdisk : (' ' :: pyRepr isprintable disk_path.toList).rdropWhile (· = ')') =
      ' ' :: pyRepr isprintable disk_path.toList := by
    refine rdropWhile_eq_self.2 fun c hc => ?_
    unfold pyRepr at hc
    rw [← List.cons_append, List.getLast?_concat] at hc
    cases hc
    exact decide_eq_false (reprQuote_ne disk_path.toList).2
  have hcomma {x : List Char} (hx : ',' ∉ x) : ',' ∉ ' ' :: pyRepr isprintable x := by
    rw [List.mem_cons, not_or]
    exact ⟨by decide, comma_notMem_pyRepr isprintable hx⟩
  have hpart {x : List Char} : ',' ∉ x ∧ clean (pyRepr isprintable x) = x ↔
      ∀ c ∈ x, c ≠ ',' ∧ Verbatim isprintable c := by
    rw [clean_pyRepr_iff]
    constructor
    · rintro ⟨hx, hverbatim⟩ c hc
      exact ⟨fun h => hx (h ▸ hc), hverbatim c hc⟩
    · intro h
      exact ⟨fun hc => (h _ hc).1 rfl, fun c hc => (h c hc).2⟩
  have htext : choiceText isprintable name host disk_path =
      '(' :: pyRepr isprintable name.toList ++ ',' :: (' ' :: pyRepr isprintable host.toList) ++
        ',' :: (' ' :: pyRepr isprintable disk_path.toList) ++ [')'] := rfl
  rw [decodeContainer_ok_iff, htext, strip_parentheses, hname, hdisk,
    splitParts_ok_iff (comma_notMem_pyRepr isprintable) hcomma hcomma, clean_space_cons,
    clean_space_cons, hpart, hpart, hpart]
  simp only [ChoiceReadable, List.forall_mem_cons, List.not_mem_nil, false_implies, implies_true,
    and_true]

/-- **Both encodings are read back exactly when no text holds what they do not escape.** -/
theorem container_tuples_survive_iff (isprintable : Char → Bool) (name host disk_path : String) :
    (decodeContainer (stopAppText name host disk_path) = .ok ⟨name, host, disk_path⟩ ↔
      StopAppReadable name host disk_path) ∧
    (decodeContainer (choiceText isprintable name host disk_path) = .ok ⟨name, host, disk_path⟩ ↔
      ChoiceReadable isprintable name host disk_path) :=
  ⟨decodeContainer_stopAppText_iff, decodeContainer_choiceText_iff⟩

/-- What the task is launched with, when an application is stopped. -/
theorem removedContainers_stopApp_iff {app_containers : List DbStructure} :
    removedContainers (stopAppTexts app_containers) = .ok (app_containers.map removedEntry) ↔
      ∀ c ∈ app_containers, StopAppReadable c.name c.host (c.disk_path.getD "") := by
  unfold removedContainers stopAppTexts
  rw [List.mapM_map, mapM_eq_ok_map_iff]
  exact forall₂_congr fun c _ => decodeContainer_stopAppText_iff

/-- What the task is launched with, when containers are chosen in the form. -/
theorem removedContainers_choices_iff {isprintable : Char → Bool} {containers : List DbStructure} :
    removedContainers (choiceTexts isprintable containers) = .ok (containers.map removedEntry) ↔
      ∀ c ∈ containers, ChoiceReadable isprintable c.name c.host (c.disk_path.getD "") := by
  unfold removedContainers choiceTexts
  rw [List.mapM_map, mapM_eq_ok_map_iff]
  exact forall₂_congr fun c _ => decodeContainer_choiceText_iff

/-- A parenthesis ends the path, and a comma cuts it: another directory is removed. -/
theorem container_tuples_shortened :
    decodeContainer (stopAppText "c0" "host0" "/mnt/disk (1)") = .ok ⟨"c0", "host0", "/mnt/disk (1"⟩ ∧
    decodeContainer (choiceText (fun _ => true) "c0" "host0" "/mnt/disk,1") =
      .ok ⟨"c0", "host0", "/mnt/disk"⟩ := by
  decide +kernel

end ServerlessYarn
