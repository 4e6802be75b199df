/-
  ServerlessYARN model — where pip installs to, inferred from its options (`_extract_option_value`,
  `_will_pip_install_to_user` and `_infer_pip_paths` of smart_sharedfs, plugins/action/pip.py).

  The options are one text, `extra_args`, which is split as a shell does it.  An option gets its
  value behind an equals sign or as the next word; a word that begins with a dash is no value.
  What the interpreter and the pip of a host answer is given; a probe that raises is outside the
  model.

  * `optionValues_tokens`: the values that were given to an option are found, in order;
  * `inferPipPaths_written`: what is inferred from a command line, however it is written;
  * `named_place_once`: a task that names one place gives every host the same paths, so the install runs
    on one host per share.
-/
import ServerlessYarn.DiskAtop
import ServerlessYarn.Lib.ShellWords
import ServerlessYarn.SharedFsElection
import ServerlessYarn.Texts

namespace ServerlessYarn

namespace PipOptions

/-! ## The values of an option -/

def dashes : List Char := ['-', '-']

/-- `_normalize_opt` -/
def normalizeOpt (option : List Char) : List Char := if option.head? = some '-' then option else dashes ++ option

/-- `tok.split('=', 1)[1]` -/
def behindEquals (tok : List Char) : List Char := (tok.dropWhile (· ≠ '=')).tail

/-- The loop of `_extract_option_value` over the words. -/
def optionValues (opt : List Char) : List (List Char) → List (List Char)
  | [] => []
  | [tok] =>
    if tok = dashes then []
    else if (opt ++ ['=']).isPrefixOf tok then [behindEquals tok]
    else if tok = opt then [[]]
    else []
  | tok :: next :: rest =>
    if tok = dashes then []
    else if (opt ++ ['=']).isPrefixOf tok then behindEquals tok :: optionValues opt (next :: rest)
    else if tok = opt then
      if next.head? = some '-' then [] :: optionValues opt (next :: rest) else next :: optionValues opt rest
    else optionValues opt (next :: rest)

/-- `shlex.split` -/
def shlexSplit (text : List Char) : Py (List (List Char)) :=
  match ShellWords.split text with
  | .ok tokens => .ok tokens
  | .error _ => .error .valueError

/-- `_extract_option_value`: the last value, if there is one. -/
def extractOptionValue (extra_args option : List Char) : Py (Option (List Char)) := do
  let tokens ← shlexSplit extra_args
  return (optionValues (normalizeOpt option) tokens).getLast?

/-! ## The paths -/

/-- What the remote Python has found out. -/
structure Probe where
  is_venv : Bool
  global_writable : Bool
  pep668_externally_managed : Bool

/-- The environment of the task, with the flags that come from the configuration of pip. -/
structure PipEnv where
  pip_user : List Char
  pip_cfg_install_user_true : Bool
  pip_cfg_global_user_true : Bool

/-- What differs between the hosts. -/
structure PipHost where
  probe : Probe
  env : PipEnv
  home : Option String

/-- `_will_pip_install_to_user` behind the options: the environment, the configuration, and what can be
    written. -/
def userByDefault (probe : Probe) (env : PipEnv) : Bool :=
  ["1".toList, "true".toList, "True".toList].contains (strip env.pip_user) ||
    env.pip_cfg_install_user_true || env.pip_cfg_global_user_true ||
    (!probe.is_venv && (probe.pep668_externally_managed || !probe.global_writable))

/-- `if module_args.get("virtualenv")` -/
def given (path : Option String) : Bool := path.any (· ≠ "")

/-- `_will_pip_install_to_user` -/
def willPipInstallToUser (extra_args : List Char) (virtualenv : Option String) (host : PipHost) : Py Bool := do
  if (← extractOptionValue extra_args "--target".toList).isSome then return false
  if (← extractOptionValue extra_args "--prefix".toList).isSome then return false
  if (← extractOptionValue extra_args "--root".toList).isSome then return false
  if given virtualenv then return false
  if (← extractOptionValue extra_args "--user".toList).isSome then return true
  return userByDefault host.probe host.env

/-- `os.path.join(home, '.local')` -/
def userSite (home : Option String) : Py String :=
  match home with
  | some home => .ok (osPathJoin home ".local")
  | none => .error .typeError

/-- `_infer_pip_paths`, without the cache. -/
def inferPipPaths (extra_args : Option String) (virtualenv : Option String) (host : PipHost) : Py PipPaths := do
  let extra := strip (extra_args.getD "").toList
  let target ← extractOptionValue extra "--target".toList
  let prefix_dir ← extractOptionValue extra "--prefix".toList
  let root ← extractOptionValue extra "--root".toList
  let user := (words extra).contains "--user".toList
  let will ← if user && given host.home then pure true else willPipInstallToUser extra virtualenv host
  let user_site ← if will then (userSite host.home).map some else pure none
  return ⟨virtualenv, target.map String.ofList, prefix_dir.map String.ofList, root.map String.ofList, user_site⟩

/-! ## Command lines -/

/-- An argument of pip: an option with its value, in either way, one without a value, or something else. -/
inductive PipArg where
  | assigned (opt value : List Char)
  | spaced (opt value : List Char)
  | flag (opt : List Char)
  | other (text : List Char)

/-- The name of an option. -/
def IsOption (opt : List Char) : Prop := opt.head? = some '-' ∧ opt ≠ dashes ∧ '=' ∉ opt

namespace PipArg

def tokens : PipArg → List (List Char)
  | assigned opt value => [opt ++ '=' :: value]
  | spaced opt value => [opt, value]
  | flag opt => [opt]
  | other text => [text]

def Ok : PipArg → Prop
  | assigned opt _ => IsOption opt
  | spaced opt value => IsOption opt ∧ value.head? ≠ some '-'
  | flag opt => IsOption opt
  | other text => text.head? ≠ some '-'

/-- The value that the argument gives to an option. -/
def valueOf? (o : List Char) : PipArg → Option (List Char)
  | assigned opt value => if opt = o then some value else none
  | spaced opt value => if opt = o then some value else none
  | flag opt => if opt = o then some [] else none
  | other _ => none

/-- Something else may not stand behind an option without a value, which would take it. -/
def Apart : PipArg → PipArg → Prop
  | flag _, other _ => False
  | _, _ => True

end PipArg

/-- The values that a command line gives to an option. -/
def valuesOf (o : List Char) (args : List PipArg) : List (List Char) := args.filterMap (PipArg.valueOf? o)

/-! ## What was given is found -/

theorem ne_of_mem_option {opt : List Char} (hopt : '=' ∉ opt) : ∀ c ∈ opt, decide (c ≠ '=') = true := by
  intro c hc
  exact decide_eq_true fun h => hopt (h ▸ hc)

theorem takeWhile_option {opt : List Char} (hopt : '=' ∉ opt) (value : List Char) :
    (opt ++ '=' :: value).takeWhile (· ≠ '=') = opt := by
  rw [List.takeWhile_append_of_pos (ne_of_mem_option hopt)]
  simp

theorem behindEquals_option {opt : List Char} (hopt : '=' ∉ opt) (value : List Char) :
    behindEquals (opt ++ '=' :: value) = value := by
  unfold behindEquals
  rw [List.dropWhile_append_of_pos (ne_of_mem_option hopt)]
  simp

/-- The option before the first equals sign decides. -/
theorem isPrefixOf_assigned {o opt : List Char} (ho : '=' ∉ o) (hopt : '=' ∉ opt) (value : List Char) :
    (o ++ ['=']).isPrefixOf (opt ++ '=' :: value) = true ↔ opt = o := by
  rw [List.isPrefixOf_iff_prefix]
  constructor
  · rintro ⟨rest, hrest⟩
    rw [List.append_assoc, List.singleton_append] at hrest
    rw [← takeWhile_option hopt value, ← hrest, takeWhile_option ho]
  · rintro rfl
    exact ⟨value, by simp⟩

theorem isPrefixOf_plain {o tok : List Char} (htok : '=' ∉ tok) : (o ++ ['=']).isPrefixOf tok = false := by
  rw [← Bool.not_eq_true, List.isPrefixOf_iff_prefix]
  exact fun h => htok (h.subset (by simp))

section words
variable {o tok : List Char}

/-- A word that does not concern the option. -/
theorem optionValues_skip (hdashes : tok ≠ dashes) (hassigned : (o ++ ['=']).isPrefixOf tok = false) (hne : tok ≠ o)
    (rest : List (List Char)) : optionValues o (tok :: rest) = optionValues o rest := by
  cases rest <;> simp [optionValues, hdashes, hassigned, hne]

theorem optionValues_assigned (hdashes : tok ≠ dashes) (hassigned : (o ++ ['=']).isPrefixOf tok = true)
    (rest : List (List Char)) : optionValues o (tok :: rest) = behindEquals tok :: optionValues o rest := by
  cases rest <;> simp [optionValues, hdashes, hassigned]

theorem optionValues_spaced (ho : IsOption o) {value : List Char} (hvalue : value.head? ≠ some '-')
    (rest : List (List Char)) : optionValues o (o :: value :: rest) = value :: optionValues o rest := by
  simp [optionValues, ho.2.1, isPrefixOf_plain ho.2.2, hvalue]

theorem optionValues_flag (ho : IsOption o) {rest : List (List Char)}
    (hrest : ∀ next ∈ rest.head?, next.head? = some '-') :
    optionValues o (o :: rest) = [] :: optionValues o rest := by
  cases rest with
  | nil => simp [optionValues, ho.2.1, isPrefixOf_plain ho.2.2]
  | cons next rest => simp [optionValues, ho.2.1, isPrefixOf_plain ho.2.2, hrest next rfl]

theorem optionValues_dashes (o : List Char) (rest : List (List Char)) : optionValues o (dashes :: rest) = [] := by
  cases rest <;> simp [optionValues]

end words

/-- The end of the options: nothing, or two dashes and whatever comes behind them. -/
def Ends (tail : List (List Char)) : Prop := tail = [] ∨ ∃ rest, tail = dashes :: rest

theorem dash_ne_of_head {o text : List Char} (ho : o.head? = some '-') (htext : text.head? ≠ some '-') :
    text ≠ o := by
  rintro rfl
  exact htext ho

/-- A text that does not begin with a dash concerns no option. -/
theorem optionValues_other {o text : List Char} (ho : IsOption o) (htext : text.head? ≠ some '-')
    (rest : List (List Char)) : optionValues o (text :: rest) = optionValues o rest := by
  refine optionValues_skip (dash_ne_of_head rfl htext) ?_ (dash_ne_of_head ho.1 htext) rest
  rw [← Bool.not_eq_true, List.isPrefixOf_iff_prefix]
  rintro ⟨more, rfl⟩
  obtain ⟨cs, rfl⟩ := List.head?_eq_some_iff.1 ho.1
  exact htext rfl

/-- What stands behind an option without a value begins with a dash, if anything does. -/
theorem head_behind_flag {opt : List Char} {args : List PipArg} (hok : ∀ a ∈ args, a.Ok)
    (hapart : (PipArg.flag opt :: args).IsChain PipArg.Apart) {tail : List (List Char)} (htail : Ends tail) :
    ∀ next ∈ (args.flatMap PipArg.tokens ++ tail).head?, next.head? = some '-' := by
  cases args with
  | nil =>
    rcases htail with rfl | ⟨rest, rfl⟩
    · exact fun next hnext => by cases hnext
    · rintro _ ⟨rfl⟩
      rfl
  | cons b args =>
    have hb := hok b List.mem_cons_self
    cases b with
    | assigned opt' value =>
      rintro _ ⟨rfl⟩
      rw [List.head?_append, hb.1]
      rfl
    | spaced opt' value =>
      rintro _ ⟨rfl⟩
      exact hb.1.1
    | flag opt' =>
      rintro _ ⟨rfl⟩
      exact hb.1
    | other text => exact absurd (List.isChain_cons_cons.1 hapart).1 id

/-- **The values that were given to an option are found**, in order. -/
theorem optionValues_tokens {o : List Char} (ho : IsOption o) {args : List PipArg} (hok : ∀ a ∈ args, a.Ok)
    (hapart : args.IsChain PipArg.Apart) {tail : List (List Char)} (htail : Ends tail) :
    optionValues o (args.flatMap PipArg.tokens ++ tail) = valuesOf o args := by
  induction args with
  | nil =>
    rcases htail with rfl | ⟨rest, rfl⟩
    · rfl
    · exact optionValues_dashes o rest
  | cons a args ih =>
    have hrest := ih (fun b hb => hok b (List.mem_cons_of_mem _ hb)) hapart.tail
    have ha := hok a List.mem_cons_self
    rw [List.flatMap_cons, List.append_assoc]
    cases a with
    | assigned opt value =>
      have hdashes : opt ++ '=' :: value ≠ dashes := by
        intro h
        have hmem : '=' ∈ dashes := h ▸ by simp
        simp [dashes] at hmem
      have hpre := isPrefixOf_assigned ho.2.2 ha.2.2 value
      by_cases hsame : opt = o
      · rw [PipArg.tokens, List.singleton_append, optionValues_assigned hdashes (hpre.2 hsame), hrest,
          behindEquals_option ha.2.2]
        simp [valuesOf, PipArg.valueOf?, hsame]
      · have hne : opt ++ '=' :: value ≠ o := fun h => ho.2.2 (h ▸ by simp)
        rw [PipArg.tokens, List.singleton_append,
          optionValues_skip hdashes (Bool.not_eq_true _ ▸ mt hpre.1 hsame) hne, hrest]
        simp [valuesOf, PipArg.valueOf?, hsame]
    | spaced opt value =>
      rw [PipArg.tokens, List.cons_append, List.singleton_append]
      by_cases hsame : opt = o
      · rw [hsame, optionValues_spaced ho ha.2, hrest]
        simp [valuesOf, PipArg.valueOf?]
      · rw [optionValues_skip ha.1.2.1 (isPrefixOf_plain ha.1.2.2) hsame, optionValues_other ho ha.2, hrest]
        simp [valuesOf, PipArg.valueOf?, hsame]
    | flag opt =>
      rw [PipArg.tokens, List.singleton_append]
      by_cases hsame : opt = o
      · subst hsame
        have hnext := head_behind_flag (fun b hb => hok b (List.mem_cons_of_mem _ hb)) hapart htail
        rw [optionValues_flag ho hnext, hrest]
        simp [valuesOf, PipArg.valueOf?]
      · rw [optionValues_skip ha.2.1 (isPrefixOf_plain ha.2.2) hsame, hrest]
        simp [valuesOf, PipArg.valueOf?, hsame]
    | other text =>
      rw [PipArg.tokens, List.singleton_append, optionValues_other ho ha, hrest]
      exact (List.filterMap_cons_none rfl).symm

/-! ## What is inferred -/

/-- A command line: the arguments, in any way a shell reads, with what comes behind two dashes. -/
structure Written (args : List PipArg) (text : List Char) : Prop where
  ok : ∀ a ∈ args, a.Ok
  apart : args.IsChain PipArg.Apart
  reads : ∃ tail, Ends tail ∧ ShellWords.Writes (args.flatMap PipArg.tokens ++ tail) text

def targetOpt : List Char := "--target".toList
def prefixOpt : List Char := "--prefix".toList
def rootOpt : List Char := "--root".toList
def userOpt : List Char := "--user".toList

theorem isOption_targetOpt : IsOption targetOpt := ⟨rfl, by decide, by decide⟩
theorem isOption_prefixOpt : IsOption prefixOpt := ⟨rfl, by decide, by decide⟩
theorem isOption_rootOpt : IsOption rootOpt := ⟨rfl, by decide, by decide⟩
theorem isOption_userOpt : IsOption userOpt := ⟨rfl, by decide, by decide⟩

/-- The value that counts is the last. -/
def lastOf (o : List Char) (args : List PipArg) : Option (List Char) := (valuesOf o args).getLast?

theorem isSome_lastOf {o : List Char} {args : List PipArg} :
    (lastOf o args).isSome = true ↔ valuesOf o args ≠ [] := by
  simp [lastOf, List.getLast?_isSome]

/-- The option finds the last value that the command line gives it. -/
theorem extractOptionValue_written {args : List PipArg} {text o : List Char} (h : Written args text)
    (ho : IsOption o) : extractOptionValue text o = .ok (lastOf o args) := by
  obtain ⟨tail, htail, hwrites⟩ := h.reads
  have hopt : normalizeOpt o = o := if_pos ho.1
  rw [extractOptionValue, shlexSplit, ShellWords.split_of_writes hwrites, hopt]
  exact congrArg (fun values => Except.ok values.getLast?) (optionValues_tokens ho h.ok h.apart htail)

/-- The command line says where to install. -/
def Explicit (args : List PipArg) : Prop :=
  valuesOf targetOpt args ≠ [] ∨ valuesOf prefixOpt args ≠ [] ∨ valuesOf rootOpt args ≠ []

/-- Nothing says where to install, and the command line or the host say that it is the home directory. -/
def GoesToUser (args : List PipArg) (virtualenv : Option String) (host : PipHost) : Prop :=
  ¬ Explicit args ∧ given virtualenv = false ∧
    (valuesOf userOpt args ≠ [] ∨ userByDefault host.probe host.env = true)

/-- The home directory counts as a place where something is written. -/
def WantsUserSite (args : List PipArg) (text : List Char) (virtualenv : Option String) (host : PipHost) : Prop :=
  (userOpt ∈ words text ∧ given host.home = true) ∨ GoesToUser args virtualenv host

/-- What the command line and the virtual environment say. -/
def namedPaths (args : List PipArg) (virtualenv : Option String) : PipPaths where
  venv := virtualenv
  target := (lastOf targetOpt args).map String.ofList
  prefixDir := (lastOf prefixOpt args).map String.ofList
  root := (lastOf rootOpt args).map String.ofList

theorem explicit_iff {args : List PipArg} : Explicit args ↔
    (lastOf targetOpt args).isSome = true ∨ (lastOf prefixOpt args).isSome = true ∨
      (lastOf rootOpt args).isSome = true := by
  simp only [isSome_lastOf, Explicit]

/-- The install goes to the home directory as the command line and the host say. -/
theorem willPipInstallToUser_written {args : List PipArg} {text : List Char} (h : Written args text)
    (virtualenv : Option String) (host : PipHost) :
    ∃ will, willPipInstallToUser text virtualenv host = .ok will ∧
      (will = true ↔ GoesToUser args virtualenv host) := by
  have htarget : extractOptionValue text "--target".toList = .ok (lastOf targetOpt args) :=
    extractOptionValue_written h isOption_targetOpt
  have hpre : extractOptionValue text "--prefix".toList = .ok (lastOf prefixOpt args) :=
    extractOptionValue_written h isOption_prefixOpt
  have hroot : extractOptionValue text "--root".toList = .ok (lastOf rootOpt args) :=
    extractOptionValue_written h isOption_rootOpt
  have huser : extractOptionValue text "--user".toList = .ok (lastOf userOpt args) :=
    extractOptionValue_written h isOption_userOpt
  simp only [willPipInstallToUser, htarget, hpre, hroot, huser, bind, Except.bind]
  rw [GoesToUser, explicit_iff, ← isSome_lastOf (o := userOpt)]
  by_cases ht : (lastOf targetOpt args).isSome = true
  · exact ⟨false, by simp [ht, pure, Except.pure], by simp [ht]⟩
  by_cases hp : (lastOf prefixOpt args).isSome = true
  · exact ⟨false, by simp [hp, pure, Except.pure], by simp [hp]⟩
  by_cases hr : (lastOf rootOpt args).isSome = true
  · exact ⟨false, by simp [hr, pure, Except.pure], by simp [hr]⟩
  cases hv : given virtualenv with
  | true => exact ⟨false, by simp [pure, Except.pure], by simp⟩
  | false =>
    by_cases hu : (lastOf userOpt args).isSome = true
    · exact ⟨true, by simp [ht, hp, hr, hu, pure, Except.pure], by simp [ht, hp, hr, hu]⟩
    · refine ⟨userByDefault host.probe host.env, ?_, by simp [ht, hp, hr, hu]⟩
      simp [ht, hp, hr, hu, pure, Except.pure]

/-- The paths, when the home directory does or does not count. -/
theorem inferPipPaths_eq {extra_args : String} {args : List PipArg} (h : Written args (strip extra_args.toList))
    (virtualenv : Option String) (host : PipHost) :
    ∃ will : Bool, (will = true ↔ WantsUserSite args (strip extra_args.toList) virtualenv host) ∧
      inferPipPaths (some extra_args) virtualenv host =
        if will then (userSite host.home).map fun site => { namedPaths args virtualenv with userSite := some site }
        else .ok (namedPaths args virtualenv) := by
  have htarget : extractOptionValue (strip extra_args.toList) "--target".toList = .ok (lastOf targetOpt args) :=
    extractOptionValue_written h isOption_targetOpt
  have hpre : extractOptionValue (strip extra_args.toList) "--prefix".toList = .ok (lastOf prefixOpt args) :=
    extractOptionValue_written h isOption_prefixOpt
  have hroot : extractOptionValue (strip extra_args.toList) "--root".toList = .ok (lastOf rootOpt args) :=
    extractOptionValue_written h isOption_rootOpt
  obtain ⟨will, hwill, huser⟩ := willPipInstallToUser_written h virtualenv host
  have hsite : ∀ b : Bool, (do
        let user_site ← if b then (userSite host.home).map some else pure none
        return (⟨virtualenv, (lastOf targetOpt args).map String.ofList, (lastOf prefixOpt args).map String.ofList,
          (lastOf rootOpt args).map String.ofList, user_site⟩ : PipPaths)) =
      if b then (userSite host.home).map fun site => { namedPaths args virtualenv with userSite := some site }
      else .ok (namedPaths args virtualenv) := by
    intro b
    cases b with
    | false => rfl
    | true => cases hhome : userSite host.home <;> rfl
  have hinfer : inferPipPaths (some extra_args) virtualenv host = (do
      let will ← if (words (strip extra_args.toList)).contains userOpt && given host.home then pure true
        else willPipInstallToUser (strip extra_args.toList) virtualenv host
      let user_site ← if will then (userSite host.home).map some else pure none
      return (⟨virtualenv, (lastOf targetOpt args).map String.ofList, (lastOf prefixOpt args).map String.ofList,
        (lastOf rootOpt args).map String.ofList, user_site⟩ : PipPaths)) := by
    simp only [inferPipPaths, Option.getD_some, htarget, hpre, hroot, bind, Except.bind]
    rfl
  rw [hinfer, hwill]
  by_cases hflag : userOpt ∈ words (strip extra_args.toList) ∧ given host.home = true
  · refine ⟨true, by simp [WantsUserSite, hflag], ?_⟩
    rw [if_pos (by simpa using hflag)]
    exact hsite true
  · refine ⟨will, by rw [huser, WantsUserSite, or_iff_right hflag], ?_⟩
    rw [if_neg (by simpa using hflag)]
    exact hsite will

/-- **What is inferred from a command line**, however it is written: the value given last to each option, and
    the home directory when the command line or the host say so, which then has to be known. -/
theorem inferPipPaths_written {extra_args : String} {args : List PipArg}
    (h : Written args (strip extra_args.toList)) (virtualenv : Option String) (host : PipHost) :
    (∀ paths, inferPipPaths (some extra_args) virtualenv host = .ok paths ↔
      (¬ WantsUserSite args (strip extra_args.toList) virtualenv host ∧ paths = namedPaths args virtualenv) ∨
      (WantsUserSite args (strip extra_args.toList) virtualenv host ∧ ∃ home, host.home = some home ∧
        paths = { namedPaths args virtualenv with userSite := some (osPathJoin home ".local") })) ∧
    ∀ e, inferPipPaths (some extra_args) virtualenv host = .error e ↔
      WantsUserSite args (strip extra_args.toList) virtualenv host ∧ host.home = none ∧ e = .typeError := by
  obtain ⟨will, hwants, hinfer⟩ := inferPipPaths_eq h virtualenv host
  rw [hinfer, ← hwants]
  cases will with
  | false => simp [eq_comm]
  | true =>
    cases hhome : host.home with
    | none => simp [userSite, Except.map, eq_comm]
    | some home => simp [userSite, Except.map, eq_comm]

/-- A place that the task names itself is not the home directory, unless the command line says so too. -/
theorem not_wantsUserSite {args : List PipArg} {text : List Char} {virtualenv : Option String} {target : String}
    (hnamed : (namedPaths args virtualenv).installTargets = [target]) (huser : userOpt ∉ words text)
    (host : PipHost) : ¬ WantsUserSite args text virtualenv host := by
  rintro (⟨hmem, -⟩ | ⟨hexplicit, hvenv, -⟩)
  · exact huser hmem
  simp only [explicit_iff, not_or, Bool.not_eq_true, Option.isSome_eq_false_iff, Option.isNone_iff_eq_none]
    at hexplicit
  have hnone : virtualenv.filter (· ≠ "") = none := by
    cases virtualenv with
    | none => rfl
    | some path => simpa [given, Option.filter] using hvenv
  rw [PipPaths.installTargets, namedPaths, List.filterMap_cons_none hnone] at hnamed
  simp [hexplicit] at hnamed

/-- A command line with a target. -/
def targetLine : String := "--target /home/lib"

theorem written_targetLine : Written [.spaced targetOpt "/home/lib".toList] (strip targetLine.toList) where
  ok := by simpa using ⟨isOption_targetOpt, by decide⟩
  apart := List.isChain_singleton _
  reads := by
    have hbare : [targetOpt, "/home/lib".toList].all ShellWords.isBare = true := rfl
    exact ⟨[], Or.inl rfl, ShellWords.writes_self fun word hword =>
      ShellWords.isBare_iff.1 (List.all_eq_true.1 hbare word hword)⟩

/-- Two hosts with a common `/home`, of which one would install there anyway. -/
def unlikeHosts (host : String) : PipHost where
  probe := ⟨false, decide (host = "a"), false⟩
  env := ⟨[], false, false⟩
  home := some "/home/u"

theorem inferPipPaths_written_target :
    inferPipPaths (some targetLine) none (unlikeHosts "b") = .ok { target := some "/home/lib" } :=
  ((inferPipPaths_written written_targetLine none (unlikeHosts "b")).1 _).2
    (Or.inl ⟨not_wantsUserSite rfl (by decide) _, rfl⟩)

/-! ## One install per share -/

/-- `run` of the `pip` plugin on one of the hosts, each of which infers the paths for itself. -/
def pipOn (v : TaskVars) (extra_args virtualenv : Option String) (hosts : String → PipHost) (host : String) :
    Py TaskResult := do
  if ¬ v.smartSharedfsEnabled then return .executed
  let paths ← inferPipPaths extra_args virtualenv (hosts host)
  return (v.on host).runPip paths

/-- **A task that names one place installs on one host per share**, whatever the hosts are like: they all infer
    the same paths. -/
theorem named_place_once (v : TaskVars) (hosts : String → PipHost) {extra_args : String} {args : List PipArg}
    {virtualenv : Option String} {target : String} (h : Written args (strip extra_args.toList))
    (hnamed : (namedPaths args virtualenv).installTargets = [target])
    (huser : userOpt ∉ words (strip extra_args.toList)) (henabled : v.smartSharedfsEnabled = true) :
    (∀ host, inferPipPaths (some extra_args) virtualenv (hosts host) = .ok (namedPaths args virtualenv)) ∧
    ∀ share, ∀ h₁ ∈ v.playHosts, ∀ h₂ ∈ v.playHosts,
      v.shareAt target h₁ = some share → v.shareAt target h₂ = some share →
      pipOn v extra_args virtualenv hosts h₁ = .ok .executed →
      pipOn v extra_args virtualenv hosts h₂ = .ok .executed → h₁ = h₂ := by
  have hinfer : ∀ host, inferPipPaths (some extra_args) virtualenv (hosts host) =
      .ok (namedPaths args virtualenv) := fun host =>
    ((inferPipPaths_written h virtualenv (hosts host)).1 _).2 (Or.inl ⟨not_wantsUserSite hnamed huser _, rfl⟩)
  have hruns : ∀ host, pipOn v extra_args virtualenv hosts host = .ok .executed →
      v.RunsPip (namedPaths args virtualenv) host := by
    intro host hrun
    simp only [pipOn, henabled, hinfer, not_true_eq_false, if_false] at hrun
    exact Except.ok.inj hrun
  refine ⟨hinfer, fun share h₁ hh₁ h₂ hh₂ hs₁ hs₂ hr₁ hr₂ => ?_⟩
  have honce := v.pip_once_per_share_of_single henabled hnamed
  exact honce target (by rw [hnamed]; exact List.mem_singleton_self _) share h₁ hh₁ h₂ hh₂ hs₁ hs₂
    (hruns h₁ hr₁) (hruns h₂ hr₂)

theorem named_place_once_target :
    (∀ host, inferPipPaths (some targetLine) none (unlikeHosts host) = .ok { target := some "/home/lib" }) ∧
    ∀ share, ∀ h₁ ∈ TaskVars.sharedHome.playHosts, ∀ h₂ ∈ TaskVars.sharedHome.playHosts,
      TaskVars.sharedHome.shareAt "/home/lib" h₁ = some share →
      TaskVars.sharedHome.shareAt "/home/lib" h₂ = some share →
      pipOn TaskVars.sharedHome targetLine none unlikeHosts h₁ = .ok .executed →
      pipOn TaskVars.sharedHome targetLine none unlikeHosts h₂ = .ok .executed → h₁ = h₂ := by
  have hnamed : (namedPaths [.spaced targetOpt "/home/lib".toList] none).installTargets = ["/home/lib"] := rfl
  exact named_place_once TaskVars.sharedHome unlikeHosts written_targetLine hnamed (by decide) rfl

end PipOptions

end ServerlessYarn
