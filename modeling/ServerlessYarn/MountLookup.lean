/-
  ServerlessYARN model — which mount `longest_mount` finds.

  The mounts under a destination are told by their texts, and the deepest one by the
  length of its text.  `normalize_path` keeps exactly two leading slashes, which no mount
  point has: such a destination is found to lie under the root only.

  * `underMount_iff`: the mounts that are found under a destination;
  * `mountText_length_lt`: of these, the longer texts are the deeper ones;
  * `longestMount_deepest_iff`: the deepest mount of a destination is found iff the
    destination does not begin with exactly two slashes, or lies under no other mount than
    the root.
-/
import ServerlessYarn.Lib.Components
import ServerlessYarn.Lib.FirstMax
import ServerlessYarn.SharedFs

namespace ServerlessYarn

open Components

/-! ## Paths and their components -/

/-- The text of an absolute path without superfluous slashes. -/
def mountText (parts : List (List Char)) : List Char := '/' :: ['/'].intercalate parts

/-- The components of the mount point. -/
def Mount.parts (m : Mount) : List (List Char) := posixParts (m.mount.getD "").toList

/-- The mount point is absolute and normalised: it is the text of its components. -/
def Mount.Normalised (m : Mount) : Prop := m.mount = some (String.ofList (mountText m.parts))

/-- The path is absolute. -/
def Absolute (dest : String) : Prop := dest.toList.head? = some '/'

/-- The path begins with two slashes, and no more. -/
def TwoSlashes (dest : String) : Prop := posixRoot dest.toList = ['/', '/']

instance (dest : String) : Decidable (TwoSlashes dest) := inferInstanceAs (Decidable (_ = _))

/-- The mount point is the destination, or an ancestor of it. -/
def Mount.Above (m : Mount) (dest : String) : Prop := m.parts <+: posixParts dest.toList

/-- What is to be found: the first record with the deepest mount point of those above the
    destination, and none if there are none. -/
def DeepestMount (mounts : List Mount) (dest : String) : Option Mount → Prop :=
  FirstMax.Best (fun m => m.Above dest) (fun m => m.parts.length) mounts

/-- A component is not empty and has no slash. -/
def PlainParts (parts : List (List Char)) : Prop := ∀ c ∈ parts, c ≠ [] ∧ '/' ∉ c

theorem plainParts_posixParts (p : List Char) : PlainParts (posixParts p) := by
  intro c hc
  obtain ⟨hmem, hkeep⟩ := List.mem_filter.1 hc
  exact ⟨(of_decide_eq_true hkeep).1, notMem_of_mem_splitOn hmem⟩

@[simp] theorem mountText_nil : mountText [] = ['/'] := rfl

theorem mountText_eq_prefixed {parts : List (List Char)} (h : parts ≠ []) :
    mountText parts = prefixed '/' parts := cons_intercalate h

/-- The text of a path other than the root does not begin with two slashes. -/
theorem mountText_cons {c : List Char} {parts : List (List Char)} (h : PlainParts (c :: parts)) :
    ∃ d t, mountText (c :: parts) = '/' :: d :: t ∧ d ≠ '/' := by
  obtain ⟨hne, hslash⟩ := h c List.mem_cons_self
  obtain ⟨d, t, rfl⟩ := List.exists_cons_of_ne_nil hne
  refine ⟨d, t ++ prefixed '/' parts, ?_, ?_⟩
  · rw [mountText_eq_prefixed (List.cons_ne_nil _ _)]
    rfl
  · rintro rfl
    exact hslash List.mem_cons_self

/-- The text of the directory under a mount point. -/
theorem mountDir_mountText {parts : List (List Char)} (h : PlainParts parts) :
    mountDir (String.ofList (mountText parts)) = prefixed '/' parts ++ ['/'] := by
  unfold mountDir
  rw [String.toList_ofList]
  congr 1
  rcases List.eq_nil_or_concat parts with rfl | ⟨init, c, rfl⟩
  · rfl
  · -- the last component ends with something else than a slash
    obtain ⟨hne, hslash⟩ := h c (by simp)
    obtain ⟨c', x, rfl⟩ := (List.eq_nil_or_concat c).resolve_left hne
    have hx : ¬ decide (x = '/') = true := by
      rw [decide_eq_true_eq]
      rintro rfl
      exact hslash (by simp)
    have htext : prefixed '/' (init.concat (c'.concat x)) = prefixed '/' init ++ '/' :: c' ++ [x] := by
      simp [List.concat_eq_append, prefixed_append]
    rw [mountText_eq_prefixed (by simp), htext, List.rdropWhile_concat, if_neg hx]

/-! ## The mounts under a destination -/

/-- Where the text of the destination is that of its components. -/
theorem under_mountText_iff {parts dest : List (List Char)} (hparts : PlainParts parts)
    (hdest : PlainParts dest) :
    (mountText dest = mountText parts ∨ prefixed '/' parts ++ ['/'] <+: mountText dest) ↔
      parts <+: dest := by
  rcases eq_or_ne parts [] with rfl | hne
  · exact iff_of_true (.inr ⟨['/'].intercalate dest, rfl⟩) List.nil_prefix
  · rcases eq_or_ne dest [] with rfl | hne'
    · refine iff_of_false ?_ fun h => hne (List.prefix_nil.1 h)
      obtain ⟨c, parts, rfl⟩ := List.exists_cons_of_ne_nil hne
      obtain ⟨d, t, htext, -⟩ := mountText_cons hparts
      rintro (heq | hstart)
      · rw [htext] at heq
        cases heq
      · have hlength := hstart.length_le
        simp at hlength
    · rw [mountText_eq_prefixed hne, mountText_eq_prefixed hne',
        ← prefixed_prefix_iff hparts fun c hc => (hdest c hc).2, List.prefix_concat_iff]
      refine or_congr_left ?_
      rw [List.append_cancel_right_eq]
      exact eq_comm

/-- After two slashes only the root is found. -/
theorem under_twoSlashes_iff {parts : List (List Char)} (hparts : PlainParts parts) (t : List Char) :
    ('/' :: '/' :: t = mountText parts ∨ prefixed '/' parts ++ ['/'] <+: '/' :: '/' :: t) ↔
      parts = [] := by
  cases parts with
  | nil => exact iff_of_true (.inr ⟨'/' :: t, rfl⟩) rfl
  | cons c parts =>
    refine iff_of_false ?_ (List.cons_ne_nil _ _)
    obtain ⟨d, t', htext, hd⟩ := mountText_cons hparts
    rw [← mountText_eq_prefixed (List.cons_ne_nil _ _), htext]
    rintro (heq | hstart)
    · simp only [List.cons.injEq, true_and] at heq
      exact hd heq.1.symm
    · simp only [List.cons_append, List.cons_prefix_cons, true_and] at hstart
      exact hd hstart.1

theorem normalizePath_eq {dest : String} (h : posixRoot dest.toList ≠ []) :
    normalizePath dest =
      String.ofList (posixRoot dest.toList ++ ['/'].intercalate (posixParts dest.toList)) := by
  unfold normalizePath
  exact if_neg fun hnil => h (List.append_eq_nil_iff.1 hnil).1

theorem posixRoot_of_absolute {dest : String} (h : Absolute dest) (htwo : ¬ TwoSlashes dest) :
    posixRoot dest.toList = ['/'] := by
  unfold TwoSlashes at htwo
  unfold Absolute at h
  revert htwo h
  fun_cases posixRoot dest.toList with
  | case1 | case3 => exact fun _ _ => rfl
  | case2 => exact fun _ htwo => absurd rfl htwo
  | case4 p _ _ hslash =>
    intro h
    obtain ⟨t, ht⟩ := List.head?_eq_some_iff.1 h
    exact absurd ht (hslash t)

/-- The mount is found under the destination: it is above it, and the root if that begins
    with two slashes. -/
def Mount.FoundUnder (m : Mount) (dest : String) : Prop :=
  m.Above dest ∧ (TwoSlashes dest → m.parts = [])

instance (m : Mount) (dest : String) : Decidable (m.FoundUnder dest) :=
  inferInstanceAs (Decidable ((m.parts <+: posixParts dest.toList) ∧ (TwoSlashes dest → m.parts = [])))

theorem underMount_iff {m : Mount} {dest : String} (hdest : Absolute dest) :
    UnderMount (normalizePath dest) (String.ofList (mountText m.parts)) ↔ m.FoundUnder dest := by
  have hparts : PlainParts m.parts := plainParts_posixParts _
  have habove := under_mountText_iff hparts (plainParts_posixParts dest.toList)
  by_cases htwo : TwoSlashes dest
  · have hroot : posixRoot dest.toList = ['/', '/'] := htwo
    rw [normalizePath_eq (by simp [hroot]), UnderMount, mountDir_mountText hparts,
      List.isPrefixOf_iff_prefix, String.toList_ofList, String.ofList_inj, hroot]
    refine (under_twoSlashes_iff hparts _).trans ⟨fun hnil => ?_, fun h => h.2 htwo⟩
    refine ⟨?_, fun _ => hnil⟩
    rw [Mount.Above, hnil]
    exact List.nil_prefix
  · have hroot := posixRoot_of_absolute hdest htwo
    rw [normalizePath_eq (by simp [hroot]), UnderMount, mountDir_mountText hparts,
      List.isPrefixOf_iff_prefix, String.toList_ofList, String.ofList_inj, hroot]
    exact habove.trans (and_iff_left fun h => absurd h htwo).symm

/-! ## The lookup -/

/-- The length of the text of a mount point. -/
def Mount.textLength (m : Mount) : ℤ := (mountText m.parts).length

/-- One record of the lookup. -/
theorem longestStep_eq {m : Mount} (hm : m.Normalised) {dest : String} (hdest : Absolute dest)
    (best : Option Mount × ℤ) :
    longestStep (normalizePath dest) best m =
      FirstMax.scanStep (fun m => m.FoundUnder dest) Mount.textLength best m := by
  have hne : String.ofList (mountText m.parts) ≠ "" := by
    rw [Ne, String.ofList_eq_empty_iff]
    exact List.cons_ne_nil _ _
  have hmount : m.mount.filter (· ≠ "") = some (String.ofList (mountText m.parts)) := by
    rw [show m.mount = _ from hm]
    exact if_pos (decide_eq_true hne)
  unfold longestStep FirstMax.scanStep
  rw [hmount]
  simp only [underMount_iff hdest, String.length_ofList]
  rfl

/-- A deeper path of two that lead to one destination has the longer text. -/
theorem mountText_length_lt {parts parts' : List (List Char)} (hparts : PlainParts parts')
    (h : parts <+: parts') (hlt : parts.length < parts'.length) :
    (mountText parts).length < (mountText parts').length := by
  have hne' : parts' ≠ [] := List.ne_nil_of_length_pos (by omega)
  rcases eq_or_ne parts [] with rfl | hne
  · obtain ⟨c, rest, rfl⟩ := List.exists_cons_of_ne_nil hne'
    obtain ⟨d, t, htext, -⟩ := mountText_cons hparts
    simp [htext]
  · rw [mountText_eq_prefixed hne, mountText_eq_prefixed hne']
    exact prefixed_length_lt h hlt

/-- Of the mounts above a destination, the longer texts are the deeper ones. -/
theorem textLength_lt_iff {m m' : Mount} {dest : String} (h : m.Above dest) (h' : m'.Above dest) :
    m.textLength < m'.textLength ↔ m.parts.length < m'.parts.length := by
  have hparts := plainParts_posixParts (m.mount.getD "").toList
  have hparts' := plainParts_posixParts (m'.mount.getD "").toList
  unfold Mount.textLength
  rw [Int.ofNat_lt]
  constructor
  · intro hlt
    by_contra hle
    have hstart := List.prefix_of_prefix_length_le h' h (not_lt.1 hle)
    rcases (not_lt.1 hle).eq_or_lt with heq | hless
    · rw [hstart.eq_of_length heq] at hlt
      exact absurd hlt (lt_irrefl _)
    · exact absurd (mountText_length_lt hparts hstart hless) hlt.le.not_gt
  · intro hlt
    exact mountText_length_lt hparts' (List.prefix_of_prefix_length_le h h' hlt.le) hlt

/-- What the lookup finds: the deepest mount of those found under the destination. -/
theorem longestMount_best {mounts : List Mount} (hmounts : ∀ m ∈ mounts, m.Normalised)
    {dest : String} (hdest : Absolute dest) :
    FirstMax.Best (fun m => m.FoundUnder dest) (fun m => m.parts.length) mounts
      (longestMount mounts dest) := by
  have hscan : (mounts.foldl (FirstMax.scanStep (fun m => m.FoundUnder dest) Mount.textLength)
      (none, -1)).1 = longestMount mounts dest := by
    unfold longestMount
    rw [List.foldl_ext _ _ _ fun best m hm => longestStep_eq (hmounts m hm) hdest best]
  have hmarker : ∀ m ∈ mounts, m.FoundUnder dest → -1 < m.textLength := by
    intro m _ _
    unfold Mount.textLength
    omega
  refine ((FirstMax.scan_eq_iff hmarker).1 hscan).congr (fun _ _ => Iff.rfl) ?_
  exact fun m _ m' _ h h' => textLength_lt_iff h.1 h'.1

/-- **The deepest mount of a destination is found iff** the destination does not begin with
    exactly two slashes, or lies under no other mount than the root. -/
theorem longestMount_deepest_iff {mounts : List Mount} (hmounts : ∀ m ∈ mounts, m.Normalised)
    {dest : String} (hdest : Absolute dest) :
    DeepestMount mounts dest (longestMount mounts dest) ↔
      ¬ TwoSlashes dest ∨ ∀ m ∈ mounts, m.Above dest → m.parts = [] := by
  have hbest := longestMount_best hmounts hdest
  constructor
  · intro hdeepest
    refine or_iff_not_imp_left.2 fun htwo m hm habove => ?_
    rw [not_not] at htwo
    cases hfound : longestMount mounts dest with
    | none =>
      rw [hfound] at hdeepest
      exact absurd habove (hdeepest m hm)
    | some a =>
      -- the root is found, so nothing above the destination is deeper
      rw [hfound] at hdeepest hbest
      have hroot : a.parts = [] := hbest.1.2 htwo
      have hmax : FirstMax (fun m => m.Above dest) (fun m => m.parts.length) mounts a := hdeepest
      have hdepth : m.parts.length ≤ a.parts.length := hmax.le hm habove
      rw [hroot] at hdepth
      exact List.length_eq_zero_iff.1 (Nat.le_zero.1 hdepth)
  · intro hcond
    refine hbest.congr (fun m hm => and_iff_left_of_imp fun habove htwo => ?_) fun _ _ _ _ _ _ => Iff.rfl
    exact (hcond.resolve_left (not_not.2 htwo)) m hm habove

/-- The root and a share on `/data`. -/
def sampleMounts : List Mount :=
  [⟨some "/", some "/dev/sda1", some "ext4"⟩, ⟨some "/data", some "server:/export", some "nfs4"⟩]

theorem sampleMounts_normalised : ∀ m ∈ sampleMounts, m.Normalised := by
  intro m hm
  rcases List.mem_pair.1 hm with rfl | rfl <;> rfl

/-- The share is found for what lies in it. -/
theorem longestMount_sample :
    DeepestMount sampleMounts "/data/x" (longestMount sampleMounts "/data/x") :=
  (longestMount_deepest_iff sampleMounts_normalised
    (show "/data/x".toList.head? = some '/' from rfl)).2 (.inl (by decide +kernel))

/-- After two slashes only the root is found, though the share is above the destination. -/
theorem longestMount_twoSlashes : (∀ m ∈ sampleMounts, m.Normalised) ∧ Absolute "//data/x" ∧
    longestMount sampleMounts "//data/x" = some ⟨some "/", some "/dev/sda1", some "ext4"⟩ ∧
    ¬ DeepestMount sampleMounts "//data/x" (longestMount sampleMounts "//data/x") := by
  have hfound : longestMount sampleMounts "//data/x" =
      some ⟨some "/", some "/dev/sda1", some "ext4"⟩ := by decide +kernel
  have habove : (⟨some "/data", some "server:/export", some "nfs4"⟩ : Mount).Above "//data/x" := by
    show [['d', 'a', 't', 'a']] <+: [['d', 'a', 't', 'a'], ['x']]
    exact ⟨[['x']], rfl⟩
  refine ⟨sampleMounts_normalised, rfl, hfound, fun hdeepest => ?_⟩
  rw [hfound] at hdeepest
  have hmax : FirstMax (fun m => m.Above "//data/x") (fun m => m.parts.length) sampleMounts
      ⟨some "/", some "/dev/sda1", some "ext4"⟩ := hdeepest
  exact absurd (hmax.le (List.mem_cons_of_mem _ List.mem_cons_self) habove) (by decide +kernel)

end ServerlessYarn
