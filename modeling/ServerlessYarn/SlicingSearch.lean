/-
  ServerlessYARN model — when the search for a slicing is optimal
  (`plugins/modules/get_mappers.py`).

  The search leaves its loop early.  This is right because larger chunks are no
  more numerous, also after rounding: once a slicing gives too few, every later one does.
  So the answer is the best one for the estimates that the module computes; it is the best
  one for the chunks of the even split when rounding does not change which one that is.

  * `enoughMappers_succ`, `enoughMappers_stop`: one more slicing, and the early exit;
  * `slicingLoop_nearest_firstMin`: the loop with fewer files than mappers;
  * `slicingLoop_multiple_firstMost`: the loop with more files than mappers;
  * `getMappers_reported`: what the module answers;
  * `getMappers_optimal_iff`: when that is optimal.
-/
import ServerlessYarn.Lib.FirstMin
import ServerlessYarn.Mappers
import Mathlib.Data.Set.Insert
import Mathlib.Order.Interval.Set.Basic

namespace ServerlessYarn

open Binary64 Chunks

/-- The slicing to choose among those up to `last`, for the mappers `est` of each.  With fewer
    files than mappers it is the first with the fewest mappers among those with enough; else the
    first with a multiple of `max_mappers`, and if there is none, the first that leaves most over. -/
structure Optimal (est : ℕ → ℤ) (last files max_mappers s : ℕ) : Prop where
  nearest : files < max_mappers →
    FirstMin {t | t ∈ Set.Icc 1 last ∧ (max_mappers : ℤ) ≤ est t} est s
  multiple : max_mappers ≤ files → (∃ t ∈ Set.Icc 1 last, (max_mappers : ℤ) ∣ est t) →
    IsLeast {t | t ∈ Set.Icc 1 last ∧ (max_mappers : ℤ) ∣ est t} s
  mostLeft : max_mappers ≤ files → (∀ t ∈ Set.Icc 1 last, ¬ (max_mappers : ℤ) ∣ est t) →
    FirstMin (Set.Icc 1 last) (fun t => OrderDual.toDual (est t % max_mappers)) s

/-- The slicings below `k` that give `max_mappers` mappers or more. -/
def enoughMappers (est : ℕ → ℤ) (max_mappers k : ℕ) : Set ℕ :=
  {s | 1 ≤ s ∧ s < k ∧ (max_mappers : ℤ) ≤ est s}

/-- The slicings below `k` whose mappers are a multiple of `max_mappers`. -/
def multipleMappers (est : ℕ → ℤ) (max_mappers k : ℕ) : Set ℕ :=
  {s | 1 ≤ s ∧ s < k ∧ (max_mappers : ℤ) ∣ est s}

/-- `s` is the first slicing below `k` that leaves most mappers over. -/
def FirstMostLeft (est : ℕ → ℤ) (max_mappers k s : ℕ) : Prop :=
  FirstMin (Set.Ico 1 k) (fun t => OrderDual.toDual (est t % max_mappers)) s

/-! ## One optimum -/

section
variable {est est' : ℕ → ℤ} {last F M s s' : ℕ}

theorem Optimal.unique (h : Optimal est last F M s) (h' : Optimal est last F M s') : s = s' := by
  rcases lt_or_ge F M with hlt | hge
  · exact (h.nearest hlt).unique (h'.nearest hlt)
  · by_cases hsome : ∃ t ∈ Set.Icc 1 last, (M : ℤ) ∣ est t
    · exact (h.multiple hge hsome).unique (h'.multiple hge hsome)
    · have hnone : ∀ t ∈ Set.Icc 1 last, ¬ (M : ℤ) ∣ est t := fun t ht hdvd => hsome ⟨t, ht, hdvd⟩
      exact (h.mostLeft hge hnone).unique (h'.mostLeft hge hnone)

/-- Only the mappers of the slicings up to the last one count. -/
theorem Optimal.congr (heq : ∀ t ∈ Set.Icc 1 last, est t = est' t) (h : Optimal est last F M s) :
    Optimal est' last F M s where
  nearest hlt := by
    have hset : {t | t ∈ Set.Icc 1 last ∧ (M : ℤ) ≤ est t} =
        {t | t ∈ Set.Icc 1 last ∧ (M : ℤ) ≤ est' t} := by
      ext t
      exact and_congr_right fun ht => by rw [heq t ht]
    rw [← hset]
    exact (h.nearest hlt).congr fun t ht => heq t ht.1
  multiple hge hsome := by
    have hset : {t | t ∈ Set.Icc 1 last ∧ (M : ℤ) ∣ est t} =
        {t | t ∈ Set.Icc 1 last ∧ (M : ℤ) ∣ est' t} := by
      ext t
      exact and_congr_right fun ht => by rw [heq t ht]
    obtain ⟨t, ht, hdvd⟩ := hsome
    rw [← hset]
    exact h.multiple hge ⟨t, ht, (heq t ht).symm ▸ hdvd⟩
  mostLeft hge hnone := by
    refine (h.mostLeft hge fun t ht => (heq t ht).symm ▸ hnone t ht).congr fun t ht => ?_
    rw [heq t ht]

/-! ## The candidates -/

/-- One more slicing that gives enough mappers. -/
theorem enoughMappers_succ {k : ℕ} (hk : 1 ≤ k) (h : (M : ℤ) ≤ est k) :
    enoughMappers est M (k + 1) = insert k (enoughMappers est M k) := by
  ext s
  simp only [enoughMappers, Set.mem_insert_iff, Set.mem_ofPred_eq]
  constructor
  · rintro ⟨hs, hlt, hM⟩
    rcases Nat.lt_succ_iff_lt_or_eq.1 hlt with hlt | rfl
    · exact Or.inr ⟨hs, hlt, hM⟩
    · exact Or.inl rfl
  · rintro (rfl | ⟨hs, hlt, hM⟩)
    · exact ⟨hk, Nat.lt_succ_self s, h⟩
    · exact ⟨hs, Nat.lt_succ_of_lt hlt, hM⟩

/-- **The early exit**: from a slicing that gives too few mappers on there is no
    candidate. -/
theorem enoughMappers_stop {k : ℕ} (hanti : ∀ t, k ≤ t → est t ≤ est k) (h : est k < M) (n : ℕ) :
    enoughMappers est M (k + n) = enoughMappers est M k := by
  ext s
  simp only [enoughMappers, Set.mem_ofPred_eq]
  constructor
  · rintro ⟨hs, -, hM⟩
    refine ⟨hs, ?_, hM⟩
    by_contra hge
    have hle := hanti s (not_lt.1 hge)
    omega
  · rintro ⟨hs, hlt, hM⟩
    exact ⟨hs, by omega, hM⟩

theorem enoughMappers_two (h : (M : ℤ) ≤ est 1) : enoughMappers est M 2 = {1} := by
  ext s
  simp only [enoughMappers, Set.mem_ofPred_eq, Set.mem_singleton_iff]
  constructor
  · rintro ⟨hs, hlt, -⟩
    omega
  · rintro rfl
    exact ⟨le_rfl, by omega, h⟩

theorem Ico_succ {k : ℕ} (hk : 1 ≤ k) : Set.Ico 1 (k + 1) = insert k (Set.Ico 1 k) := by
  ext s
  simp only [Set.mem_insert_iff, Set.mem_Ico]
  omega

end

section
variable {B F M : ℕ}

/-! ## Fewer files than mappers -/

/-- **The loop for the nearest number** keeps the first slicing with the fewest
    mappers among those that give enough. -/
theorem slicingLoop_nearest_firstMin (hF : 0 < F) {n : ℕ} : ∀ {a b : ℕ} (best : BestSlicing),
    2 ≤ a → best.best_slicing = b → best.best_diff = reported B F b - M → M < reported B F b →
    FirstMin (enoughMappers (reported B F) M a) (reported B F) b →
    ∃ b' : ℕ, (slicingLoop (avgBlocks B F) B F M false
        ((List.range' a n).map fun slicing : ℕ => (slicing : ℤ)) best).1.best_slicing = b' ∧
      FirstMin (enoughMappers (reported B F) M (a + n)) (reported B F) b' := by
  induction n with
  | zero =>
    intro a b best _ hb _ _ hmin
    exact ⟨b, hb, hmin⟩
  | succ n ih =>
    intro a b best ha hb hdiff habove hmin
    have hba : b < a := hmin.mem.2.1
    have hnext : a + (n + 1) = a + 1 + n := by omega
    rw [List.range'_succ, List.map_cons, slicingLoop_cons_nearest, estimatedMappers_eq_reported B F ha]
    rcases lt_trichotomy (reported B F a) M with hlt | heq | hgt
    · -- too few mappers: the search ends, and nothing later gives enough
      rw [if_pos (by omega), BestSlicing.nearest, if_neg (by omega)]
      have hanti : ∀ t, a ≤ t → reported B F t ≤ reported B F a := fun t hat => reported_anti hF ha hat
      have hstop := enoughMappers_stop hanti hlt (n + 1)
      exact ⟨b, hb, hstop.symm ▸ hmin⟩
    · -- exactly `max_mappers`: the slicing is taken, and nothing later gives fewer
      rw [if_pos (by omega), BestSlicing.nearest, if_pos (by omega)]
      refine ⟨a, rfl, ?_⟩
      have htaken : FirstMin (enoughMappers (reported B F) M (a + 1)) (reported B F) a := by
        rw [enoughMappers_succ (by omega) heq.ge]
        exact hmin.take (by omega)
      refine htaken.extend ?_ ?_
      · rintro s ⟨hs, hlt, hM⟩
        exact ⟨hs, by omega, hM⟩
      · rintro s ⟨hs, -, hM⟩ hnot
        have hle : a ≤ s := by
          by_contra hsa
          exact hnot ⟨hs, by omega, hM⟩
        exact ⟨hle, by omega⟩
    · -- more than `max_mappers`: the slicing is taken if it gives fewer than the best
      rw [if_neg (by omega), hnext]
      by_cases hbetter : reported B F a < reported B F b
      · rw [BestSlicing.nearest, if_pos (by omega)]
        refine ih _ (by omega) rfl rfl hgt ?_
        rw [enoughMappers_succ (by omega) hgt.le]
        exact hmin.take hbetter
      · rw [BestSlicing.nearest, if_neg (by omega)]
        refine ih _ (by omega) hb hdiff habove ?_
        rw [enoughMappers_succ (by omega) hgt.le]
        exact hmin.keep hba.le (not_lt.1 hbetter)

/-! ## More files than mappers -/

/-- **The loop for a multiple** stops at the first slicing that gives one, and
    otherwise keeps the first with most mappers left over. -/
theorem slicingLoop_multiple_firstMost {n : ℕ} : ∀ {a b : ℕ} (best : BestSlicing),
    2 ≤ a → best.best_slicing = b → best.best_remaining = reported B F b % M →
    multipleMappers (reported B F) M a = ∅ → FirstMostLeft (reported B F) M a b →
    ∃ b' : ℕ, (slicingLoop (avgBlocks B F) B F M true
        ((List.range' a n).map fun slicing : ℕ => (slicing : ℤ)) best).1.best_slicing = b' ∧
      ((multipleMappers (reported B F) M (a + n)).Nonempty →
        IsLeast (multipleMappers (reported B F) M (a + n)) b') ∧
      (multipleMappers (reported B F) M (a + n) = ∅ → FirstMostLeft (reported B F) M (a + n) b') := by
  induction n with
  | zero =>
    intro a b best _ hb _ hnone hmost
    refine ⟨b, hb, ?_, fun _ => hmost⟩
    intro hsome
    exact absurd hnone hsome.ne_empty
  | succ n ih =>
    intro a b best ha hb hrem hnone hmost
    have hba : b < a := hmost.mem.2
    have hleft : (reported B F a).fmod M = reported B F a % M :=
      Int.fmod_eq_emod_of_nonneg _ (Int.natCast_nonneg M)
    have hnext : a + (n + 1) = a + 1 + n := by omega
    rw [List.range'_succ, List.map_cons, slicingLoop_cons_multiple, estimatedMappers_eq_reported B F ha,
      hleft]
    by_cases hzero : reported B F a % M = 0
    · -- a multiple: none came before it
      rw [if_pos hzero, BestSlicing.multiple, if_pos (Or.inl hzero)]
      have hmem : a ∈ multipleMappers (reported B F) M (a + (n + 1)) :=
        ⟨by omega, by omega, Int.dvd_of_emod_eq_zero hzero⟩
      refine ⟨a, rfl, fun _ => ⟨hmem, ?_⟩, ?_⟩
      · rintro s ⟨hs, -, hdvd⟩
        by_contra hlt
        have hin : s ∈ multipleMappers (reported B F) M a := ⟨hs, not_le.1 hlt, hdvd⟩
        rw [hnone] at hin
        exact hin
      · intro hempty
        rw [hempty] at hmem
        exact absurd hmem (Set.notMem_empty a)
    · -- no multiple: the slicing is taken if it leaves more over than the best
      have hnone' : multipleMappers (reported B F) M (a + 1) = ∅ := by
        refine Set.eq_empty_iff_forall_notMem.2 ?_
        rintro s ⟨hs, hlt, hdvd⟩
        rcases Nat.lt_succ_iff_lt_or_eq.1 hlt with hlt | rfl
        · have hin : s ∈ multipleMappers (reported B F) M a := ⟨hs, hlt, hdvd⟩
          rw [hnone] at hin
          exact hin
        · exact hzero (Int.emod_eq_zero_of_dvd hdvd)
      rw [if_neg hzero, hnext]
      by_cases hmore : reported B F b % M < reported B F a % M
      · rw [BestSlicing.multiple, if_pos (Or.inr (hrem ▸ hmore))]
        refine ih _ (by omega) rfl rfl hnone' ?_
        rw [FirstMostLeft, Ico_succ (by omega)]
        exact FirstMin.take hmost (OrderDual.toDual_lt_toDual.2 hmore)
      · rw [BestSlicing.multiple, if_neg (by rw [hrem]; exact not_or.2 ⟨hzero, hmore⟩)]
        refine ih _ (by omega) hb hrem hnone' ?_
        rw [FirstMostLeft, Ico_succ (by omega)]
        exact FirstMin.keep hmost hba.le (OrderDual.toDual_le_toDual.2 (not_lt.1 hmore))

/-! ## The answers -/

/-- The numbers decide by a search. -/
def Searched (files max_mappers : ℕ) (mode : String) : Prop :=
  Computed mode ∧ files < max_mappers ∨ mode = "nearest-multiple" ∧ max_mappers < files

theorem Searched.not_default {mode : String} (h : Searched F M mode) :
    ¬ (mode = "best-effort" ∧ M ≤ F ∨ mode = "nearest-multiple" ∧ F = M) := by
  rcases h with ⟨-, hlt⟩ | ⟨rfl, hlt⟩
  · rintro (⟨-, hle⟩ | ⟨-, heq⟩)
    · omega
    · omega
  · rintro (⟨h, -⟩ | ⟨-, heq⟩)
    · exact absurd h (by decide)
    · omega

theorem Searched.computed {mode : String} (h : Searched F M mode) : Computed mode := by
  rcases h with ⟨h, -⟩ | ⟨h, -⟩
  · exact h
  · exact .inr h

/-- Up to the last slicing. -/
theorem mem_Icc_iff_lt {last t : ℕ} : t ∈ Set.Icc 1 last ↔ 1 ≤ t ∧ t < last + 1 := by
  rw [Set.mem_Icc, Nat.lt_succ_iff]

/-- What the loop answers when it looks for the nearest number. -/
theorem nearest_optimal (hF : 0 < F) (hB : M < B) (hlt : F < M) (rem : ℤ) :
    ∃ s : ℕ, (slicingLoop (avgBlocks B F) B F M false (slicingRange (avgBlocks B F))
        ⟨1, B, B - M, rem⟩).1.best_slicing = s ∧ Optimal (reported B F) (lastSlicing B F) F M s := by
  have hone := one_le_lastSlicing B F
  have hstart : FirstMin (enoughMappers (reported B F) M 2) (reported B F) 1 := by
    rw [enoughMappers_two (by rw [reported_one]; omega)]
    exact FirstMin.singleton _ 1
  obtain ⟨s, hs, hmin⟩ := slicingLoop_nearest_firstMin (n := lastSlicing B F - 1)
    hF ⟨1, B, B - M, rem⟩ le_rfl rfl (by rw [reported_one]) (by rw [reported_one]; omega) hstart
  have hend : 2 + (lastSlicing B F - 1) = lastSlicing B F + 1 := by omega
  rw [hend] at hmin
  rw [slicingRange_eq]
  refine ⟨s, hs, fun _ => ?_, fun hge => by omega, fun hge => by omega⟩
  have hset : {t | t ∈ Set.Icc 1 (lastSlicing B F) ∧ (M : ℤ) ≤ reported B F t} =
      enoughMappers (reported B F) M (lastSlicing B F + 1) := by
    ext t
    simp only [enoughMappers, Set.mem_ofPred_eq, mem_Icc_iff_lt, and_assoc]
  rw [hset]
  exact hmin

/-- What the loop answers when it looks for a multiple. -/
theorem multiple_optimal (hlt : M < F) (hrem : ¬ M ∣ B) :
    ∃ s : ℕ, (slicingLoop (avgBlocks B F) B F M true (slicingRange (avgBlocks B F))
        ⟨1, B, B - M, (B % M : ℕ)⟩).1.best_slicing = s ∧
      Optimal (reported B F) (lastSlicing B F) F M s := by
  have hone := one_le_lastSlicing B F
  have hnone : multipleMappers (reported B F) M 2 = ∅ := by
    refine Set.eq_empty_iff_forall_notMem.2 ?_
    rintro s ⟨hs, hlt, hdvd⟩
    obtain rfl : s = 1 := by omega
    rw [reported_one] at hdvd
    exact hrem (Int.natCast_dvd_natCast.1 hdvd)
  have hstart : FirstMostLeft (reported B F) M 2 1 := by
    have hsingle : Set.Ico 1 2 = {1} := by
      ext s
      simp only [Set.mem_Ico, Set.mem_singleton_iff]
      omega
    rw [FirstMostLeft, hsingle]
    exact FirstMin.singleton _ 1
  obtain ⟨s, hs, hmultiple, hmost⟩ := slicingLoop_multiple_firstMost (B := B) (F := F)
    (n := lastSlicing B F - 1) ⟨1, B, B - M, (B % M : ℕ)⟩ le_rfl rfl
    (by rw [reported_one, Int.natCast_mod]) hnone hstart
  have hend : 2 + (lastSlicing B F - 1) = lastSlicing B F + 1 := by omega
  rw [hend] at hmultiple hmost
  rw [slicingRange_eq]
  refine ⟨s, hs, fun h => by omega, fun _ hsome => ?_, fun _ hnone => ?_⟩
  · have hset : {t | t ∈ Set.Icc 1 (lastSlicing B F) ∧ (M : ℤ) ∣ reported B F t} =
        multipleMappers (reported B F) M (lastSlicing B F + 1) := by
      ext t
      simp only [multipleMappers, Set.mem_ofPred_eq, mem_Icc_iff_lt, and_assoc]
    obtain ⟨t, ht, hdvd⟩ := hsome
    rw [hset]
    exact hmultiple (hset ▸ ⟨t, ht, hdvd⟩)
  · have hIco : Set.Icc 1 (lastSlicing B F) = Set.Ico 1 (lastSlicing B F + 1) := by
      ext t
      rw [mem_Icc_iff_lt, Set.mem_Ico]
    rw [hIco]
    refine hmost (Set.eq_empty_iff_forall_notMem.2 ?_)
    rintro t ⟨ht, htk, hdvd⟩
    exact hnone t (mem_Icc_iff_lt.2 ⟨ht, htk⟩) hdvd

/-- **The answer of a search** is optimal for the estimates that the module computes. -/
theorem getMappers_reported (hF : 0 < F) (hM : 0 < M) (hB : M < B) {mode : String}
    (hmode : Searched F M mode) (hconv : Converts ((B : ℚ) / F)) : ∃ m, ∃ s : ℕ,
      getMappers B F M mode = .ok m ∧ m.slicing = s ∧ Optimal (reported B F) (lastSlicing B F) F M s := by
  have hmod : intMod B M = .ok ((B % M : ℕ) : ℤ) := by
    rw [intMod, if_neg (by omega), fmod_natCast]
  rw [getMappers_of_not_default hF (by omega) hmode.computed hmode.not_default, if_neg (by omega)]
  simp only [div_avgBlocks hF hconv, hmod, bind, Except.bind]
  rcases hmode with ⟨-, hlt⟩ | ⟨rfl, hlt⟩
  · have hseeks : seeksMultiple F M mode = false := by
      simp only [seeksMultiple, decide_eq_false_iff_not]
      rintro ⟨-, hgt⟩
      omega
    simp only [hseeks, Bool.false_eq_true, false_and, if_false]
    obtain ⟨s, hs, hopt⟩ := nearest_optimal hF hB hlt (B % M : ℕ)
    exact ⟨_, s, rfl, hs, hopt⟩
  · have hseeks : seeksMultiple F M "nearest-multiple" = true := decide_eq_true ⟨rfl, hlt⟩
    simp only [hseeks, true_and]
    by_cases hzero : B % M = 0
    · -- the base slicing gives a multiple
      rw [if_pos (by rw [hzero]; rfl)]
      have hmem : 1 ∈ {t | t ∈ Set.Icc 1 (lastSlicing B F) ∧ (M : ℤ) ∣ reported B F t} := by
        refine ⟨⟨le_rfl, one_le_lastSlicing B F⟩, ?_⟩
        rw [reported_one]
        exact Int.natCast_dvd_natCast.2 (Nat.dvd_of_mod_eq_zero hzero)
      refine ⟨_, 1, rfl, rfl, fun h => by omega, fun _ _ => ⟨hmem, fun s hs => hs.1.1⟩, ?_⟩
      intro _ hnone
      exact absurd hmem.2 (hnone 1 hmem.1)
    · rw [if_neg (by exact_mod_cast hzero)]
      obtain ⟨s, hs, hopt⟩ := multiple_optimal hlt fun hdvd => hzero (Nat.mod_eq_zero_of_dvd hdvd)
      exact ⟨_, s, rfl, hs, hopt⟩

/-- Where the average does not convert to a `float`, a search raises. -/
theorem getMappers_overflow (hF : 0 < F) (hB : M < B) {mode : String}
    (hmode : Searched F M mode) (hconv : ¬ Converts ((B : ℚ) / F)) :
    getMappers B F M mode = .error .overflowError := by
  rw [getMappers_of_not_default hF (by omega) hmode.computed hmode.not_default, if_neg (by omega),
    div_overflow hF hconv]
  rfl

/-! ## When the answer is optimal -/

/-- The module answers with the slicing that is optimal when the blocks are spread as evenly as
    possible. -/
def AnswersOptimal (blocks files max_mappers : ℕ) (mode : String) : Prop :=
  ∃ m, ∃ s : ℕ, getMappers blocks files max_mappers mode = .ok m ∧ m.slicing = s ∧
    Optimal (fun t => bestCase blocks files t) (blocks ⌈/⌉ files) files max_mappers s

/-- Rounding to doubles does not change which slicing is optimal: the average converts, and one
    slicing is optimal for the rounded estimates and for the chunks of the even split. -/
def RoundingHarmless (blocks files max_mappers : ℕ) : Prop :=
  Converts ((blocks : ℚ) / files) ∧
    ∃ s, Optimal (reported blocks files) (lastSlicing blocks files) files max_mappers s ∧
      Optimal (fun t => bestCase blocks files t) (blocks ⌈/⌉ files) files max_mappers s

theorem converts_div (hF : 0 < F) (hB : B < 2 ^ 53) : Converts ((B : ℚ) / F) := by
  have hF' : (1 : ℚ) ≤ F := by exact_mod_cast hF
  have hle : (B : ℚ) / F ≤ (B : ℕ) := div_le_self (by positivity) hF'
  have hround : nearest ((B : ℚ) / F) ≤ B := by
    simpa [nearest_natCast hB.le] using nearest_mono hle
  rw [Converts, abs_of_nonneg (nearest_nonneg (by positivity))]
  have hB' : (B : ℚ) < 2 ^ 53 := by exact_mod_cast hB
  exact (hround.trans_lt hB').trans (pow_lt_pow_right₀ one_lt_two (by norm_num))

/-- **Below 2^53 blocks rounding is harmless.** -/
theorem roundingHarmless_of_lt (hF : 0 < F) (hM : 0 < M) (hMB : M < B) (hB : B < 2 ^ 53)
    {mode : String} (hmode : Searched F M mode) : RoundingHarmless B F M := by
  have hconv := converts_div (B := B) hF hB
  obtain ⟨m, s, -, -, hopt⟩ := getMappers_reported hF hM hMB hmode hconv
  refine ⟨hconv, s, hopt, ?_⟩
  rcases le_or_gt B F with hle | hlt
  · -- only the base slicing is tried
    have hone : B ⌈/⌉ F = 1 := by
      have hup := (ceilDiv_le_iff_le_mul hF).2 (show B ≤ F * 1 by omega)
      have hdown : ¬ B ⌈/⌉ F ≤ 0 := fun h => by
        have := (ceilDiv_le_iff_le_mul hF).1 h
        omega
      omega
    rw [lastSlicing_of_le hF hle] at hopt
    rw [hone]
    refine hopt.congr ?_
    rintro t ⟨ht, ht'⟩
    obtain rfl : t = 1 := by omega
    rw [reported_one, bestCase_one B hF]
  · rw [← lastSlicing_eq hF hlt.le hB]
    refine hopt.congr ?_
    rintro t ⟨ht, ht'⟩
    exact reported_eq_bestCase hF hlt.le hB ht ht'

/-- **The search is optimal for the even split** iff rounding is harmless, which it is below 2^53
    blocks. -/
theorem getMappers_optimal_iff (hF : 1 ≤ F) (hM : 1 ≤ M) (hB : M < B) {mode : String}
    (hmode : (mode = "best-effort" ∨ mode = "nearest-multiple") ∧ F < M ∨
      mode = "nearest-multiple" ∧ M < F) :
    (AnswersOptimal B F M mode ↔ RoundingHarmless B F M) ∧ (B < 2 ^ 53 → RoundingHarmless B F M) := by
  refine ⟨?_, fun hlt => roundingHarmless_of_lt hF hM hB hlt hmode⟩
  by_cases hconv : Converts ((B : ℚ) / F)
  · obtain ⟨m, s, hm, hs, hopt⟩ := getMappers_reported hF hM hB hmode hconv
    constructor
    · rintro ⟨m', s', hm', hs', hexact⟩
      obtain rfl : m = m' := Except.ok.inj (hm.symm.trans hm')
      obtain rfl : s = s' := by
        rw [hs] at hs'
        exact_mod_cast hs'
      exact ⟨hconv, s, hopt, hexact⟩
    · rintro ⟨-, s', hopt', hexact⟩
      obtain rfl := hopt.unique hopt'
      exact ⟨m, s, hm, hs, hexact⟩
  · refine iff_of_false ?_ fun h => hconv h.1
    rintro ⟨m, s, hm, -⟩
    rw [getMappers_overflow hF hB hmode hconv] at hm
    cases hm

end

/-- 30 blocks in 4 files for 10 mappers, and 57 blocks in 12 files for 5. -/
theorem getMappers_optimal_example :
    AnswersOptimal 30 4 10 "best-effort" ∧ AnswersOptimal 57 12 5 "nearest-multiple" := by
  constructor
  · have h := getMappers_optimal_iff (B := 30) (F := 4) (M := 10) (by decide) (by decide) (by decide)
      (.inl ⟨.inl rfl, by decide⟩)
    exact h.1.2 (h.2 (by norm_num))
  · have h := getMappers_optimal_iff (B := 57) (F := 12) (M := 5) (by decide) (by decide) (by decide)
      (.inr ⟨rfl, by decide⟩)
    exact h.1.2 (h.2 (by norm_num))

/-- 3 * 10^17 - 1 blocks in 10^17 files: the average is rounded to 3, slicing 2 seems to give
    enough mappers, and one of them is missing. -/
theorem rounded_average_not_optimal :
    getMappers (299999999999999999 : ℕ) (100000000000000000 : ℕ) (200000000000000000 : ℕ)
        "best-effort" = .ok ⟨2, [.atLeast 2 200000000000000000, .chosen 2 200000000000000000]⟩ ∧
      bestCase 299999999999999999 100000000000000000 2 = 199999999999999999 ∧
      ¬ AnswersOptimal 299999999999999999 100000000000000000 200000000000000000 "best-effort" := by
  have hm : getMappers (299999999999999999 : ℕ) (100000000000000000 : ℕ) (200000000000000000 : ℕ)
      "best-effort" = .ok ⟨2, [.atLeast 2 200000000000000000, .chosen 2 200000000000000000]⟩ := by
    decide +kernel
  have hbest : bestCase 299999999999999999 100000000000000000 2 = 199999999999999999 := by
    rw [bestCase, chunks_evenSplit, Nat.ceilDiv_eq_add_pred_div, Nat.ceilDiv_eq_add_pred_div]
  refine ⟨hm, hbest, ?_⟩
  rintro ⟨m, s, hm', hs, hopt⟩
  obtain rfl := Except.ok.inj (hm.symm.trans hm')
  obtain rfl : s = 2 := by
    have htwo : (2 : ℤ) = s := hs
    omega
  have henough := (hopt.nearest (by norm_num)).mem.2
  simp only [hbest] at henough
  norm_num at henough

end ServerlessYarn
