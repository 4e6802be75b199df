/-
  ServerlessYARN model — the slicing of a transfer
  (`plugins/modules/get_mappers.py`).

  The module chooses how many blocks of a file one mapper of distcp copies.  It
  spreads the blocks evenly over the files and tries the slicings in order, with
  an early exit.  The quotients are doubles: `avg_blocks` is rounded, and so is the
  quotient of its floor or ceiling by a slicing, before the ceiling is taken.

  * `getMappers_default`, `getMappers_of_not_default`: the ways in which the module answers;
  * `reported_anti`: the estimates do not grow with the slicing, rounded or not;
  * `reported_eq_bestCase`: below 2^53 blocks the estimate is the number of chunks of the
    even split.
-/
import ServerlessYarn.Lib.Chunks
import ServerlessYarn.Numbers

namespace ServerlessYarn

open Binary64 Chunks

/-! ## The module -/

/-- `DEFAULT_BLOCKS_PER_CHUNKS` -/
def defaultBlocksPerChunks : ℤ := 0

/-- A line that `get_mappers` prints. -/
inductive MappersLine where
  | atLeast (slicing estimated_mappers : ℤ)
  | chosen (best_slicing best_estimated_mappers : ℤ)
deriving DecidableEq

def MappersLine.text : MappersLine → String
  | .atLeast slicing estimated_mappers => String.join [toString slicing,
      " blocks per chunk generate at least ", toString estimated_mappers, " mappers"]
  | .chosen best_slicing best_estimated_mappers => String.join ["Chosen distribution: ",
      toString best_slicing, " blocks per chunk --> ", toString best_estimated_mappers,
      " mappers minimum"]

/-- The result of `get_mappers`, with what it printed. -/
structure Mappers where
  slicing : ℤ
  stdout : List MappersLine
deriving DecidableEq

/-- `best_slicing`, `best_estimated_mappers`, `best_diff` and `best_remaining`. -/
structure BestSlicing where
  best_slicing : ℤ
  best_estimated_mappers : ℤ
  best_diff : ℤ
  best_remaining : ℤ

/-- `a % b` of integers. -/
def intMod (a b : ℤ) : Py ℤ := if b = 0 then .error .zeroDivisionError else .ok (a.fmod b)

/-- `estimated_mappers`: all files have `floor(avg)` blocks, and as many as `blocks`
    leaves over have an extra one. -/
def estimatedMappers (avg_blocks : ℚ) (blocks files slicing : ℤ) : ℤ :=
  let best_distribution_extra_blocks := blocks % files
  (files - best_distribution_extra_blocks) * ⌈nearest (⌊avg_blocks⌋ / slicing)⌉ +
    best_distribution_extra_blocks * ⌈nearest (⌈avg_blocks⌉ / slicing)⌉

/-- The best slicing after one whose mappers exceed `max_mappers` by `diff`. -/
def BestSlicing.nearest (best : BestSlicing) (slicing estimated_mappers diff : ℤ) : BestSlicing :=
  if diff = 0 ∨ (0 < diff ∧ diff < best.best_diff) then
    { best with best_slicing := slicing, best_estimated_mappers := estimated_mappers,
                best_diff := diff }
  else best

/-- The best slicing after one whose mappers leave `remaining` over a multiple. -/
def BestSlicing.multiple (best : BestSlicing) (slicing estimated_mappers remaining : ℤ) :
    BestSlicing :=
  if remaining = 0 ∨ best.best_remaining < remaining then
    { best with best_slicing := slicing, best_estimated_mappers := estimated_mappers,
                best_remaining := remaining }
  else best

/-- `for slicing in range(2, math.ceil(avg_blocks) + 1)`.  Before it the remainder by
    `max_mappers` has been taken, so this is not 0 here. -/
def slicingLoop (avg_blocks : ℚ) (blocks files max_mappers : ℤ) (proportional_approximation : Bool) :
    List ℤ → BestSlicing → BestSlicing × List MappersLine
  | [], best => (best, [])
  | slicing :: rest, best =>
    let estimated_mappers := estimatedMappers avg_blocks blocks files slicing
    let line := MappersLine.atLeast slicing estimated_mappers
    let diff := estimated_mappers - max_mappers
    let remaining := estimated_mappers.fmod max_mappers
    let best := if !proportional_approximation then best.nearest slicing estimated_mappers diff
      else best.multiple slicing estimated_mappers remaining
    let stop := if !proportional_approximation then decide (diff ≤ 0) else decide (remaining = 0)
    if stop then (best, [line])
    else
      let (best, lines) :=
        slicingLoop avg_blocks blocks files max_mappers proportional_approximation rest best
      (best, line :: lines)

/-- `range(2, math.ceil(avg_blocks) + 1)` -/
def slicingRange (avg_blocks : ℚ) : List ℤ :=
  (List.range' 2 (⌈avg_blocks⌉.toNat - 1)).map fun slicing : ℕ => (slicing : ℤ)

/-- `get_mappers(blocks, files, max_mappers, mode)` -/
def getMappers (blocks files max_mappers : ℤ) (mode : String) : Py Mappers :=
  if files ≤ 0 then .ok ⟨defaultBlocksPerChunks, []⟩
  else if blocks ≤ 0 then .ok ⟨defaultBlocksPerChunks, []⟩
  else if mode = "distcp-default" then .ok ⟨defaultBlocksPerChunks, []⟩
  else if mode = "mapred-default" then .ok ⟨1, []⟩
  else if mode = "best-effort" ∧ max_mappers ≤ files then .ok ⟨defaultBlocksPerChunks, []⟩
  else if mode = "nearest-multiple" ∧ files = max_mappers then .ok ⟨defaultBlocksPerChunks, []⟩
  else if blocks ≤ max_mappers then .ok ⟨1, []⟩
  else do
    let proportional_approximation := decide (mode = "nearest-multiple" ∧ max_mappers < files)
    let avg_blocks ← doubles.div blocks files
    let best_remaining ← intMod blocks max_mappers
    if proportional_approximation ∧ best_remaining = 0 then
      return ⟨1, [.chosen 1 blocks]⟩
    else
      let (best, lines) := slicingLoop avg_blocks blocks files max_mappers
        proportional_approximation (slicingRange avg_blocks)
        ⟨1, blocks, blocks - max_mappers, best_remaining⟩
      return ⟨best.best_slicing, lines ++ [.chosen best.best_slicing best.best_estimated_mappers]⟩

/-! ## The estimates -/

/-- `avg_blocks` -/
def avgBlocks (blocks files : ℕ) : ℚ := nearest (blocks / files)

/-- The last slicing of the search; the base slicing is always tried. -/
def lastSlicing (blocks files : ℕ) : ℕ := max 1 ⌈avgBlocks blocks files⌉.toNat

/-- The mappers that the module reports for a slicing: a mapper for every block in the base
    one, and the estimate in the others. -/
def reported (blocks files slicing : ℕ) : ℤ :=
  if slicing = 1 then blocks else estimatedMappers (avgBlocks blocks files) blocks files slicing

/-- The chunks of a slicing when the blocks are spread as evenly as possible. -/
def bestCase (blocks files slicing : ℕ) : ℕ := chunks (evenSplit blocks files) slicing

section
variable {B F : ℕ}

theorem reported_one (B F : ℕ) : reported B F 1 = B := if_pos rfl

theorem estimatedMappers_eq_reported (B F : ℕ) {s : ℕ} (hs : 2 ≤ s) :
    estimatedMappers (avgBlocks B F) B F s = reported B F s := (if_neg (by omega)).symm

theorem bestCase_one (B : ℕ) (hF : 0 < F) : bestCase B F 1 = B := by
  rw [bestCase, chunks_one, sum_evenSplit B hF]

theorem avgBlocks_nonneg (B F : ℕ) : 0 ≤ avgBlocks B F := nearest_nonneg (by positivity)

/-- **The estimates do not grow with the slicing**: rounding keeps the order. -/
theorem reported_anti (hF : 0 < F) {s t : ℕ} (hs : 2 ≤ s) (hst : s ≤ t) :
    reported B F t ≤ reported B F s := by
  have hmod : (B : ℤ) % F < F := Int.emod_lt_of_pos _ (by exact_mod_cast hF)
  have hmod' : 0 ≤ (B : ℤ) % F := Int.emod_nonneg _ (by exact_mod_cast hF.ne')
  have hceil : ∀ z : ℤ, 0 ≤ z → ⌈nearest ((z : ℚ) / (t : ℤ))⌉ ≤ ⌈nearest ((z : ℚ) / (s : ℤ))⌉ := by
    intro z hz
    refine Int.ceil_mono (nearest_mono ?_)
    have hs' : (0 : ℚ) < (s : ℤ) := by exact_mod_cast (by omega : 0 < s)
    exact div_le_div_of_nonneg_left (by exact_mod_cast hz) hs' (by exact_mod_cast hst)
  rw [reported, reported, if_neg (by omega), if_neg (by omega)]
  refine add_le_add (mul_le_mul_of_nonneg_left (hceil _ ?_) (by omega))
    (mul_le_mul_of_nonneg_left (hceil _ ?_) hmod')
  · exact Int.floor_nonneg.2 (avgBlocks_nonneg B F)
  · exact Int.ceil_nonneg (avgBlocks_nonneg B F)

theorem slicingRange_eq (B F : ℕ) : slicingRange (avgBlocks B F) =
    (List.range' 2 (lastSlicing B F - 1)).map fun slicing : ℕ => (slicing : ℤ) := by
  have hlast : ⌈avgBlocks B F⌉.toNat - 1 = lastSlicing B F - 1 := by
    rw [lastSlicing]
    omega
  rw [slicingRange, hlast]

theorem one_le_lastSlicing (B F : ℕ) : 1 ≤ lastSlicing B F := le_max_left _ _

/-! ## Few blocks -/

theorem avgBlocks_le_one (hF : 0 < F) (h : B ≤ F) : avgBlocks B F ≤ 1 := by
  have hF' : (0 : ℚ) < F := by exact_mod_cast hF
  have hle : (B : ℚ) / F ≤ ((1 : ℕ) : ℚ) := by
    rw [Nat.cast_one, div_le_one hF']
    exact_mod_cast h
  have hmono := nearest_mono hle
  rwa [nearest_natCast (by norm_num), Nat.cast_one] at hmono

/-- With no more blocks than files there is nothing to slice. -/
theorem lastSlicing_of_le (hF : 0 < F) (h : B ≤ F) : lastSlicing B F = 1 := by
  have hceil : ⌈avgBlocks B F⌉ ≤ 1 := Int.ceil_le.2 (by exact_mod_cast avgBlocks_le_one hF h)
  rw [lastSlicing]
  omega

/-- Below 2^53 blocks the last slicing is the quotient, rounded up. -/
theorem lastSlicing_eq (hF : 0 < F) (h : F ≤ B) (hB : B < 2 ^ 53) : lastSlicing B F = B ⌈/⌉ F := by
  have hone : 1 ≤ B ⌈/⌉ F := by
    by_contra hlt
    have hle := (ceilDiv_le_iff_le_mul hF).1 (show B ⌈/⌉ F ≤ 0 by omega)
    omega
  rw [lastSlicing, avgBlocks, ceil_nearest_div hB hF (by omega), Int.toNat_natCast]
  exact max_eq_right hone

/-- **Below 2^53 blocks the estimate is the number of chunks of the even split.** -/
theorem reported_eq_bestCase (hF : 0 < F) (h : F ≤ B) (hB : B < 2 ^ 53) {s : ℕ} (hs : 1 ≤ s)
    (hlast : s ≤ lastSlicing B F) : reported B F s = bestCase B F s := by
  rcases hs.eq_or_lt with rfl | htwo
  · rw [reported_one, bestCase_one B hF]
  have hmod := Nat.mod_lt B hF
  have hceilF : B ⌈/⌉ F ≤ B := (ceilDiv_le_iff_le_mul hF).2 (Nat.le_mul_of_pos_left B hF)
  have hsB : s ≤ B := hlast.trans ((lastSlicing_eq hF h hB).le.trans hceilF)
  have hceil : ∀ x : ℕ, x ≤ B → ⌈nearest ((((x : ℕ) : ℤ) : ℚ) / ((s : ℤ) : ℚ))⌉ = ((x ⌈/⌉ s : ℕ) : ℤ) := by
    intro x hx
    rw [Int.cast_natCast, Int.cast_natCast, ceil_nearest_div (by omega) (by omega) (by omega)]
  rw [← estimatedMappers_eq_reported B F htwo, estimatedMappers, avgBlocks,
    floor_nearest_div hB hF (by omega), ceil_nearest_div hB hF (by omega),
    hceil _ (Nat.div_le_self B F), hceil _ hceilF, ← Int.natCast_mod, bestCase, chunks_evenSplit,
    ceilDiv_eq_div_add B hF]
  have hextra : ((B % F : ℕ) : ℤ) * (((B / F + if B % F = 0 then 0 else 1) ⌈/⌉ s : ℕ) : ℤ) =
      ((B % F : ℕ) : ℤ) * (((B / F + 1) ⌈/⌉ s : ℕ) : ℤ) := by
    split_ifs with hzero
    · rw [hzero, Nat.cast_zero, zero_mul, zero_mul]
    · rfl
  rw [hextra, ← Nat.cast_sub hmod.le]
  push_cast
  rfl

end

/-! ## The search -/

section search
variable {avg_blocks : ℚ} {blocks files max_mappers : ℤ}

theorem slicingLoop_cons_nearest (s : ℤ) (l : List ℤ) (best : BestSlicing) :
    (slicingLoop avg_blocks blocks files max_mappers false (s :: l) best).1 =
      if estimatedMappers avg_blocks blocks files s - max_mappers ≤ 0 then
        best.nearest s (estimatedMappers avg_blocks blocks files s)
          (estimatedMappers avg_blocks blocks files s - max_mappers)
      else (slicingLoop avg_blocks blocks files max_mappers false l (best.nearest s
        (estimatedMappers avg_blocks blocks files s)
        (estimatedMappers avg_blocks blocks files s - max_mappers))).1 := by
  simp only [slicingLoop, Bool.not_false, if_true, decide_eq_true_eq]
  split_ifs <;> rfl

theorem slicingLoop_cons_multiple (s : ℤ) (l : List ℤ) (best : BestSlicing) :
    (slicingLoop avg_blocks blocks files max_mappers true (s :: l) best).1 =
      if (estimatedMappers avg_blocks blocks files s).fmod max_mappers = 0 then
        best.multiple s (estimatedMappers avg_blocks blocks files s)
          ((estimatedMappers avg_blocks blocks files s).fmod max_mappers)
      else (slicingLoop avg_blocks blocks files max_mappers true l (best.multiple s
        (estimatedMappers avg_blocks blocks files s)
        ((estimatedMappers avg_blocks blocks files s).fmod max_mappers))).1 := by
  simp only [slicingLoop, Bool.not_true, Bool.false_eq_true, if_false, decide_eq_true_eq]
  split_ifs <;> rfl

end search

/-! ## The answers -/

section answers
variable {B F M : ℕ}

/-- The modes in which the numbers decide. -/
def Computed (mode : String) : Prop := mode = "best-effort" ∨ mode = "nearest-multiple"

/-- The search is for a multiple of `max_mappers`. -/
def seeksMultiple (files max_mappers : ℕ) (mode : String) : Bool :=
  decide (mode = "nearest-multiple" ∧ max_mappers < files)

theorem fmod_natCast (a b : ℕ) : (a : ℤ).fmod b = ((a % b : ℕ) : ℤ) := by
  rw [Int.fmod_eq_emod_of_nonneg _ (Int.natCast_nonneg b), Int.natCast_mod]

/-- **No slicing.** -/
theorem getMappers_default (hF : 0 < F) (hB : 0 < B) {mode : String}
    (h : mode = "best-effort" ∧ M ≤ F ∨ mode = "nearest-multiple" ∧ F = M) :
    getMappers B F M mode = .ok ⟨0, []⟩ := by
  unfold getMappers
  rw [if_neg (by omega), if_neg (by omega)]
  rcases h with ⟨rfl, hle⟩ | ⟨rfl, heq⟩
  · rw [if_neg (by decide), if_neg (by decide), if_pos ⟨rfl, by omega⟩]
    rfl
  · rw [if_neg (by decide), if_neg (by decide), if_neg (fun h => absurd h.1 (by decide)),
      if_pos ⟨rfl, by omega⟩]
    rfl

/-- What is left of the module when it does not answer with the default. -/
theorem getMappers_of_not_default (hF : 0 < F) (hB : 0 < B) {mode : String} (hmode : Computed mode)
    (h : ¬ (mode = "best-effort" ∧ M ≤ F ∨ mode = "nearest-multiple" ∧ F = M)) :
    getMappers B F M mode = if B ≤ M then .ok ⟨1, []⟩ else do
      let avg_blocks ← doubles.div B F
      let best_remaining ← intMod B M
      if seeksMultiple F M mode ∧ best_remaining = 0 then return ⟨1, [.chosen 1 B]⟩
      else
        let (best, lines) := slicingLoop avg_blocks B F M (seeksMultiple F M mode)
          (slicingRange avg_blocks) ⟨1, B, B - M, best_remaining⟩
        return ⟨best.best_slicing, lines ++ [.chosen best.best_slicing best.best_estimated_mappers]⟩ := by
  obtain ⟨hbest, hnearest⟩ := not_or.1 h
  have hd : mode ≠ "distcp-default" := by rcases hmode with rfl | rfl <;> decide
  have hm : mode ≠ "mapred-default" := by rcases hmode with rfl | rfl <;> decide
  unfold getMappers
  rw [if_neg (by omega), if_neg (by omega), if_neg hd, if_neg hm,
    if_neg (fun hb => hbest ⟨hb.1, by omega⟩), if_neg (fun hn => hnearest ⟨hn.1, by omega⟩)]
  simp only [Nat.cast_le, Nat.cast_lt, seeksMultiple, Int.cast_natCast]
  rfl

theorem div_avgBlocks (hF : 0 < F) (h : Converts ((B : ℚ) / F)) : doubles.div B F = .ok (avgBlocks B F) :=
  doubles_div (by exact_mod_cast hF.ne') h

/-- The quotient is too large for a `float`. -/
theorem div_overflow (hF : 0 < F) (h : ¬ Converts ((B : ℚ) / F)) :
    doubles.div B F = .error .overflowError :=
  (if_neg (by exact_mod_cast hF.ne')).trans (doubles_result_error h)

end answers

end ServerlessYarn
