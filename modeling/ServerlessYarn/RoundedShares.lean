/-
  ServerlessYARN model — the CPU shares of the containers of an application, in doubles
  (`ui/views/apps/utils.py`: `getContainerResourcesForApp`).

  The equal part of the CPU is a double.  For up to 2^40 shares its tests agree with
  those of the exact part, and the regular containers get exactly their multiple of
  100; the irregular one gets nearly the rest, and is rounded to it in the end.

  * `splitCpu_of_ok`, `splitInDoubles_eq`: the split, in closed form;
  * `abs_roundedRest_sub_le`: the error of the irregular share;
  * `SplitsInDoubles.exact`: an irregular container is only created where exact
    arithmetic creates it.
-/
import ServerlessYarn.CpuShares

namespace ServerlessYarn

open Binary64 Rounding

/-- An equal part of `total` shares. -/
def equalPart (n total : ℤ) : ℚ := nearest (total / n)

/-- The share of a regular container next to an irregular one. -/
def regularInDoubles (n total : ℤ) : Double :=
  if modHundred (equalPart n total) < 50 then
    (Double.finite (equalPart n total)).sub (.finite (modHundred (equalPart n total)))
  else
    (Double.finite (equalPart n total)).add
      ((Double.finite 100).sub (.finite (modHundred (equalPart n total))))

/-- The share of the irregular container. -/
def restInDoubles (n total : ℤ) : Double :=
  if modHundred (equalPart n total) < 50 then
    (Double.finite (equalPart n total)).add
      ((Double.finite (modHundred (equalPart n total))).mul (.finite (nearest (n - 1 : ℤ))))
  else
    (Double.finite (equalPart n total)).sub
      (((Double.finite 100).sub (.finite (modHundred (equalPart n total)))).mul
        (.finite (nearest (n - 1 : ℤ))))

/-- The tests for an irregular container, on the equal part. -/
def SplitsInDoubles (n total : ℤ) (is_hadoop_app : Bool) : Prop :=
  is_hadoop_app = false ∧ modHundred (equalPart n total) ≠ 0 ∧
    (modHundred (equalPart n total) < 50 → 100 < equalPart n total) ∧
    (50 ≤ modHundred (equalPart n total) → (Double.finite 10).le (restInDoubles n total) = true)

instance (n total : ℤ) (is_hadoop_app : Bool) : Decidable (SplitsInDoubles n total is_hadoop_app) :=
  inferInstanceAs (Decidable (_ ∧ _))

/-- The split of `total` shares. -/
def splitInDoubles (n total : ℤ) (is_hadoop_app : Bool) : CpuSplit Double :=
  if SplitsInDoubles n total is_hadoop_app then
    ⟨regularInDoubles n total,
      some (if modHundred (equalPart n total) < 50 then .bigger else .smaller, restInDoubles n total)⟩
  else ⟨.finite (equalPart n total), none⟩

/-- The share of the irregular container, if all results are in range. -/
def roundedRest (n total : ℤ) : ℚ :=
  if modHundred (equalPart n total) < 50 then
    nearest (equalPart n total + nearest (modHundred (equalPart n total) * (n - 1)))
  else
    nearest (equalPart n total - nearest ((100 - modHundred (equalPart n total)) * (n - 1)))

/-! ## The equal part -/

section
variable {n total : ℤ}

theorem equalPart_nonneg (hn : 1 ≤ n) (ht : 0 ≤ total) : 0 ≤ equalPart n total := by
  have hn' : (0 : ℚ) ≤ n := by exact_mod_cast (by omega : 0 ≤ n)
  have ht' : (0 : ℚ) ≤ total := by exact_mod_cast ht
  exact nearest_nonneg (div_nonneg ht' hn')

theorem equalPart_le_one (hn : 1 ≤ n) (h : total ≤ n) : equalPart n total ≤ 1 := by
  have hn' : (0 : ℚ) < n := by exact_mod_cast hn
  have h' : (total : ℚ) ≤ n := by exact_mod_cast h
  have hone : nearest ((1 : ℤ) : ℚ) = (1 : ℤ) := nearest_intCast (by norm_num)
  rw [Int.cast_one] at hone
  exact (nearest_mono ((div_le_one hn').2 h')).trans_eq hone

theorem modHundred_of_lt {q : ℚ} (h₀ : 0 ≤ q) (h : q < 100) : modHundred q = q := by
  have hfloor : ⌊q / 100⌋ = 0 := Int.floor_eq_zero_iff.2
    ⟨div_nonneg h₀ (by norm_num), (div_lt_one (by norm_num)).2 h⟩
  rw [modHundred, hfloor, Int.cast_zero, mul_zero, sub_zero]

/-- More containers than shares are not split unevenly. -/
theorem SplitsInDoubles.lt {is_hadoop_app : Bool} (h : SplitsInDoubles n total is_hadoop_app)
    (hn : 1 ≤ n) (ht : 0 ≤ total) : n < total := by
  by_contra hle
  have hone := equalPart_le_one hn (not_lt.1 hle)
  have hmod := modHundred_of_lt (equalPart_nonneg hn ht) (hone.trans_lt (by norm_num))
  have hbig := h.2.2.1 (by rw [hmod]; exact hone.trans_lt (by norm_num))
  linarith

end

section
variable {n total : ℤ} {k : ℤ}

/-- Up to 2^40 shares the equal part compares with integers as the exact one. -/
theorem equalPart_lt_iff (hn : 1 ≤ n) (hn' : n ≤ 2 ^ 40) (ht : |total| ≤ 2 ^ 40) (hk : |k| ≤ 2 ^ 50) :
    equalPart n total < k ↔ (total : ℚ) / n < k :=
  nearest_div_lt_intCast_iff (ht.trans_lt (by norm_num)) hn
    (hn'.trans (pow_le_pow_right₀ one_le_two (by norm_num))) (hk.trans (by norm_num))

theorem lt_equalPart_iff (hn : 1 ≤ n) (hn' : n ≤ 2 ^ 40) (ht : |total| ≤ 2 ^ 40) (hk : |k| ≤ 2 ^ 50) :
    k < equalPart n total ↔ (k : ℚ) < (total : ℚ) / n :=
  intCast_lt_nearest_div_iff (ht.trans_lt (by norm_num)) hn
    (hn'.trans (pow_le_pow_right₀ one_le_two (by norm_num))) (hk.trans (by norm_num))

end

/-- The shares and the containers of an application whose doubles are looked at. -/
structure SmallSplit (n total : ℤ) : Prop where
  one_le : 1 ≤ n
  pos : 0 < total
  le : total ≤ 2 ^ 40
  containers_le : n ≤ total

namespace SmallSplit
variable {n total : ℤ} (h : SmallSplit n total)
include h

theorem cast_pos : (0 : ℚ) < n := by exact_mod_cast h.one_le

theorem total_nonneg : (0 : ℚ) ≤ total := by exact_mod_cast h.pos.le

theorem total_le : (total : ℚ) ≤ 2 ^ 40 := by exact_mod_cast h.le

theorem abs_total_le : |total| ≤ 2 ^ 40 := by
  rw [abs_of_pos h.pos]
  exact h.le

theorem others_nonneg : (0 : ℚ) ≤ n - 1 := by
  have : (1 : ℚ) ≤ n := by exact_mod_cast h.one_le
  linarith

theorem lt_iff {k : ℤ} (hk : |k| ≤ 2 ^ 50) : equalPart n total < k ↔ (total : ℚ) / n < k :=
  equalPart_lt_iff h.one_le (h.containers_le.trans h.le) h.abs_total_le hk

theorem gt_iff {k : ℤ} (hk : |k| ≤ 2 ^ 50) : k < equalPart n total ↔ (k : ℚ) < (total : ℚ) / n :=
  lt_equalPart_iff h.one_le (h.containers_le.trans h.le) h.abs_total_le hk

/-- The error of the equal part. -/
theorem abs_equalPart_sub_le : n * |equalPart n total - total / n| ≤ total / 2 ^ 53 := by
  have herr := abs_nearest_div_sub_le (m := total) (n := n) h.one_le
    ((h.containers_le.trans h.le).trans (pow_le_pow_right₀ one_le_two (by norm_num)))
  rw [abs_of_pos h.pos] at herr
  have hmul := mul_le_mul_of_nonneg_left herr h.cast_pos.le
  have hinv : (n : ℚ) * (1 / n) = 1 := mul_one_div_cancel h.cast_pos.ne'
  calc n * |equalPart n total - total / n| ≤ n * (total / 2 ^ 53 * (1 / n)) := hmul
    _ = total / 2 ^ 53 * (n * (1 / n)) := by ring
    _ = total / 2 ^ 53 := by rw [hinv, mul_one]

theorem part_le : (total : ℚ) / n ≤ total := div_le_self h.total_nonneg (by exact_mod_cast h.one_le)

theorem equalPart_le : equalPart n total ≤ total := by
  have hself := nearest_intCast (z := total) (h.abs_total_le.trans (by norm_num))
  exact (nearest_mono h.part_le).trans_eq hself

/-- The multiple of 100 below the equal part. -/
theorem floor_equalPart : ⌊equalPart n total / 100⌋ = ⌊(total : ℚ) / n / 100⌋ := by
  have hpart : (0 : ℚ) ≤ total / n := div_nonneg h.total_nonneg h.cast_pos.le
  have hnonneg : 0 ≤ ⌊(total : ℚ) / n / 100⌋ := Int.floor_nonneg.2 (div_nonneg hpart (by norm_num))
  have hle : ⌊(total : ℚ) / n / 100⌋ ≤ 2 ^ 40 := by
    have hfloor : ((⌊(total : ℚ) / n / 100⌋ : ℤ) : ℚ) ≤ 2 ^ 40 :=
      (Int.floor_le _).trans ((div_le_self hpart (by norm_num)).trans (h.part_le.trans h.total_le))
    exact_mod_cast hfloor
  have hlow := Int.floor_le ((total : ℚ) / n / 100)
  have hhigh := Int.lt_floor_add_one ((total : ℚ) / n / 100)
  generalize ⌊(total : ℚ) / n / 100⌋ = k at *
  rw [Int.floor_eq_iff]
  constructor
  · have hge : ¬ equalPart n total < ((100 * k : ℤ) : ℚ) := by
      rw [h.lt_iff (abs_le.2 ⟨by omega, by omega⟩), not_lt]
      push_cast
      linarith
    push_cast at hge
    linarith
  · have hlt : equalPart n total < ((100 * (k + 1) : ℤ) : ℚ) := by
      rw [h.lt_iff (abs_le.2 ⟨by omega, by omega⟩)]
      push_cast
      linarith
    push_cast at hlt
    linarith

theorem modHundred_equalPart :
    modHundred (equalPart n total) = modHundred (total / n) + (equalPart n total - total / n) := by
  rw [modHundred, modHundred, h.floor_equalPart]
  ring

/-- The bounds of the multiples of 100 that the tests compare with. -/
theorem abs_floor_le : |100 * ⌊(total : ℚ) / n / 100⌋| ≤ 2 ^ 40 := by
  have hpart : (0 : ℚ) ≤ total / n := div_nonneg h.total_nonneg h.cast_pos.le
  have hnonneg : 0 ≤ ⌊(total : ℚ) / n / 100⌋ := Int.floor_nonneg.2 (div_nonneg hpart (by norm_num))
  have hle : ((100 * ⌊(total : ℚ) / n / 100⌋ : ℤ) : ℚ) ≤ 2 ^ 40 := by
    have hfloor := Int.floor_le ((total : ℚ) / n / 100)
    push_cast
    linarith [h.part_le, h.total_le]
  rw [abs_of_nonneg (by omega)]
  exact_mod_cast hle

theorem modHundred_lt_iff : modHundred (equalPart n total) < 50 ↔ modHundred ((total : ℚ) / n) < 50 := by
  have hk := abs_le.1 h.abs_floor_le
  have hiff := h.lt_iff (k := 100 * ⌊(total : ℚ) / n / 100⌋ + 50) (abs_le.2 ⟨by omega, by omega⟩)
  push_cast at hiff
  rw [modHundred, modHundred, h.floor_equalPart, sub_lt_iff_lt_add', sub_lt_iff_lt_add', hiff]

theorem modHundred_eq_zero_iff :
    modHundred (equalPart n total) = 0 ↔ modHundred ((total : ℚ) / n) = 0 := by
  have hiff := h.gt_iff (k := 100 * ⌊(total : ℚ) / n / 100⌋) (h.abs_floor_le.trans (by norm_num))
  push_cast at hiff
  have hnonneg := (modHundred_mem (equalPart n total)).1
  have hnonneg' := (modHundred_mem ((total : ℚ) / n)).1
  rw [← not_iff_not, ← ne_eq, ← ne_eq, ← hnonneg.lt_iff_ne', ← hnonneg'.lt_iff_ne', modHundred,
    modHundred, h.floor_equalPart, sub_pos, sub_pos]
  exact hiff

theorem hundred_lt_iff : 100 < equalPart n total ↔ (100 : ℚ) < total / n := by
  have hiff := h.gt_iff (k := 100) (by norm_num)
  exact_mod_cast hiff

/-- What is missing to the next multiple of 100 is exact. -/
theorem nearest_hundred_sub (hm : 50 ≤ modHundred (equalPart n total)) :
    nearest (100 - modHundred (equalPart n total)) = 100 - modHundred (equalPart n total) := by
  have hmem := modHundred_mem (equalPart n total)
  have hfloor : (0 : ℚ) ≤ ⌊equalPart n total / 100⌋ := by
    exact_mod_cast Int.floor_nonneg.2 (div_nonneg (equalPart_nonneg h.one_le h.pos.le) (by norm_num))
  have hdef : modHundred (equalPart n total) = equalPart n total - 100 * ⌊equalPart n total / 100⌋ := rfl
  have hdiff : 100 - modHundred (equalPart n total) =
      ((100 * (⌊equalPart n total / 100⌋ + 1) : ℤ) : ℚ) - nearest ((total : ℚ) / n) := by
    rw [hdef, ← equalPart]
    push_cast
    ring
  rw [hdiff]
  refine nearest_intCast_sub_nearest ?_ ?_
  · rw [abs_of_nonneg (div_nonneg h.total_nonneg h.cast_pos.le)]
    linarith [h.part_le, h.total_le]
  · rw [← hdiff, ← equalPart, abs_of_nonneg (by linarith), abs_of_nonneg (by linarith)]
    linarith

theorem modHundred_le : modHundred (equalPart n total) ≤ equalPart n total := by
  have hfloor : (0 : ℚ) ≤ ⌊equalPart n total / 100⌋ := by
    exact_mod_cast Int.floor_nonneg.2 (div_nonneg (equalPart_nonneg h.one_le h.pos.le) (by norm_num))
  rw [modHundred]
  linarith

/-- The equal parts of doubles are together at most twice the shares. -/
theorem mul_equalPart_le : n * equalPart n total ≤ 2 * total := by
  have hself : (n : ℚ) * (total / n) = total := mul_div_cancel₀ _ h.cast_pos.ne'
  have habs := mul_le_mul_of_nonneg_left (le_abs_self (equalPart n total - total / n)) h.cast_pos.le
  have hsmall : (total : ℚ) / 2 ^ 53 ≤ total := div_le_self h.total_nonneg (by norm_num)
  rw [mul_sub, hself] at habs
  linarith [h.abs_equalPart_sub_le]

/-- The error of a result that is not much larger than the shares. -/
theorem abs_nearest_sub_le {x : ℚ} (hx : |x| ≤ 7 * total) : |nearest x - x| ≤ total / 2 ^ 50 :=
  abs_nearest_sub_le_of_bound (by exact_mod_cast h.pos) hx

/-- What the other containers are given together. -/
theorem product_le {w : ℚ} (hw : 0 ≤ w) (hle : w ≤ equalPart n total) :
    0 ≤ w * (n - 1) ∧ w * (n - 1) ≤ 2 * total := by
  refine ⟨mul_nonneg hw h.others_nonneg, ?_⟩
  have hq := equalPart_nonneg h.one_le h.pos.le
  calc w * (n - 1) ≤ equalPart n total * (n - 1) := mul_le_mul_of_nonneg_right hle h.others_nonneg
    _ ≤ n * equalPart n total := by linarith
    _ ≤ 2 * total := h.mul_equalPart_le

theorem abs_product_sub_le {w : ℚ} (hw : 0 ≤ w) (hle : w ≤ equalPart n total) :
    |nearest (w * (n - 1)) - w * (n - 1)| ≤ total / 2 ^ 50 := by
  obtain ⟨hlow, hhigh⟩ := h.product_le hw hle
  refine h.abs_nearest_sub_le ?_
  rw [abs_of_nonneg hlow]
  linarith [h.total_nonneg]

theorem abs_product_le {w : ℚ} (hw : 0 ≤ w) (hle : w ≤ equalPart n total) :
    |nearest (w * (n - 1))| ≤ 3 * total := by
  obtain ⟨hlow, hhigh⟩ := h.product_le hw hle
  have herr := abs_le.1 (h.abs_product_sub_le hw hle)
  have hsmall : (total : ℚ) / 2 ^ 50 ≤ total := div_le_self h.total_nonneg (by norm_num)
  exact abs_le.2 ⟨by linarith, by linarith⟩

theorem roundedRest_of_lt (hm : modHundred (equalPart n total) < 50) :
    |roundedRest n total - (equalPart n total + modHundred (equalPart n total) * (n - 1))| ≤
      total / 2 ^ 49 := by
  have hq := equalPart_nonneg h.one_le h.pos.le
  have hw := (modHundred_mem (equalPart n total)).1
  have hproduct := abs_le.1 (h.abs_product_sub_le hw h.modHundred_le)
  have hsum := abs_le.1 (h.abs_nearest_sub_le
    (x := equalPart n total + nearest (modHundred (equalPart n total) * (n - 1))) (by
      have hbound := abs_le.1 (h.abs_product_le hw h.modHundred_le)
      exact abs_le.2 ⟨by linarith [h.total_nonneg], by linarith [h.equalPart_le, h.total_nonneg]⟩))
  rw [roundedRest, if_pos hm]
  exact abs_le.2 ⟨by linarith, by linarith⟩

theorem roundedRest_of_le (hm : 50 ≤ modHundred (equalPart n total)) :
    |roundedRest n total - (equalPart n total - (100 - modHundred (equalPart n total)) * (n - 1))| ≤
      total / 2 ^ 49 := by
  have hq := equalPart_nonneg h.one_le h.pos.le
  have hmem := modHundred_mem (equalPart n total)
  have hw : 0 ≤ 100 - modHundred (equalPart n total) := by linarith
  have hle : 100 - modHundred (equalPart n total) ≤ equalPart n total := by linarith [h.modHundred_le]
  have hproduct := abs_le.1 (h.abs_product_sub_le hw hle)
  have hsum := abs_le.1 (h.abs_nearest_sub_le
    (x := equalPart n total - nearest ((100 - modHundred (equalPart n total)) * (n - 1))) (by
      have hbound := abs_le.1 (h.abs_product_le hw hle)
      exact abs_le.2 ⟨by linarith [h.total_nonneg], by linarith [h.equalPart_le, h.total_nonneg]⟩))
  rw [roundedRest, if_neg hm.not_gt]
  exact abs_le.2 ⟨by linarith, by linarith⟩

/-- **The error of the irregular share.** -/
theorem abs_roundedRest_sub_le : |roundedRest n total - irregularShare n total| ≤ total / 2 ^ 48 := by
  have hn : n ≠ 0 := by have := h.one_le; omega
  have hadd := h.modHundred_equalPart
  -- the error of the equal part, once for every container
  have herr := h.abs_equalPart_sub_le
  rw [← abs_of_pos h.cast_pos, ← abs_mul, abs_of_pos h.cast_pos] at herr
  obtain ⟨hlow, hhigh⟩ := abs_le.1 herr
  have hT := h.total_nonneg
  rcases lt_or_ge (modHundred (equalPart n total)) 50 with hm | hm
  · have hrest := abs_le.1 (h.roundedRest_of_lt hm)
    have hexact := irregularShare_of_lt hn (h.modHundred_lt_iff.1 hm)
    have hdiff : equalPart n total + modHundred (equalPart n total) * (n - 1) - irregularShare n total =
        n * (equalPart n total - total / n) := by
      rw [hexact, hadd]
      ring
    exact abs_le.2 ⟨by linarith, by linarith⟩
  · have hrest := abs_le.1 (h.roundedRest_of_le hm)
    have hexact := irregularShare_of_le hn (not_lt.1 fun hlt => hm.not_gt (h.modHundred_lt_iff.2 hlt))
    have hdiff : equalPart n total - (100 - modHundred (equalPart n total)) * (n - 1) -
        irregularShare n total = n * (equalPart n total - total / n) := by
      rw [hexact, hadd]
      ring
    exact abs_le.2 ⟨by linarith, by linarith⟩

/-- The irregular share is rounded to what the regular ones leave. -/
theorem roundHalfEven_roundedRest : roundHalfEven (roundedRest n total) = irregularShare n total := by
  refine roundHalfEven_eq_of_abs_sub_lt (h.abs_roundedRest_sub_le.trans_lt ?_)
  linarith [h.total_le]

end SmallSplit

/-! ## The split -/

section
variable {n total : ℤ} {is_hadoop_app : Bool} {cpu : OwnedResource}

theorem SplitsInDoubles.small (h : SplitsInDoubles n total is_hadoop_app) (hn : 1 ≤ n) (ht : 0 < total)
    (hle : total ≤ 2 ^ 40) : SmallSplit n total := ⟨hn, ht, hle, (h.lt hn ht.le).le⟩

/-- Of 1510 shares in six containers doubles leave less than 10 to a smaller one. -/
example : SplitsUnevenly 6 1510 false ∧ ¬ SplitsInDoubles 6 1510 false := by decide +kernel

theorem doubles_mod_hundred {q : ℚ} (hq : 0 ≤ q) :
    doubleArithmetic.mod (.finite q) 100 = .finite (modHundred q) := doubles_mod hq 100

/-- Hadoop applications are split evenly. -/
theorem splitCpu_hadoop {F : Type} {a : Arithmetic F} {q : F}
    (hq : a.quotient (cpu.limits.max - cpu.current) n = .ok q) :
    splitCpu a n cpu true = .ok ⟨q, none⟩ := by
  rw [splitCpu, hq]
  simp [bind, Except.bind, pure, Except.pure]

/-- The tests that need the other containers hold for more shares than containers. -/
theorem SmallSplit.of_equalPart (hn : 1 ≤ n) (hpos : 0 < total) (hle : total ≤ 2 ^ 40)
    (h : 1 < equalPart n total) : SmallSplit n total := by
  refine ⟨hn, hpos, hle, ?_⟩
  by_contra hlt
  exact h.not_ge (equalPart_le_one hn (by omega))

namespace SmallSplit
variable (h : SmallSplit n total)
include h

theorem nearest_others : nearest ((n - 1 : ℤ) : ℚ) = n - 1 := by
  have hone := h.one_le
  have hcont := h.containers_le
  have hle := h.le
  rw [nearest_intCast (abs_le.2 ⟨by omega, by omega⟩), Int.cast_sub, Int.cast_one]

theorem mul_others {w : ℚ} (hw : 0 ≤ w) (hle : w ≤ equalPart n total) :
    (Double.finite w).mul (.finite (n - 1)) = .finite (nearest (w * (n - 1))) := by
  obtain ⟨hlow, hhigh⟩ := h.product_le hw hle
  refine Double.mul_of_le (le_trans ?_ (pow_le_pow_right₀ one_le_two (by norm_num : 42 ≤ 1000)))
  rw [abs_of_nonneg hlow]
  linarith [h.total_le]

theorem missing (hm : 50 ≤ modHundred (equalPart n total)) :
    (Double.finite 100).sub (.finite (modHundred (equalPart n total))) =
      .finite (100 - modHundred (equalPart n total)) := by
  have hmem := modHundred_mem (equalPart n total)
  rw [Double.sub_of_le (le_trans (abs_le.2 ⟨by linarith, by linarith⟩)
    (pow_le_pow_right₀ one_le_two (by norm_num : 42 ≤ 1000))), h.nearest_hundred_sub hm]

/-- A regular container gets exactly its multiple of 100. -/
theorem nearest_regularShare : nearest (regularShare n total : ℚ) = regularShare n total ∧
    |(regularShare n total : ℚ)| ≤ 2 ^ 42 := by
  have hmem := modHundred_mem ((total : ℚ) / n)
  have hpart : (0 : ℚ) ≤ total / n := div_nonneg h.total_nonneg h.cast_pos.le
  have hbound : |(regularShare n total : ℚ)| ≤ 2 ^ 42 := by
    rcases lt_or_ge (modHundred ((total : ℚ) / n)) 50 with hm | hm
    · have hr := regularShare_of_lt hm
      exact abs_le.2 ⟨by linarith, by linarith [h.part_le, h.total_le]⟩
    · have hr := regularShare_of_le hm
      exact abs_le.2 ⟨by linarith, by linarith [h.part_le, h.total_le]⟩
  have hbound' : |regularShare n total| ≤ 2 ^ 42 := by exact_mod_cast hbound
  exact ⟨nearest_intCast (hbound'.trans (by norm_num)), hbound⟩

theorem regularInDoubles_eq : regularInDoubles n total = .finite (regularShare n total) := by
  have hmem := modHundred_mem (equalPart n total)
  obtain ⟨hself, hbound⟩ := h.nearest_regularShare
  have hbig := hbound.trans (pow_le_pow_right₀ one_le_two (by norm_num : 42 ≤ 1000))
  rcases lt_or_ge (modHundred (equalPart n total)) 50 with hm | hm
  · have hdiff : equalPart n total - modHundred (equalPart n total) = regularShare n total := by
      rw [regularShare_of_lt (h.modHundred_lt_iff.1 hm), h.modHundred_equalPart]
      ring
    rw [regularInDoubles, if_pos hm, Double.sub_of_le (hdiff ▸ hbig), hdiff, hself]
  · have hsum : equalPart n total + (100 - modHundred (equalPart n total)) = regularShare n total := by
      rw [regularShare_of_le (not_lt.1 fun hlt => hm.not_gt (h.modHundred_lt_iff.2 hlt)),
        h.modHundred_equalPart]
      ring
    rw [regularInDoubles, if_neg hm.not_gt, h.missing hm, Double.add_of_le (hsum ▸ hbig), hsum, hself]

theorem restInDoubles_eq : restInDoubles n total = .finite (roundedRest n total) := by
  have hq := equalPart_nonneg h.one_le h.pos.le
  have hmem := modHundred_mem (equalPart n total)
  have hT := h.total_le
  have hqle := h.equalPart_le
  rcases lt_or_ge (modHundred (equalPart n total)) 50 with hm | hm
  · have hbound := abs_le.1 (h.abs_product_le hmem.1 h.modHundred_le)
    rw [restInDoubles, if_pos hm, h.nearest_others, h.mul_others hmem.1 h.modHundred_le, roundedRest,
      if_pos hm]
    exact Double.add_of_le (le_trans (abs_le.2 ⟨by linarith, by linarith⟩)
      (pow_le_pow_right₀ one_le_two (by norm_num : 43 ≤ 1000)))
  · have hw : 0 ≤ 100 - modHundred (equalPart n total) := by linarith
    have hle : 100 - modHundred (equalPart n total) ≤ equalPart n total := by linarith [h.modHundred_le]
    have hbound := abs_le.1 (h.abs_product_le hw hle)
    rw [restInDoubles, if_neg hm.not_gt, h.missing hm, h.nearest_others, h.mul_others hw hle, roundedRest,
      if_neg hm.not_gt]
    exact Double.sub_of_le (le_trans (abs_le.2 ⟨by linarith, by linarith⟩)
      (pow_le_pow_right₀ one_le_two (by norm_num : 43 ≤ 1000)))

theorem irregularType_eq : irregularType n total =
    if modHundred (equalPart n total) < 50 then .bigger else .smaller := by
  simp only [irregularType, h.modHundred_lt_iff]

end SmallSplit

/-- **An irregular container of doubles** is one of exact arithmetic. -/
theorem SplitsInDoubles.exact (h : SplitsInDoubles n total is_hadoop_app) (hn : 1 ≤ n) (ht : 0 < total)
    (hle : total ≤ 2 ^ 40) : SplitsUnevenly n total is_hadoop_app := by
  have hs := h.small hn ht hle
  obtain ⟨hhadoop, hne, hbig, hsmall⟩ := h
  refine ⟨hhadoop, fun hzero => hne (hs.modHundred_eq_zero_iff.2 hzero), fun hlt => ?_, fun hge => ?_⟩
  · exact hs.hundred_lt_iff.1 (hbig (hs.modHundred_lt_iff.2 hlt))
  · have hten := hsmall (not_lt.1 fun hlt => hge.not_gt (hs.modHundred_lt_iff.1 hlt))
    rw [hs.restInDoubles_eq, Double.finite_le_finite] at hten
    have herr := abs_le.1 hs.abs_roundedRest_sub_le
    have hnine : (9 : ℚ) < irregularShare n total := by linarith [hs.total_le]
    have hnine' : 9 < irregularShare n total := by exact_mod_cast hnine
    omega

/-- **The CPU split in doubles**, whenever it returns. -/
theorem splitCpu_of_ok (hn : 1 ≤ n) (hpos : 0 < total) (ht : total = cpu.limits.max - cpu.current)
    {s : CpuSplit Double} (h : splitCpu doubleArithmetic n cpu is_hadoop_app = .ok s) :
    s = splitInDoubles n total is_hadoop_app := by
  have hq := equalPart_nonneg hn hpos.le
  have h10 : doubleArithmetic.literal 10 = .finite 10 := by
    exact_mod_cast doubles_literal (z := 10) (by norm_num)
  have h50 : doubleArithmetic.literal 50 = .finite 50 := by
    exact_mod_cast doubles_literal (z := 50) (by norm_num)
  have h100 : doubleArithmetic.literal 100 = .finite 100 := by
    exact_mod_cast doubles_literal (z := 100) (by norm_num)
  rw [splitCpu, ← ht] at h
  by_cases hconv : Converts ((total : ℚ) / n)
  swap
  · rw [doubles_quotient_error (by omega) hconv] at h
    cases h
  rw [doubles_quotient (by omega) hconv, ← equalPart] at h
  simp only [bind, Except.bind, pure, Except.pure, doubles_mod_hundred hq, h10, h50, h100,
    Bool.or_eq_true, doubles_eqZero, doubles_lt] at h
  rw [splitInDoubles]
  by_cases hzero : modHundred (equalPart n total) = 0 ∨ is_hadoop_app = true
  · rw [if_pos hzero, Except.ok.injEq] at h
    have hno : ¬ SplitsInDoubles n total is_hadoop_app := by
      rintro ⟨h₁, h₂, -⟩
      rcases hzero with h | h
      · exact h₂ h
      · rw [h₁] at h
        cases h
    rw [if_neg hno, h]
  rw [if_neg hzero] at h
  rw [not_or, Bool.not_eq_true] at hzero
  by_cases hm : modHundred (equalPart n total) < 50
  · rw [if_pos hm] at h
    by_cases hbig : 100 < equalPart n total
    · rw [if_pos hbig] at h
      by_cases hothers : Converts ((n - 1 : ℤ) : ℚ)
      · rw [doubles_ofInt hothers, Except.ok.injEq] at h
        have hyes : SplitsInDoubles n total is_hadoop_app :=
          ⟨hzero.2, hzero.1, fun _ => hbig, fun hge => absurd hm hge.not_gt⟩
        rw [if_pos hyes, if_pos hm, regularInDoubles, if_pos hm, restInDoubles, if_pos hm, ← h]
        rfl
      · rw [doubles_ofInt_error hothers] at h
        cases h
    · rw [if_neg hbig, Except.ok.injEq] at h
      rw [if_neg fun hyes => hbig (hyes.2.2.1 hm), h]
  · have hge : 50 ≤ modHundred (equalPart n total) := not_lt.1 hm
    rw [if_neg hm] at h
    by_cases hothers : Converts ((n - 1 : ℤ) : ℚ)
    swap
    · rw [doubles_ofInt_error hothers] at h
      cases h
    have hrest : doubleArithmetic.sub (.finite (equalPart n total)) (doubleArithmetic.mul
        (doubleArithmetic.sub (.finite 100) (.finite (modHundred (equalPart n total))))
        (.finite (nearest (n - 1 : ℤ)))) = restInDoubles n total := by
      rw [restInDoubles, if_neg hm]
      rfl
    rw [doubles_ofInt hothers] at h
    dsimp only at h
    rw [hrest] at h
    by_cases hten : doubleArithmetic.le (.finite 10) (restInDoubles n total) = true
    · rw [if_pos hten, Except.ok.injEq] at h
      have hyes : SplitsInDoubles n total is_hadoop_app :=
        ⟨hzero.2, hzero.1, fun hlt => absurd hlt hm, fun _ => hten⟩
      rw [if_pos hyes, if_neg hm, regularInDoubles, if_neg hm, ← h]
      rfl
    · rw [if_neg hten, Except.ok.injEq] at h
      rw [if_neg fun hyes => hten (hyes.2.2.2 hge), h]

/-- Up to 2^40 shares are split. -/
theorem splitCpu_small (hn : 1 ≤ n) (hpos : 0 < total) (hle : total ≤ 2 ^ 40)
    (ht : total = cpu.limits.max - cpu.current) :
    splitCpu doubleArithmetic n cpu is_hadoop_app = .ok (splitInDoubles n total is_hadoop_app) := by
  have hq := equalPart_nonneg hn hpos.le
  have habs : |total| ≤ 2 ^ 53 := by
    rw [abs_of_pos hpos]
    exact hle.trans (by norm_num)
  obtain ⟨s, hs⟩ : ∃ s, splitCpu doubleArithmetic n cpu is_hadoop_app = .ok s := by
    have h50 : doubleArithmetic.literal 50 = .finite 50 := by
      exact_mod_cast doubles_literal (z := 50) (by norm_num)
    have h100 : doubleArithmetic.literal 100 = .finite 100 := by
      exact_mod_cast doubles_literal (z := 100) (by norm_num)
    rw [splitCpu, ← ht, doubles_quotient (by omega) (converts_div_of_le habs), ← equalPart]
    simp only [bind, Except.bind, pure, Except.pure, doubles_mod_hundred hq, h50, h100, doubles_lt]
    rcases lt_or_ge 1 (equalPart n total) with hone | hone
    · have hs := SmallSplit.of_equalPart hn hpos hle hone
      have hothers : Converts ((n - 1 : ℤ) : ℚ) := by
        have hcont := hs.containers_le
        have hconv := converts_div_of_le (x := n - 1) (y := 1) (abs_le.2 ⟨by omega, by omega⟩)
        rwa [Int.cast_one, div_one] at hconv
      rw [doubles_ofInt hothers]
      dsimp only
      split_ifs <;> exact ⟨_, rfl⟩
    · -- an equal part of at most one share is below the tests
      have hmod : modHundred (equalPart n total) < 50 := by
        rw [modHundred_of_lt hq (by linarith)]
        linarith
      rw [if_pos hmod, if_neg (show ¬ 100 < equalPart n total by linarith)]
      split_ifs <;> exact ⟨_, rfl⟩
  rw [hs, splitCpu_of_ok hn hpos ht hs]

/-- The split of up to 2^40 shares. -/
theorem splitInDoubles_eq (hn : 1 ≤ n) (hpos : 0 < total) (hle : total ≤ 2 ^ 40) :
    splitInDoubles n total is_hadoop_app = if SplitsInDoubles n total is_hadoop_app then
      ⟨.finite (regularShare n total), some (irregularType n total, .finite (roundedRest n total))⟩
      else ⟨.finite (equalPart n total), none⟩ := by
  rw [splitInDoubles]
  split
  · next h =>
    have hs := h.small hn hpos hle
    rw [hs.regularInDoubles_eq, hs.restInDoubles_eq, hs.irregularType_eq]
  · rfl

end

end ServerlessYarn
