/-
  ServerlessYARN model — the limits of the containers next to an irregular one, in doubles
  (`ui/views/apps/utils.py`: `getContainerResourcesForApp`).

  A limit is divided by its ratio to the CPU and adjusted to integers, each operation
  with an error.  For amounts up to 2^40 the errors are too small to change what the
  irregular container gets in the end: all that the regular ones, rounded half up, leave.
  They do change the parts, and so where a part is a half and where a guard fails.

  * `SmallLimit.abs_parts_add_sub_le`: the parts nearly add up to the limit;
  * `SmallLimit.adjustLimit_eq`: the adjusted limit, in closed form.
-/
import ServerlessYarn.RoundedShares

namespace ServerlessYarn

open Binary64 Rounding

/-- The part of a limit that a regular container gets in proportion to its CPU. -/
def regularQuotient (n total limit : ℤ) : ℚ :=
  nearest (regularShare n total / nearest (total / limit))

/-- The part of the irregular container. -/
def irregularQuotient (n total limit : ℤ) : ℚ :=
  nearest (roundedRest n total / nearest (total / limit))

/-- What is left to the irregular container when the regular parts are rounded up. -/
def leftBehind (n total limit : ℤ) : ℚ :=
  nearest (irregularQuotient n total limit -
    nearest (nearest (1 - Int.fract (regularQuotient n total limit)) * (n - 1)))

/-- The guards under which a limit is adjusted to integers. -/
def AdjustsInDoubles (n total limit : ℤ) : Prop :=
  (Int.fract (regularQuotient n total limit) < 1 / 2 → 1 ≤ regularQuotient n total limit) ∧
    (1 / 2 ≤ Int.fract (regularQuotient n total limit) → 1 ≤ leftBehind n total limit)

instance (n total limit : ℤ) : Decidable (AdjustsInDoubles n total limit) :=
  inferInstanceAs (Decidable (_ ∧ _))

/-- A limit of an application of `total` shares, for each type of container. -/
def splitLimit (n total limit : ℤ) : Split (Number Double) :=
  if AdjustsInDoubles n total limit then
    ⟨.int (roundHalfEven (regularQuotient n total limit)),
      .int (limit - (n - 1) * round (regularQuotient n total limit))⟩
  else ⟨.float (.finite (regularQuotient n total limit)), .float (.finite (irregularQuotient n total limit))⟩

/-- A limit, next to an irregular container, of an application whose doubles are looked at. -/
structure SmallLimit (n total limit : ℤ) : Prop extends SmallSplit n total where
  splits : SplitsInDoubles n total false
  limit_pos : 0 < limit
  limit_le : limit ≤ 2 ^ 40

namespace SmallLimit
variable {n total limit : ℤ} (h : SmallLimit n total limit)
include h

theorem exact : SplitsUnevenly n total false := h.splits.exact h.one_le h.pos h.le

theorem cast_limit_pos : (0 : ℚ) < limit := by exact_mod_cast h.limit_pos

theorem one_le_limit : (1 : ℚ) ≤ limit := by exact_mod_cast h.limit_pos

theorem cast_limit_le : (limit : ℚ) ≤ 2 ^ 40 := by exact_mod_cast h.limit_le

theorem cast_total_pos : (0 : ℚ) < total := by exact_mod_cast h.pos

/-! ## The parts -/

/-- The ratio is a normal number. -/
theorem ratio_le : (2 : ℚ) ^ (-1022 : ℤ) ≤ total / limit := by
  have hone : (1 : ℚ) ≤ total := by exact_mod_cast h.pos
  have htiny : (2 : ℚ) ^ (-1022 : ℤ) ≤ 2 ^ (-40 : ℤ) := zpow_le_zpow_right₀ one_le_two (by norm_num)
  have hpow : (2 : ℚ) ^ (-40 : ℤ) = 1 / 2 ^ 40 := by norm_num
  refine (htiny.trans_eq hpow).trans (div_le_div₀ (by linarith) hone h.cast_limit_pos h.cast_limit_le)

/-- The error of a share of at least 1, divided by the ratio. -/
theorem abs_quotient_sub_le {share : ℚ} (hs : 1 ≤ share) :
    |nearest (share / nearest (total / limit)) - share * limit / total| ≤
      share * limit / total / 2 ^ 51 := by
  have heq : share / ((total : ℚ) / limit) = share * limit / total := by rw [div_div_eq_mul_div]
  have hbig : (2 : ℚ) ^ (-1021 : ℤ) ≤ share / (total / limit) := by
    have htiny : (2 : ℚ) ^ (-1021 : ℤ) ≤ 2 ^ (-40 : ℤ) := zpow_le_zpow_right₀ one_le_two (by norm_num)
    have hpow : (2 : ℚ) ^ (-40 : ℤ) = 1 / 2 ^ 40 := by norm_num
    rw [heq]
    refine (htiny.trans_eq hpow).trans (div_le_div₀ ?_ ?_ h.cast_total_pos h.total_le)
    · exact mul_nonneg (by linarith) h.cast_limit_pos.le
    · exact one_le_mul_of_one_le_of_one_le hs h.one_le_limit
  have herr := abs_nearest_div_nearest_sub_le h.ratio_le hbig
  rwa [heq] at herr

theorem hundred_le_regularShare : (100 : ℚ) ≤ regularShare n total := by
  exact_mod_cast regularShare_pos h.one_le h.exact

theorem one_le_regularShare : (1 : ℚ) ≤ regularShare n total := by
  linarith [h.hundred_le_regularShare]

theorem abs_regularQuotient_sub_le :
    |regularQuotient n total limit - regularPart n total limit| ≤ regularPart n total limit / 2 ^ 51 :=
  h.abs_quotient_sub_le h.one_le_regularShare

theorem one_le_roundedRest : 1 ≤ roundedRest n total := by
  have hi : (10 : ℚ) ≤ irregularShare n total := by
    exact_mod_cast irregularShare_pos h.one_le h.exact
  have herr := abs_le.1 h.abs_roundedRest_sub_le
  linarith [h.total_le]

theorem parts_add : (n - 1) * regularPart n total limit + irregularPart n total limit = limit :=
  ServerlessYarn.parts_add h.pos.ne' n limit

theorem regularPart_pos : 0 < regularPart n total limit :=
  ServerlessYarn.regularPart_pos h.one_le h.exact h.limit_pos

theorem irregularPart_pos : 0 < irregularPart n total limit :=
  ServerlessYarn.irregularPart_pos h.one_le h.exact h.limit_pos

/-- The regular parts are together at most the limit. -/
theorem mul_regularPart_le :
    0 ≤ (n - 1) * regularPart n total limit ∧ (n - 1) * regularPart n total limit ≤ limit := by
  refine ⟨mul_nonneg h.others_nonneg h.regularPart_pos.le, ?_⟩
  linarith [h.parts_add, h.irregularPart_pos]

theorem abs_irregularQuotient_sub_le :
    |irregularQuotient n total limit - irregularPart n total limit| ≤ limit / 2 ^ 47 := by
  have hpart : irregularPart n total limit ≤ limit := by linarith [h.mul_regularPart_le.1, h.parts_add]
  -- the error of the share, in proportion
  have hshare : |roundedRest n total * limit / total - irregularPart n total limit| ≤ limit / 2 ^ 48 := by
    have hdiff : roundedRest n total * limit / total - irregularPart n total limit =
        (roundedRest n total - irregularShare n total) * (limit / total) := by
      rw [irregularPart]
      ring
    have hratio : 0 ≤ (limit : ℚ) / total := div_nonneg h.cast_limit_pos.le h.cast_total_pos.le
    rw [hdiff, abs_mul, abs_of_nonneg hratio]
    calc |roundedRest n total - irregularShare n total| * (limit / total)
        ≤ total / 2 ^ 48 * (limit / total) := mul_le_mul_of_nonneg_right h.abs_roundedRest_sub_le hratio
      _ = limit / 2 ^ 48 := by
        have := h.cast_total_pos.ne'
        field_simp
  have hquot := abs_le.1 (h.abs_quotient_sub_le h.one_le_roundedRest)
  obtain ⟨hlow, hhigh⟩ := abs_le.1 hshare
  have hlim := h.cast_limit_pos
  exact abs_le.2 ⟨by rw [irregularQuotient]; linarith, by rw [irregularQuotient]; linarith⟩

/-- **The parts of doubles** nearly add up to the limit. -/
theorem abs_parts_add_sub_le :
    |(n - 1) * regularQuotient n total limit + irregularQuotient n total limit - limit| ≤
      limit / 2 ^ 46 := by
  have hmul : |(n - 1) * regularQuotient n total limit - (n - 1) * regularPart n total limit| ≤
      limit / 2 ^ 51 := by
    rw [← mul_sub, abs_mul, abs_of_nonneg h.others_nonneg]
    calc ((n : ℚ) - 1) * |regularQuotient n total limit - regularPart n total limit|
        ≤ (n - 1) * (regularPart n total limit / 2 ^ 51) :=
          mul_le_mul_of_nonneg_left h.abs_regularQuotient_sub_le h.others_nonneg
      _ = (n - 1) * regularPart n total limit / 2 ^ 51 := by ring
      _ ≤ limit / 2 ^ 51 := by
        gcongr
        exact h.mul_regularPart_le.2
  obtain ⟨hlow, hhigh⟩ := abs_le.1 hmul
  obtain ⟨hlow', hhigh'⟩ := abs_le.1 h.abs_irregularQuotient_sub_le
  have hlim := h.cast_limit_pos
  have hadd := h.parts_add
  exact abs_le.2 ⟨by linarith, by linarith⟩

theorem regularQuotient_pos : 0 < regularQuotient n total limit := by
  have herr := abs_le.1 h.abs_regularQuotient_sub_le
  linarith [h.regularPart_pos]

theorem irregularQuotient_pos : 0 < irregularQuotient n total limit := by
  have hpos : 0 < roundedRest n total * limit / total := div_pos
    (mul_pos (by linarith [h.one_le_roundedRest]) h.cast_limit_pos) h.cast_total_pos
  have herr := abs_le.1 (h.abs_quotient_sub_le h.one_le_roundedRest)
  rw [irregularQuotient]
  linarith

theorem mul_regularQuotient_le : (n - 1) * regularQuotient n total limit ≤ 2 * limit := by
  have hsum := (abs_le.1 h.abs_parts_add_sub_le).2
  have hlim := h.cast_limit_pos
  linarith [h.irregularQuotient_pos]

theorem irregularQuotient_le : irregularQuotient n total limit ≤ 2 * limit := by
  have hsum := (abs_le.1 h.abs_parts_add_sub_le).2
  have hlim := h.cast_limit_pos
  linarith [mul_nonneg h.others_nonneg h.regularQuotient_pos.le]

/-! ## Adjusting -/

/-- What rounding moves to or from the irregular container. -/
theorem moved_le {w : ℚ} (hw : 0 ≤ w) (hle : w ≤ regularQuotient n total limit) :
    |nearest (w * (n - 1)) - w * (n - 1)| ≤ limit / 2 ^ 50 ∧ 0 ≤ w * (n - 1) ∧
      w * (n - 1) ≤ 2 * limit := by
  have hnonneg : 0 ≤ w * (n - 1) := mul_nonneg hw h.others_nonneg
  have hbound : w * (n - 1) ≤ 2 * limit := by
    have hmul := mul_le_mul_of_nonneg_right hle h.others_nonneg
    linarith [h.mul_regularQuotient_le]
  refine ⟨abs_nearest_sub_le_of_bound h.one_le_limit ?_, hnonneg, hbound⟩
  rw [abs_of_nonneg hnonneg]
  linarith [h.cast_limit_pos]

/-- Rounded down, the regular parts leave their fractions. -/
theorem abs_gained_sub_lt (hf : Int.fract (regularQuotient n total limit) < 1 / 2) :
    |nearest (irregularQuotient n total limit +
        nearest (Int.fract (regularQuotient n total limit) * (n - 1))) -
      (limit - (n - 1) * round (regularQuotient n total limit) : ℤ)| < 1 / 4 := by
  have hfl := Int.floor_add_fract (regularQuotient n total limit)
  have hfract := Int.fract_nonneg (regularQuotient n total limit)
  have hfloor : (0 : ℚ) ≤ ⌊regularQuotient n total limit⌋ := by
    exact_mod_cast Int.floor_nonneg.2 h.regularQuotient_pos.le
  obtain ⟨hmoved, hlow, hhigh⟩ := h.moved_le hfract (by linarith)
  have hmoved' := abs_le.1 hmoved
  have hsum := abs_le.1 (abs_nearest_sub_le_of_bound h.one_le_limit
    (q := irregularQuotient n total limit + nearest (Int.fract (regularQuotient n total limit) * (n - 1)))
    (abs_le.2 ⟨by linarith [h.irregularQuotient_pos, h.cast_limit_pos],
      by linarith [h.irregularQuotient_le, h.cast_limit_pos]⟩))
  have hparts := abs_le.1 h.abs_parts_add_sub_le
  have hlim := h.cast_limit_le
  have hleft : ((limit - (n - 1) * round (regularQuotient n total limit) : ℤ) : ℚ) =
      limit - (n - 1) * regularQuotient n total limit +
        Int.fract (regularQuotient n total limit) * (n - 1) := by
    rw [round_of_fract_lt hf]
    push_cast
    linear_combination -((n : ℚ) - 1) * hfl
  rw [hleft]
  exact abs_lt.2 ⟨by linarith, by linarith⟩

/-- What is missing to the next integer is not larger than the part. -/
theorem missing_mem (hf : 1 / 2 ≤ Int.fract (regularQuotient n total limit)) :
    0 ≤ nearest (1 - Int.fract (regularQuotient n total limit)) ∧
      nearest (1 - Int.fract (regularQuotient n total limit)) ≤ regularQuotient n total limit := by
  have hfl := Int.floor_add_fract (regularQuotient n total limit)
  have hfloor : (0 : ℚ) ≤ ⌊regularQuotient n total limit⌋ := by
    exact_mod_cast Int.floor_nonneg.2 h.regularQuotient_pos.le
  refine ⟨nearest_nonneg (by linarith [Int.fract_lt_one (regularQuotient n total limit)]), ?_⟩
  have hmono := nearest_mono (show 1 - Int.fract (regularQuotient n total limit) ≤ ((1 : ℤ) : ℚ) / 2 by
    push_cast
    linarith)
  rw [nearest_half (by norm_num), Int.cast_one] at hmono
  linarith

/-- Rounded up, they leave what is missing to the next integers. -/
theorem abs_leftBehind_sub_lt (hf : 1 / 2 ≤ Int.fract (regularQuotient n total limit)) :
    |leftBehind n total limit - (limit - (n - 1) * round (regularQuotient n total limit) : ℤ)| < 1 / 4 := by
  have hfl := Int.floor_add_fract (regularQuotient n total limit)
  have hfract := Int.fract_lt_one (regularQuotient n total limit)
  have hfloor : (0 : ℚ) ≤ ⌊regularQuotient n total limit⌋ := by
    exact_mod_cast Int.floor_nonneg.2 h.regularQuotient_pos.le
  obtain ⟨hmissing, hle⟩ := h.missing_mem hf
  obtain ⟨hmoved, hlow, hhigh⟩ := h.moved_le hmissing hle
  have hmoved' := abs_le.1 hmoved
  have hround : |(n - 1) * nearest (1 - Int.fract (regularQuotient n total limit)) -
      (n - 1) * (1 - Int.fract (regularQuotient n total limit))| ≤ 1 / 2 ^ 10 := by
    have herr := abs_nearest_sub_le_of_le (q := 1 - Int.fract (regularQuotient n total limit)) (e := 0)
      (by norm_num) (by rw [zpow_zero]; exact abs_le.2 ⟨by linarith, by linarith⟩)
    have hothers : (n : ℚ) - 1 ≤ 2 ^ 40 := by
      have : (n : ℚ) ≤ total := by exact_mod_cast h.containers_le
      linarith [h.total_le]
    rw [← mul_sub, abs_mul, abs_of_nonneg h.others_nonneg]
    calc ((n : ℚ) - 1) * _ ≤ 2 ^ 40 * 2 ^ (0 - 53 : ℤ) := mul_le_mul hothers herr (abs_nonneg _) (by norm_num)
      _ ≤ 1 / 2 ^ 10 := by norm_num
  obtain ⟨hround₁, hround₂⟩ := abs_le.1 hround
  have hdiff := abs_le.1 (abs_nearest_sub_le_of_bound h.one_le_limit
    (q := irregularQuotient n total limit -
      nearest (nearest (1 - Int.fract (regularQuotient n total limit)) * (n - 1)))
    (abs_le.2 ⟨by linarith [h.irregularQuotient_pos, h.cast_limit_pos],
      by linarith [h.irregularQuotient_le, h.cast_limit_pos]⟩))
  have hparts := abs_le.1 h.abs_parts_add_sub_le
  have hlim := h.cast_limit_le
  have hleft : ((limit - (n - 1) * round (regularQuotient n total limit) : ℤ) : ℚ) =
      limit - (n - 1) * regularQuotient n total limit -
        (n - 1) * (1 - Int.fract (regularQuotient n total limit)) := by
    rw [round_of_le_fract hf]
    push_cast
    linear_combination -((n : ℚ) - 1) * hfl
  rw [hleft, leftBehind]
  exact abs_lt.2 ⟨by linarith, by linarith⟩

/-! ## The code's operations -/

theorem ratio_ge : (2 : ℚ) ^ (-40 : ℤ) ≤ nearest (total / limit) := by
  have hone : (1 : ℚ) ≤ total := by exact_mod_cast h.pos
  have hself := nearest_of_le (m := 1) (e := -40) (by norm_num) (by norm_num)
  rw [Int.cast_one, one_mul] at hself
  have hle : (2 : ℚ) ^ (-40 : ℤ) ≤ total / limit := by
    have hpow : (2 : ℚ) ^ (-40 : ℤ) = 1 / 2 ^ 40 := by norm_num
    exact hpow.le.trans (div_le_div₀ (by linarith) hone h.cast_limit_pos h.cast_limit_le)
  exact hself.symm.le.trans (nearest_mono hle)

theorem div_ratio {share : ℚ} (hs : |share| ≤ 2 ^ 42) :
    doubleArithmetic.div (.finite share) (.finite (nearest (total / limit))) =
      .ok (.finite (nearest (share / nearest (total / limit)))) := by
  have hge := h.ratio_ge
  have hpos : 0 < nearest ((total : ℚ) / limit) := (zpow_pos two_pos _).trans_le hge
  have hne : Double.finite (nearest ((total : ℚ) / limit)) ≠ .finite 0 := by simpa using hpos.ne'
  refine (if_neg hne).trans (congrArg Except.ok (Double.div_of_le ?_))
  have hle : |share / nearest ((total : ℚ) / limit)| ≤ 2 ^ 82 := by
    rw [abs_div, abs_of_pos hpos]
    calc |share| / nearest ((total : ℚ) / limit) ≤ 2 ^ 42 / 2 ^ (-40 : ℤ) :=
          div_le_div₀ (by norm_num) hs (zpow_pos two_pos _) hge
      _ = 2 ^ 82 := by norm_num
  exact hle.trans (pow_le_pow_right₀ one_le_two (by norm_num))

theorem abs_roundedRest_le : |roundedRest n total| ≤ 2 ^ 42 := by
  have hadd : ((n : ℚ) - 1) * regularShare n total + irregularShare n total = total := by
    exact_mod_cast shares_add n total
  have hr : (0 : ℚ) ≤ regularShare n total := by
    exact_mod_cast (by have := regularShare_pos h.one_le h.exact; omega : 0 ≤ regularShare n total)
  have hprod := mul_nonneg h.others_nonneg hr
  have herr := abs_le.1 h.abs_roundedRest_sub_le
  exact abs_le.2 ⟨by linarith [h.one_le_roundedRest], by linarith [h.total_le]⟩

/-- The scaled limit. -/
theorem scaleLimit_eq :
    scaleLimit doubleArithmetic total ⟨.finite (regularShare n total), .finite (roundedRest n total)⟩ limit =
      .ok ⟨.finite (regularQuotient n total limit), .finite (irregularQuotient n total limit)⟩ := by
  have hlim := h.limit_pos
  have hratio := doubles_quotient (show limit ≠ 0 by omega)
    (converts_div_of_le (y := limit) (h.abs_total_le.trans (by norm_num)))
  rw [scaleLimit, hratio]
  simp only [bind, Except.bind, pure, Except.pure, h.div_ratio h.nearest_regularShare.2,
    h.div_ratio h.abs_roundedRest_le]
  rfl

theorem fract_eq : doubleArithmetic.mod (.finite (regularQuotient n total limit)) 1 =
    .finite (Int.fract (regularQuotient n total limit)) := by
  rw [doubles_mod h.regularQuotient_pos.le, Nat.cast_one, div_one, one_mul, Int.fract]

theorem ofInt_others : doubleArithmetic.ofInt (n - 1) = .ok (.finite (n - 1)) := by
  have hone := h.one_le
  have hcont := h.containers_le
  have hle := h.le
  have hconv := converts_div_of_le (x := n - 1) (y := 1) (abs_le.2 ⟨by omega, by omega⟩)
  rw [Int.cast_one, div_one] at hconv
  rw [doubles_ofInt hconv, h.nearest_others]

theorem doubles_gained (hf : Int.fract (regularQuotient n total limit) < 1 / 2) :
    doubleArithmetic.rounded (doubleArithmetic.add (.finite (irregularQuotient n total limit))
        (doubleArithmetic.mul (.finite (Int.fract (regularQuotient n total limit))) (.finite (n - 1)))) =
      .ok (limit - (n - 1) * round (regularQuotient n total limit)) := by
  have hfl := Int.floor_add_fract (regularQuotient n total limit)
  have hfloor : (0 : ℚ) ≤ ⌊regularQuotient n total limit⌋ := by
    exact_mod_cast Int.floor_nonneg.2 h.regularQuotient_pos.le
  obtain ⟨hmoved, hlow, hhigh⟩ := h.moved_le (Int.fract_nonneg _) (by linarith)
  have hmoved' := abs_le.1 hmoved
  have hlim := h.cast_limit_le
  have hmul : doubleArithmetic.mul (.finite (Int.fract (regularQuotient n total limit))) (.finite (n - 1)) =
      .finite (nearest (Int.fract (regularQuotient n total limit) * (n - 1))) :=
    Double.mul_of_le (le_trans (abs_le.2 ⟨by linarith, by linarith⟩)
      (pow_le_pow_right₀ one_le_two (by norm_num : 43 ≤ 1000)))
  have hadd : doubleArithmetic.add (.finite (irregularQuotient n total limit))
      (.finite (nearest (Int.fract (regularQuotient n total limit) * (n - 1)))) =
      .finite (nearest (irregularQuotient n total limit +
        nearest (Int.fract (regularQuotient n total limit) * (n - 1)))) :=
    Double.add_of_le (le_trans (abs_le.2 ⟨by linarith [h.irregularQuotient_pos],
      by linarith [h.irregularQuotient_le]⟩) (pow_le_pow_right₀ one_le_two (by norm_num : 43 ≤ 1000)))
  rw [hmul, hadd]
  exact congrArg Except.ok (roundHalfEven_eq_of_abs_sub_lt ((h.abs_gained_sub_lt hf).trans (by norm_num)))

theorem doubles_leftBehind (hf : 1 / 2 ≤ Int.fract (regularQuotient n total limit)) :
    doubleArithmetic.sub (.finite (irregularQuotient n total limit)) (doubleArithmetic.mul
        (doubleArithmetic.sub (.finite 1) (.finite (Int.fract (regularQuotient n total limit))))
        (.finite (n - 1))) = .finite (leftBehind n total limit) := by
  have hfract := Int.fract_lt_one (regularQuotient n total limit)
  obtain ⟨hmissing, hle⟩ := h.missing_mem hf
  obtain ⟨hmoved, hlow, hhigh⟩ := h.moved_le hmissing hle
  have hmoved' := abs_le.1 hmoved
  have hlim := h.cast_limit_le
  have hsub : doubleArithmetic.sub (.finite 1) (.finite (Int.fract (regularQuotient n total limit))) =
      .finite (nearest (1 - Int.fract (regularQuotient n total limit))) :=
    Double.sub_of_le (le_trans (abs_le.2 ⟨by linarith, by linarith⟩)
      (pow_le_pow_right₀ one_le_two (by norm_num : 1 ≤ 1000)))
  have hmul : doubleArithmetic.mul (.finite (nearest (1 - Int.fract (regularQuotient n total limit))))
      (.finite (n - 1)) = .finite (nearest (nearest (1 - Int.fract (regularQuotient n total limit)) * (n - 1))) :=
    Double.mul_of_le (le_trans (abs_le.2 ⟨by linarith, by linarith⟩)
      (pow_le_pow_right₀ one_le_two (by norm_num : 43 ≤ 1000)))
  rw [hsub, hmul, leftBehind]
  exact Double.sub_of_le (le_trans (abs_le.2 ⟨by linarith [h.irregularQuotient_pos],
    by linarith [h.irregularQuotient_le]⟩) (pow_le_pow_right₀ one_le_two (by norm_num : 43 ≤ 1000)))

/-- **The adjusted limit.** -/
theorem adjustLimit_eq : adjustLimit doubleArithmetic n
    ⟨.finite (regularQuotient n total limit), .finite (irregularQuotient n total limit)⟩ =
      .ok (splitLimit n total limit) := by
  have hhalf : doubleArithmetic.literal (1 / 2) = .finite (1 / 2) := by decide +kernel
  have hone : doubleArithmetic.literal 1 = .finite 1 := by decide +kernel
  rw [adjustLimit]
  simp only [bind, Except.bind, pure, Except.pure, h.fract_eq, h.ofInt_others, hhalf, hone, doubles_lt,
    doubles_le]
  rcases lt_or_ge (Int.fract (regularQuotient n total limit)) (1 / 2) with hf | hf
  · have hiff : AdjustsInDoubles n total limit ↔ 1 ≤ regularQuotient n total limit :=
      ⟨fun hadj => hadj.1 hf, fun hle => ⟨fun _ => hle, fun hge => absurd hf hge.not_gt⟩⟩
    have hregular : doubleArithmetic.truncated (.finite (regularQuotient n total limit)) =
        .ok (roundHalfEven (regularQuotient n total limit)) := by
      refine congrArg Except.ok ?_
      rw [truncate_of_nonneg h.regularQuotient_pos.le, roundHalfEven, if_pos hf]
    rw [if_pos hf, h.doubles_gained hf, hregular, splitLimit]
    simp only [hiff]
    split_ifs <;> rfl
  · have hiff : AdjustsInDoubles n total limit ↔ 1 ≤ leftBehind n total limit :=
      ⟨fun hadj => hadj.2 hf, fun hle => ⟨fun hlt => absurd hlt hf.not_gt, fun _ => hle⟩⟩
    have hirregular : doubleArithmetic.rounded (.finite (leftBehind n total limit)) =
        .ok (limit - (n - 1) * round (regularQuotient n total limit)) :=
      congrArg Except.ok (roundHalfEven_eq_of_abs_sub_lt ((h.abs_leftBehind_sub_lt hf).trans (by norm_num)))
    have hregular : doubleArithmetic.rounded (.finite (regularQuotient n total limit)) =
        .ok (roundHalfEven (regularQuotient n total limit)) := rfl
    rw [if_neg hf.not_gt, h.doubles_leftBehind hf, hirregular, hregular, splitLimit]
    simp only [doubles_le, hiff]
    split_ifs <;> rfl

end SmallLimit

end ServerlessYarn
