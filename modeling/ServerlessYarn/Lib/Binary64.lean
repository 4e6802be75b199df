/-
  Binary64 arithmetic on rational numbers.

  A finite double is a rational number with 53 binary digits and an exponent of at least
  -1074; an operation on doubles is the exact one followed by `nearest`, which has no upper
  bound.  `Converts` says when a result is in the range, and `Double` adds the values that
  are not.

  * `nearest_mono`, `nearest_nearest`: rounding keeps the order, and changes no double;
  * `nearest_intCast`: integers up to 2^53 are doubles;
  * `abs_nearest_sub_le_mul`, `abs_nearest_sub_le_of_bound`: the error, relative to the
    result or to a bound;
  * `abs_nearest_div_nearest_sub_le`: the error of dividing by a rounded ratio;
  * `nearest_lt_iff`, `nearest_div_lt_half_iff`: a number that is not too near to a double,
    such as a quotient of integers to a half, stays on its side of it;
  * `floor_nearest_div`, `roundHalfEven_nearest_div`: quotients of integers have the
    floors, ceilings and roundings of the exact ones.
-/
import ServerlessYarn.Lib.Rounding
import Mathlib.Algebra.Order.Floor.Div
import Mathlib.Data.Int.Log
import Mathlib.Tactic.Positivity

namespace Binary64

open Rounding

/-! ## Rounding -/

/-- The exponent of the last place of the doubles around `q`. -/
def lastPlace (q : ℚ) : ℤ := max (Int.log 2 |q| - 52) (-1074)

/-- The distance of the doubles around `q`. -/
def ulp (q : ℚ) : ℚ := 2 ^ lastPlace q

/-- The nearest double; of two nearest ones, the one with an even last place. -/
def nearest (q : ℚ) : ℚ := roundHalfEven (q / ulp q) * ulp q

/-- The double nearest to `q` is in the range of the format. -/
def Converts (q : ℚ) : Prop := |nearest q| < 2 ^ 1024

instance (q : ℚ) : Decidable (Converts q) := inferInstanceAs (Decidable (_ < _))

theorem ulp_pos (q : ℚ) : 0 < ulp q := zpow_pos two_pos _

theorem ulp_neg (q : ℚ) : ulp (-q) = ulp q := by
  rw [ulp, ulp, lastPlace, lastPlace, abs_neg]

@[simp] theorem nearest_zero : nearest 0 = 0 := by
  rw [nearest, zero_div, ← Int.cast_zero (R := ℚ), roundHalfEven_intCast, Int.cast_zero, zero_mul]

theorem nearest_neg (q : ℚ) : nearest (-q) = -nearest q := by
  rw [nearest, nearest, ulp_neg, neg_div, roundHalfEven_neg, Int.cast_neg, neg_mul]

/-! ## Multiples of the last place -/

section
variable {q q' : ℚ}

theorem mul_ulp_le_nearest {k : ℤ} (h : k * ulp q ≤ q) : k * ulp q ≤ nearest q := by
  have hk : (k : ℚ) ≤ q / ulp q := (le_div_iff₀ (ulp_pos q)).2 h
  have hround : k ≤ roundHalfEven (q / ulp q) := by
    simpa using roundHalfEven_mono hk
  exact mul_le_mul_of_nonneg_right (by exact_mod_cast hround) (ulp_pos q).le

theorem nearest_le_mul_ulp {k : ℤ} (h : q ≤ k * ulp q) : nearest q ≤ k * ulp q := by
  have hk : q / ulp q ≤ (k : ℚ) := (div_le_iff₀ (ulp_pos q)).2 h
  have hround : roundHalfEven (q / ulp q) ≤ k := by
    simpa using roundHalfEven_mono hk
  exact mul_le_mul_of_nonneg_right (by exact_mod_cast hround) (ulp_pos q).le

/-- A larger power of two is a multiple of the last place. -/
theorem exists_zpow_eq_mul_ulp {e : ℤ} (h : lastPlace q ≤ e) : ∃ k : ℤ, (2 : ℚ) ^ e = k * ulp q := by
  refine ⟨2 ^ (e - lastPlace q).toNat, ?_⟩
  have hexp : ((e - lastPlace q).toNat : ℤ) = e - lastPlace q := Int.toNat_of_nonneg (by omega)
  rw [ulp, Int.cast_pow, Int.cast_ofNat, ← zpow_natCast, hexp, ← zpow_add₀ two_ne_zero]
  congr 1
  omega

theorem abs_nearest_sub_le (q : ℚ) : |nearest q - q| ≤ ulp q / 2 := by
  have hq : q = q / ulp q * ulp q := (div_mul_cancel₀ q (ulp_pos q).ne').symm
  have herr : nearest q - q = (roundHalfEven (q / ulp q) - q / ulp q) * ulp q := by
    conv_lhs => rw [hq]
    rw [sub_mul, nearest, div_mul_cancel₀ q (ulp_pos q).ne']
  have hhalf := mul_le_mul_of_nonneg_right (abs_roundHalfEven_sub_le (q / ulp q)) (ulp_pos q).le
  rw [herr, abs_mul, abs_of_pos (ulp_pos q)]
  exact hhalf.trans_eq (one_div_mul_eq_div 2 (ulp q))

/-! ## Order -/

theorem nearest_nonneg (h : 0 ≤ q) : 0 ≤ nearest q := by
  simpa using mul_ulp_le_nearest (q := q) (k := 0) (by simpa using h)

theorem lt_zpow_of_lastPlace_lt {e : ℤ} (hq : 0 < q) (h : lastPlace q < e - 52) : q < 2 ^ e := by
  have hlog : Int.log 2 q + 1 ≤ e := by
    have hle : Int.log 2 |q| - 52 ≤ lastPlace q := le_max_left _ _
    rw [abs_of_pos hq] at hle
    omega
  have hlt := Int.lt_zpow_succ_log_self (b := 2) one_lt_two q
  exact hlt.trans_le (zpow_le_zpow_right₀ one_le_two hlog)

theorem nearest_mono_of_pos (hq : 0 < q) (h : q ≤ q') : nearest q ≤ nearest q' := by
  have hq' := hq.trans_le h
  have hlog : Int.log 2 |q| ≤ Int.log 2 |q'| := by
    rw [abs_of_pos hq, abs_of_pos hq']
    exact Int.log_mono_right hq h
  have hplace : lastPlace q ≤ lastPlace q' := max_le_max_right _ (sub_le_sub_right hlog 52)
  rcases hplace.eq_or_lt with heq | hlt
  · -- the same last place
    have hulp : ulp q' = ulp q := by rw [ulp, ulp, heq]
    have hround := roundHalfEven_mono (div_le_div_of_nonneg_right h (ulp_pos q).le)
    rw [nearest, nearest, hulp]
    exact mul_le_mul_of_nonneg_right (by exact_mod_cast hround) (ulp_pos q).le
  · -- a power of two lies between the numbers, and is a double
    have hlow : -1074 ≤ lastPlace q := le_max_right _ _
    have hlast : lastPlace q' = Int.log 2 q' - 52 := by
      unfold lastPlace at hlt hlow ⊢
      rw [abs_of_pos hq'] at hlt ⊢
      omega
    obtain ⟨k, hk⟩ := exists_zpow_eq_mul_ulp (q := q) (e := Int.log 2 q') (by omega)
    obtain ⟨k', hk'⟩ := exists_zpow_eq_mul_ulp (q := q') (e := Int.log 2 q') (by omega)
    have hbelow : q < 2 ^ Int.log 2 q' := lt_zpow_of_lastPlace_lt hq (by omega)
    have habove : (2 : ℚ) ^ Int.log 2 q' ≤ q' := Int.zpow_log_le_self (b := 2) one_lt_two hq'
    calc nearest q ≤ k * ulp q := nearest_le_mul_ulp (hk ▸ hbelow.le)
      _ = k' * ulp q' := hk.symm.trans hk'
      _ ≤ nearest q' := mul_ulp_le_nearest (hk' ▸ habove)

/-- **Rounding keeps the order.** -/
theorem nearest_mono (h : q ≤ q') : nearest q ≤ nearest q' := by
  rcases lt_or_ge 0 q with hq | hq
  · exact nearest_mono_of_pos hq h
  rcases lt_or_ge q' 0 with hq' | hq'
  · have hneg := nearest_mono_of_pos (neg_pos.2 hq') (neg_le_neg h)
    rw [nearest_neg, nearest_neg] at hneg
    exact neg_le_neg_iff.1 hneg
  · have hlow := nearest_nonneg (neg_nonneg.2 hq)
    rw [nearest_neg] at hlow
    exact (neg_nonneg.1 hlow).trans (nearest_nonneg hq')

/-! ## Doubles -/

theorem nearest_of_lt {m e : ℤ} (hm : |m| < 2 ^ 53) (he : -1074 ≤ e) :
    nearest (m * 2 ^ e) = m * 2 ^ e := by
  by_cases hzero : m = 0
  · rw [hzero, Int.cast_zero, zero_mul, nearest_zero]
  have hpos : (0 : ℚ) < |(m : ℚ)| := abs_pos.2 (by exact_mod_cast hzero)
  have habs : |(m : ℚ) * 2 ^ e| = |(m : ℚ)| * 2 ^ e := by
    rw [abs_mul, abs_of_pos (zpow_pos (two_pos : (0 : ℚ) < 2) e)]
  have hlog : Int.log 2 |(m : ℚ) * 2 ^ e| < 53 + e := by
    have hlt : |(m : ℚ) * 2 ^ e| < ((2 : ℕ) : ℚ) ^ (53 + e) := by
      rw [habs, Nat.cast_ofNat, zpow_add₀ two_ne_zero]
      exact mul_lt_mul_of_pos_right (by exact_mod_cast hm) (zpow_pos two_pos e)
    exact (Int.lt_zpow_iff_log_lt one_lt_two (habs ▸ mul_pos hpos (zpow_pos two_pos e))).1 hlt
  have hplace : lastPlace (m * 2 ^ e) ≤ e := max_le (by omega) he
  obtain ⟨k, hk⟩ := exists_zpow_eq_mul_ulp hplace
  have hmul : (m : ℚ) * 2 ^ e = (m * k : ℤ) * ulp (m * 2 ^ e) := by
    rw [Int.cast_mul, mul_assoc, ← hk]
  refine le_antisymm ?_ ?_
  · exact (nearest_le_mul_ulp hmul.le).trans hmul.ge
  · exact hmul.le.trans (mul_ulp_le_nearest hmul.ge)

/-- **A number with 53 binary digits is a double.** -/
theorem nearest_of_le {m e : ℤ} (hm : |m| ≤ 2 ^ 53) (he : -1074 ≤ e) :
    nearest (m * 2 ^ e) = m * 2 ^ e := by
  rcases hm.lt_or_eq with hlt | heq
  · exact nearest_of_lt hlt he
  · -- one binary digit less, one place higher
    have hhalf : ∃ m' : ℤ, m = 2 * m' ∧ |m'| < 2 ^ 53 := by
      rcases abs_eq (by positivity) |>.1 heq with rfl | rfl
      · exact ⟨2 ^ 52, by norm_num, by norm_num⟩
      · exact ⟨-2 ^ 52, by norm_num, by norm_num⟩
    obtain ⟨m', rfl, hm'⟩ := hhalf
    have hshift : ((2 * m' : ℤ) : ℚ) * 2 ^ e = m' * 2 ^ (e + 1) := by
      rw [zpow_add₀ two_ne_zero, zpow_one, Int.cast_mul, Int.cast_ofNat]
      ring
    rw [hshift, nearest_of_lt hm' (by omega)]

theorem nearest_intCast {z : ℤ} (h : |z| ≤ 2 ^ 53) : nearest z = z := by
  simpa using nearest_of_le h (by norm_num : (-1074 : ℤ) ≤ 0)

theorem nearest_natCast {n : ℕ} (h : n ≤ 2 ^ 53) : nearest n = n := by
  have hz := nearest_intCast (z := n) (by rw [Nat.abs_cast]; exact_mod_cast h)
  exact_mod_cast hz

/-- The digits of a rounded number. -/
theorem abs_roundHalfEven_div_ulp_le (q : ℚ) : |roundHalfEven (q / ulp q)| ≤ 2 ^ 53 := by
  have hlt : |q| < 2 ^ (Int.log 2 |q| + 1) := by
    simpa using Int.lt_zpow_succ_log_self (b := 2) one_lt_two |q|
  have hplace : Int.log 2 |q| + 1 ≤ 53 + lastPlace q := by
    have := le_max_left (Int.log 2 |q| - 52) (-1074)
    rw [lastPlace]
    omega
  have hbound : |q / ulp q| ≤ ((2 ^ 53 : ℤ) : ℚ) := by
    rw [abs_div, abs_of_pos (ulp_pos q), div_le_iff₀ (ulp_pos q)]
    calc |q| ≤ (2 : ℚ) ^ (53 + lastPlace q) := hlt.le.trans (zpow_le_zpow_right₀ one_le_two hplace)
      _ = ((2 ^ 53 : ℤ) : ℚ) * ulp q := by
        rw [zpow_add₀ two_ne_zero, ulp]
        norm_num
  obtain ⟨hlow, hhigh⟩ := abs_le.1 hbound
  refine abs_le.2 ⟨?_, ?_⟩
  · have h := roundHalfEven_mono hlow
    rwa [← Int.cast_neg, roundHalfEven_intCast] at h
  · have h := roundHalfEven_mono hhigh
    rwa [roundHalfEven_intCast] at h

/-- **Rounding changes no double.** -/
@[simp] theorem nearest_nearest (q : ℚ) : nearest (nearest q) = nearest q := by
  exact nearest_of_le (abs_roundHalfEven_div_ulp_le q) (le_max_right _ (-1074))

/-- A double bounds the roundings of what it bounds. -/
theorem abs_nearest_le {m e : ℤ} (hm : |m| ≤ 2 ^ 53) (he : -1074 ≤ e) (h : |q| ≤ m * 2 ^ e) :
    |nearest q| ≤ m * 2 ^ e := by
  obtain ⟨hlow, hhigh⟩ := abs_le.1 h
  have hself := nearest_of_le hm he
  refine abs_le.2 ⟨?_, ?_⟩
  · simpa [nearest_neg, hself] using nearest_mono hlow
  · simpa [hself] using nearest_mono hhigh

/-! ## The error -/

/-- **The relative error** of a number that is not too small. -/
theorem abs_nearest_sub_le_mul (h : 2 ^ (-1022 : ℤ) ≤ |q|) : |nearest q - q| ≤ |q| / 2 ^ 53 := by
  have hpos : 0 < |q| := (zpow_pos two_pos _).trans_le h
  have hlog : -1022 ≤ Int.log 2 |q| := (Int.zpow_le_iff_le_log one_lt_two hpos).1 (by exact_mod_cast h)
  have hplace : lastPlace q = Int.log 2 |q| - 52 := max_eq_left (by omega)
  have hself : (2 : ℚ) ^ Int.log 2 |q| ≤ |q| := by
    simpa using Int.zpow_log_le_self (b := 2) one_lt_two hpos
  calc |nearest q - q| ≤ ulp q / 2 := abs_nearest_sub_le q
    _ = 2 ^ Int.log 2 |q| / 2 ^ 53 := by
      rw [ulp, hplace, zpow_sub₀ two_ne_zero]
      norm_num
      ring
    _ ≤ |q| / 2 ^ 53 := by gcongr

/-- The absolute error below a power of two. -/
theorem abs_nearest_sub_le_of_le {e : ℤ} (he : -1022 ≤ e) (h : |q| ≤ 2 ^ e) :
    |nearest q - q| ≤ 2 ^ (e - 53) := by
  by_cases hzero : q = 0
  · rw [hzero, nearest_zero, sub_zero, abs_zero]
    exact (zpow_pos two_pos _).le
  have hlog : Int.log 2 |q| ≤ e := by
    have hself := (Int.zpow_log_le_self (b := 2) one_lt_two (abs_pos.2 hzero)).trans h
    exact (zpow_le_zpow_iff_right₀ (one_lt_two : (1 : ℚ) < 2)).1 (by exact_mod_cast hself)
  have hplace : lastPlace q ≤ e - 52 := max_le (by omega) (by omega)
  calc |nearest q - q| ≤ ulp q / 2 := abs_nearest_sub_le q
    _ ≤ 2 ^ (e - 52) / 2 := by
      rw [ulp]
      gcongr
      exact one_le_two
    _ = 2 ^ (e - 53) := by
      rw [show e - 52 = e - 53 + 1 by omega, zpow_add_one₀ two_ne_zero, mul_div_cancel_right₀ _ two_ne_zero]

/-- The error of any number. -/
theorem abs_nearest_sub_le_add (q : ℚ) : |nearest q - q| ≤ |q| / 2 ^ 53 + 1 / 2 ^ 100 := by
  rcases le_or_gt ((2 : ℚ) ^ (-1022 : ℤ)) |q| with hbig | hsmall
  · have hrel := abs_nearest_sub_le_mul hbig
    have hpos : (0 : ℚ) < 1 / 2 ^ 100 := by positivity
    linarith
  · have habs := abs_nearest_sub_le_of_le (e := -1022) le_rfl hsmall.le
    have htiny : (2 : ℚ) ^ (-1022 - 53 : ℤ) ≤ 2 ^ (-100 : ℤ) :=
      zpow_le_zpow_right₀ one_le_two (by norm_num)
    have hpow : (2 : ℚ) ^ (-100 : ℤ) = 1 / 2 ^ 100 := by
      rw [zpow_neg, ← one_div]
      rfl
    have hpos : 0 ≤ |q| / 2 ^ 53 := by positivity
    exact habs.trans (htiny.trans (hpow.le.trans (le_add_of_nonneg_left hpos)))

/-- The error of a number that is not much larger than `b`. -/
theorem abs_nearest_sub_le_of_bound {b : ℚ} (hb : 1 ≤ b) (h : |q| ≤ 7 * b) :
    |nearest q - q| ≤ b / 2 ^ 50 := by
  have herr := abs_nearest_sub_le_add q
  linarith

theorem abs_nearest_le_pow {k : ℕ} (h : |q| ≤ 2 ^ k) : |nearest q| ≤ 2 ^ k := by
  have hle := abs_nearest_le (m := 1) (e := k) (by norm_num) (by omega) (q := q) (by
    rw [Int.cast_one, one_mul, zpow_natCast]
    exact h)
  rwa [Int.cast_one, one_mul, zpow_natCast] at hle

/-- **The error of two divisions**: `a` by the double of `r`. -/
theorem abs_nearest_div_nearest_sub_le {a r : ℚ} (hr : 2 ^ (-1022 : ℤ) ≤ r)
    (ha : 2 ^ (-1021 : ℤ) ≤ a / r) : |nearest (a / nearest r) - a / r| ≤ a / r / 2 ^ 51 := by
  have hr₀ : 0 < r := (zpow_pos two_pos _).trans_le hr
  have hq₀ : 0 < a / r := (zpow_pos two_pos _).trans_le ha
  have herr := abs_le.1 (abs_nearest_sub_le_mul (q := r) (by rwa [abs_of_pos hr₀]))
  rw [abs_of_pos hr₀] at herr
  have hnear : 0 < nearest r := by linarith
  -- the quotient by the double, next to the exact one
  have hq : |a / nearest r - a / r| ≤ a / r / 2 ^ 52 := by
    have hdiff : a / nearest r - a / r = a / r * ((r - nearest r) / nearest r) := by
      field_simp
    have hfactor : |(r - nearest r) / nearest r| ≤ 1 / 2 ^ 52 := by
      rw [abs_div, abs_of_pos hnear, div_le_iff₀ hnear]
      exact abs_le.2 ⟨by linarith, by linarith⟩
    rw [hdiff, abs_mul, abs_of_pos hq₀]
    calc a / r * |(r - nearest r) / nearest r| ≤ a / r * (1 / 2 ^ 52) :=
          mul_le_mul_of_nonneg_left hfactor hq₀.le
      _ = a / r / 2 ^ 52 := by rw [mul_one_div]
  obtain ⟨hlow, hhigh⟩ := abs_le.1 hq
  have hbig : 2 ^ (-1022 : ℤ) ≤ |a / nearest r| := by
    have hhalf : (2 : ℚ) ^ (-1021 : ℤ) = 2 * 2 ^ (-1022 : ℤ) := by
      rw [show (-1021 : ℤ) = 1 + -1022 from rfl, zpow_add₀ two_ne_zero, zpow_one]
    rw [hhalf] at ha
    refine le_trans ?_ (le_abs_self _)
    generalize (2 : ℚ) ^ (-1022 : ℤ) = e at *
    linarith
  have hround := abs_le.1 (abs_nearest_sub_le_mul hbig)
  rw [abs_of_pos (by linarith : 0 < a / nearest r)] at hround
  exact abs_le.2 ⟨by linarith, by linarith⟩

/-! ## Comparing with doubles -/

variable {d : ℚ}

/-- Rounding keeps a number that is not too near to a double on its side. -/
theorem nearest_lt_iff (hd : nearest d = d) (h : q ≠ d → |nearest q - q| < |q - d|) :
    nearest q < d ↔ q < d := by
  constructor
  · intro hlt
    by_contra hle
    have hmono := nearest_mono (not_lt.1 hle)
    rw [hd] at hmono
    exact absurd hlt hmono.not_gt
  · intro hlt
    have herr := (abs_lt.1 (h hlt.ne)).2
    rw [abs_of_neg (sub_neg.2 hlt)] at herr
    linarith

theorem lt_nearest_iff (hd : nearest d = d) (h : q ≠ d → |nearest q - q| < |q - d|) :
    d < nearest q ↔ d < q := by
  constructor
  · intro hlt
    by_contra hle
    have hmono := nearest_mono (not_lt.1 hle)
    rw [hd] at hmono
    exact absurd hlt hmono.not_gt
  · intro hlt
    have herr := (abs_lt.1 (h hlt.ne')).1
    rw [abs_of_pos (sub_pos.2 hlt)] at herr
    linarith

/-- The difference of an integer and a double is exact, if it is not larger than the double. -/
theorem nearest_intCast_sub_nearest {z : ℤ} (hq : |q| < 2 ^ 53) (h : |z - nearest q| ≤ |nearest q|) :
    nearest (z - nearest q) = z - nearest q := by
  have hplace : lastPlace q ≤ 0 := by
    by_cases hzero : q = 0
    · rw [lastPlace, hzero, abs_zero, Int.log_of_right_le_zero _ le_rfl]
      decide
    · have hlt := (Int.zpow_log_le_self (b := 2) one_lt_two (abs_pos.2 hzero)).trans_lt hq
      have hlog : Int.log 2 |q| < 53 :=
        (zpow_lt_zpow_iff_right₀ (one_lt_two : (1 : ℚ) < 2)).1 (by exact_mod_cast hlt)
      exact max_le (by omega) (by omega)
  -- both are multiples of the last place of the double
  obtain ⟨k, hk⟩ := exists_zpow_eq_mul_ulp hplace
  rw [zpow_zero] at hk
  have hdiff : z - nearest q = ((z * k - roundHalfEven (q / ulp q) : ℤ) : ℚ) * ulp q := by
    rw [nearest, Int.cast_sub, Int.cast_mul, sub_mul, mul_assoc, ← hk, mul_one]
  have hdigits : |z * k - roundHalfEven (q / ulp q)| ≤ 2 ^ 53 := by
    have hle := h.trans_eq (show |nearest q| = |(roundHalfEven (q / ulp q) : ℚ)| * ulp q by
      rw [nearest, abs_mul, abs_of_pos (ulp_pos q)])
    rw [hdiff, abs_mul, abs_of_pos (ulp_pos q), mul_le_mul_iff_left₀ (ulp_pos q)] at hle
    have hle' : |z * k - roundHalfEven (q / ulp q)| ≤ |roundHalfEven (q / ulp q)| := by
      exact_mod_cast hle
    exact hle'.trans (abs_roundHalfEven_div_ulp_le q)
  rw [hdiff]
  exact nearest_of_le hdigits (le_max_right _ _)

end

/-! ## Values out of range -/

/-- A value of the format: a number, an infinity, or none of these. -/
inductive Double where
  | finite (q : ℚ)
  | infinite (negative : Bool)
  | nan
deriving DecidableEq

namespace Double

/-- The result of an operation: past the range it is infinite. -/
def ofResult (q : ℚ) : Double := if Converts q then finite (nearest q) else infinite (q < 0)

def neg : Double → Double
  | finite q => finite (-q)
  | infinite negative => infinite !negative
  | nan => nan

def add : Double → Double → Double
  | finite x, finite y => ofResult (x + y)
  | infinite x, infinite y => if x = y then infinite x else nan
  | infinite x, finite _ => infinite x
  | finite _, infinite y => infinite y
  | _, _ => nan

def sub (x y : Double) : Double := x.add y.neg

def mul : Double → Double → Double
  | finite x, finite y => ofResult (x * y)
  | infinite x, infinite y => infinite (x != y)
  | infinite x, finite y | finite y, infinite x => if y = 0 then nan else infinite (x != decide (y < 0))
  | _, _ => nan

/-- `x / y`, for a divisor that is not zero. -/
def div : Double → Double → Double
  | finite x, finite y => ofResult (x / y)
  | infinite x, finite y => infinite (x != decide (y < 0))
  | finite _, infinite _ => finite 0
  | _, _ => nan

/-- The remainder by a positive number, which is not negative. -/
def mod : Double → ℕ → Double
  | finite x, m =>
    let r := x - m * truncate (x / m)
    if r < 0 then ofResult (r + m) else finite r
  | _, _ => nan

/-- `x < y`, which is false next to `nan`. -/
def lt : Double → Double → Bool
  | finite x, finite y => x < y
  | infinite x, infinite y => x && !y
  | infinite x, finite _ => x
  | finite _, infinite y => !y
  | _, _ => false

/-- `x ≤ y`, which is false next to `nan`. -/
def le : Double → Double → Bool
  | nan, _ | _, nan => false
  | x, y => !y.lt x

end Double

/-! ## Results in range -/

theorem converts_of_le {q : ℚ} (h : |q| ≤ 2 ^ 1000) : Converts q := by
  have hle := abs_nearest_le (m := 1) (e := 1000) (by norm_num) (by norm_num) (q := q) (by
    rw [Int.cast_one, one_mul]
    exact_mod_cast h)
  rw [Int.cast_one, one_mul] at hle
  exact hle.trans_lt (by
    rw [show (1000 : ℤ) = ((1000 : ℕ) : ℤ) from rfl, zpow_natCast]
    exact pow_lt_pow_right₀ one_lt_two (by norm_num))

theorem converts_div_of_le {x y : ℤ} (hx : |x| ≤ 2 ^ 53) : Converts ((x : ℚ) / y) := by
  have hx' : |(x : ℚ)| ≤ 2 ^ 53 := by exact_mod_cast hx
  refine converts_of_le (le_trans ?_ (hx'.trans (pow_le_pow_right₀ one_le_two (by norm_num))))
  rcases eq_or_ne y 0 with rfl | hy
  · simp
  · have hone : (1 : ℚ) ≤ |(y : ℚ)| := by exact_mod_cast Int.one_le_abs hy
    rw [abs_div]
    exact div_le_self (abs_nonneg _) hone

namespace Double

@[simp] theorem finite_lt_finite {x y : ℚ} : (finite x).lt (finite y) = true ↔ x < y := decide_eq_true_iff

@[simp] theorem finite_le_finite {x y : ℚ} : (finite x).le (finite y) = true ↔ x ≤ y := by
  simp [le, lt]

theorem ofResult_of_converts {q : ℚ} (h : Converts q) : ofResult q = finite (nearest q) := if_pos h

theorem ofResult_of_le {q : ℚ} (h : |q| ≤ 2 ^ 1000) : ofResult q = finite (nearest q) :=
  ofResult_of_converts (converts_of_le h)

section
variable {x y : ℚ}

theorem add_of_le (h : |x + y| ≤ 2 ^ 1000) : (finite x).add (finite y) = finite (nearest (x + y)) :=
  ofResult_of_le h

theorem sub_of_le (h : |x - y| ≤ 2 ^ 1000) : (finite x).sub (finite y) = finite (nearest (x - y)) := by
  rw [sub_eq_add_neg] at h ⊢
  exact ofResult_of_le h

theorem mul_of_le (h : |x * y| ≤ 2 ^ 1000) : (finite x).mul (finite y) = finite (nearest (x * y)) :=
  ofResult_of_le h

theorem div_of_le (h : |x / y| ≤ 2 ^ 1000) : (finite x).div (finite y) = finite (nearest (x / y)) :=
  ofResult_of_le h

end

end Double

/-! ## Quotients of integers -/

section
variable {m n k : ℤ}

theorem abs_nearest_div_sub_le (hn : 0 < n) (hle : n ≤ 2 ^ 1022) :
    |nearest ((m : ℚ) / n) - m / n| ≤ |m| / 2 ^ 53 * (1 / n) := by
  rcases eq_or_ne m 0 with rfl | hm
  · simp
  have hn' : (0 : ℚ) < n := by exact_mod_cast hn
  have habs : |(m : ℚ) / n| = |(m : ℚ)| / n := by rw [abs_div, abs_of_pos hn']
  have hbig : (2 : ℚ) ^ (-1022 : ℤ) ≤ |(m : ℚ) / n| := by
    have hle' : (n : ℚ) ≤ (2 : ℚ) ^ (1022 : ℤ) := by
      have hcast := (Int.cast_le (R := ℚ)).2 hle
      rwa [Int.cast_pow, Int.cast_ofNat] at hcast
    have hone : (1 : ℚ) ≤ |(m : ℚ)| := by exact_mod_cast Int.one_le_abs hm
    rw [habs, zpow_neg, inv_eq_one_div]
    exact div_le_div₀ (abs_nonneg _) hone hn' hle'
  calc |nearest ((m : ℚ) / n) - m / n| ≤ |(m : ℚ) / n| / 2 ^ 53 := abs_nearest_sub_le_mul hbig
    _ = |(m : ℚ)| / 2 ^ 53 * (1 / n) := by
      rw [habs]
      ring
    _ = ((|m| : ℤ) : ℚ) / 2 ^ 53 * (1 / n) := by rw [Int.cast_abs]

/-- A quotient that is no half-integer is not too near to one. -/
theorem abs_nearest_div_sub_lt_half (hm : |m| < 2 ^ 52) (hn : 0 < n) (hle : n ≤ 2 ^ 1022)
    (hne : (m : ℚ) / n ≠ k / 2) : |nearest ((m : ℚ) / n) - m / n| < |(m : ℚ) / n - k / 2| := by
  have hn' : (0 : ℚ) < n := by exact_mod_cast hn
  have hgap : (m : ℚ) / n - k / 2 = ((2 * m - k * n : ℤ) : ℚ) * (1 / 2 * (1 / n)) := by
    push_cast
    field_simp
  have hne' : 2 * m - k * n ≠ 0 := by
    intro hzero
    rw [hzero, Int.cast_zero, zero_mul, sub_eq_zero] at hgap
    exact hne hgap
  have hone : (1 : ℚ) ≤ |((2 * m - k * n : ℤ) : ℚ)| := by exact_mod_cast Int.one_le_abs hne'
  have hm' : ((|m| : ℤ) : ℚ) < 2 ^ 52 := by exact_mod_cast hm
  have hinv : (0 : ℚ) < 1 / n := by positivity
  calc |nearest ((m : ℚ) / n) - m / n| ≤ ((|m| : ℤ) : ℚ) / 2 ^ 53 * (1 / n) := abs_nearest_div_sub_le hn hle
    _ < 1 / 2 * (1 / n) := by
      refine mul_lt_mul_of_pos_right ?_ hinv
      rw [div_lt_iff₀ (by positivity)]
      linarith
    _ ≤ |((2 * m - k * n : ℤ) : ℚ)| * (1 / 2 * (1 / n)) := le_mul_of_one_le_left (by positivity) hone
    _ = |(m : ℚ) / n - k / 2| := by rw [hgap, abs_mul, abs_of_pos (by positivity : (0 : ℚ) < 1 / 2 * (1 / n))]

theorem nearest_half (hk : |k| ≤ 2 ^ 53) : nearest ((k : ℚ) / 2) = k / 2 := by
  have hself := nearest_of_le hk (by norm_num : (-1074 : ℤ) ≤ -1)
  rwa [zpow_neg_one, ← div_eq_mul_inv] at hself

/-- **Comparisons with half-integers** do not notice the rounding. -/
theorem nearest_div_lt_half_iff (hm : |m| < 2 ^ 52) (hn : 0 < n) (hle : n ≤ 2 ^ 1022)
    (hk : |k| ≤ 2 ^ 53) : nearest ((m : ℚ) / n) < k / 2 ↔ (m : ℚ) / n < k / 2 :=
  nearest_lt_iff (nearest_half hk) (abs_nearest_div_sub_lt_half hm hn hle)

theorem half_lt_nearest_div_iff (hm : |m| < 2 ^ 52) (hn : 0 < n) (hle : n ≤ 2 ^ 1022)
    (hk : |k| ≤ 2 ^ 53) : k / 2 < nearest ((m : ℚ) / n) ↔ (k : ℚ) / 2 < m / n :=
  lt_nearest_iff (nearest_half hk) (abs_nearest_div_sub_lt_half hm hn hle)

theorem nearest_div_lt_intCast_iff (hm : |m| < 2 ^ 52) (hn : 0 < n) (hle : n ≤ 2 ^ 1022)
    (hk : |k| ≤ 2 ^ 52) : nearest ((m : ℚ) / n) < k ↔ (m : ℚ) / n < k := by
  have hhalf : (k : ℚ) = ((2 * k : ℤ) : ℚ) / 2 := by
    push_cast
    ring
  rw [hhalf]
  refine nearest_div_lt_half_iff hm hn hle ?_
  rw [abs_mul]
  norm_num
  omega

theorem intCast_lt_nearest_div_iff (hm : |m| < 2 ^ 52) (hn : 0 < n) (hle : n ≤ 2 ^ 1022)
    (hk : |k| ≤ 2 ^ 52) : k < nearest ((m : ℚ) / n) ↔ (k : ℚ) < m / n := by
  have hhalf : (k : ℚ) = ((2 * k : ℤ) : ℚ) / 2 := by
    push_cast
    ring
  rw [hhalf]
  refine half_lt_nearest_div_iff hm hn hle ?_
  rw [abs_mul]
  norm_num
  omega

theorem floor_div_bounds (hm : |m| < 2 ^ 52) (hn : 0 < n) :
    -2 ^ 52 ≤ ⌊(m : ℚ) / n⌋ ∧ ⌊(m : ℚ) / n⌋ < 2 ^ 52 := by
  have hle : |(m : ℚ) / n| ≤ |(m : ℚ)| := by
    have hn' : (1 : ℚ) ≤ n := by exact_mod_cast hn
    rw [abs_div, abs_of_pos (by linarith : (0 : ℚ) < n)]
    exact div_le_self (abs_nonneg _) hn'
  have hm' : |(m : ℚ)| < 2 ^ 52 := by exact_mod_cast hm
  obtain ⟨hlow, hhigh⟩ := abs_lt.1 (hle.trans_lt hm')
  exact ⟨Int.le_floor.2 (by push_cast; exact hlow.le), Int.floor_lt.2 (by push_cast; exact hhigh)⟩

theorem floor_nearest_intCast_div (hm : |m| < 2 ^ 52) (hn : 0 < n) (hle : n ≤ 2 ^ 1022) :
    ⌊nearest ((m : ℚ) / n)⌋ = ⌊(m : ℚ) / n⌋ := by
  obtain ⟨hlow, hhigh⟩ := floor_div_bounds hm hn
  rw [Int.floor_eq_iff]
  constructor
  · rw [← not_lt, nearest_div_lt_intCast_iff hm hn hle (abs_le.2 ⟨hlow, by omega⟩), not_lt]
    exact Int.floor_le _
  · have hlt := Int.lt_floor_add_one ((m : ℚ) / n)
    rw [← Int.cast_one, ← Int.cast_add] at hlt ⊢
    exact (nearest_div_lt_intCast_iff hm hn hle (abs_le.2 ⟨by omega, by omega⟩)).2 hlt

/-- **Rounding to an integer** does not notice that a quotient was rounded to a double. -/
theorem roundHalfEven_nearest_div (hm : |m| < 2 ^ 52) (hn : 0 < n) (hle : n ≤ 2 ^ 1022) :
    roundHalfEven (nearest ((m : ℚ) / n)) = roundHalfEven ((m : ℚ) / n) := by
  obtain ⟨hlow, hhigh⟩ := floor_div_bounds hm hn
  have hfloor := floor_nearest_intCast_div hm hn hle
  have hk : |2 * ⌊(m : ℚ) / n⌋ + 1| ≤ 2 ^ 53 := abs_le.2 ⟨by omega, by omega⟩
  have hhalf : (⌊(m : ℚ) / n⌋ : ℚ) + 1 / 2 = ((2 * ⌊(m : ℚ) / n⌋ + 1 : ℤ) : ℚ) / 2 := by
    push_cast
    ring
  have hlt : Int.fract (nearest ((m : ℚ) / n)) < 1 / 2 ↔ Int.fract ((m : ℚ) / n) < 1 / 2 := by
    rw [Int.fract, Int.fract, hfloor, sub_lt_iff_lt_add', sub_lt_iff_lt_add', hhalf]
    exact nearest_div_lt_half_iff hm hn hle hk
  have hgt : 1 / 2 < Int.fract (nearest ((m : ℚ) / n)) ↔ 1 / 2 < Int.fract ((m : ℚ) / n) := by
    rw [Int.fract, Int.fract, hfloor, lt_sub_iff_add_lt', lt_sub_iff_add_lt', hhalf]
    exact half_lt_nearest_div_iff hm hn hle hk
  unfold roundHalfEven
  simp only [hlt, hgt, hfloor]

end

section
variable {m n : ℕ}

theorem abs_nearest_div_sub_lt (hm : m < 2 ^ 53) (hn : 0 < n) (hle : n ≤ 2 ^ 1022) :
    |nearest ((m : ℚ) / n) - m / n| < 1 / n := by
  have hn' : (0 : ℚ) < n := by exact_mod_cast hn
  have herr := abs_nearest_div_sub_le (m := m) (n := n) (by exact_mod_cast hn) (by exact_mod_cast hle)
  rw [Nat.abs_cast, Int.cast_natCast, Int.cast_natCast] at herr
  refine herr.trans_lt (mul_lt_of_lt_one_left (by positivity) ?_)
  rw [div_lt_one (by positivity)]
  exact_mod_cast hm

/-- **Floors.** -/
theorem floor_nearest_div (hm : m < 2 ^ 53) (hn : 0 < n) (hle : n ≤ 2 ^ 1022) :
    ⌊nearest ((m : ℚ) / n)⌋ = ((m / n : ℕ) : ℤ) := by
  rcases Nat.eq_zero_or_pos m with rfl | hpos
  · simp
  have hn' : (0 : ℚ) < n := by exact_mod_cast hn
  have hdiv := Nat.div_add_mod m n
  have hmod := Nat.mod_lt m hn
  rw [Int.floor_eq_iff, Int.cast_natCast]
  constructor
  · have hbelow : ((m / n : ℕ) : ℚ) ≤ (m : ℚ) / n := by
      rw [le_div_iff₀ hn']
      exact_mod_cast Nat.div_mul_le_self m n
    have hsmall : m / n ≤ 2 ^ 53 := (Nat.div_le_self m n).trans hm.le
    simpa [nearest_natCast hsmall] using nearest_mono hbelow
  · have herr := (abs_lt.1 (abs_nearest_div_sub_lt hm hn hle)).2
    have habove : (m : ℚ) / n + 1 / n ≤ ((m / n : ℕ) : ℚ) + 1 := by
      rw [← add_div, div_le_iff₀ hn']
      have hnat : m + 1 ≤ (m / n + 1) * n := by
        rw [add_mul, one_mul, mul_comm]
        omega
      exact_mod_cast hnat
    linarith

/-- **Ceilings.** -/
theorem ceil_nearest_div (hm : m < 2 ^ 53) (hn : 0 < n) (hle : n ≤ 2 ^ 1022) :
    ⌈nearest ((m : ℚ) / n)⌉ = ((m ⌈/⌉ n : ℕ) : ℤ) := by
  rcases Nat.eq_zero_or_pos m with rfl | hpos
  · simp
  have hn' : (0 : ℚ) < n := by exact_mod_cast hn
  have hroom : m ≤ n * (m ⌈/⌉ n) := (ceilDiv_le_iff_le_mul hn).1 le_rfl
  have hlast : n * (m ⌈/⌉ n) < m + n := by
    rw [Nat.ceilDiv_eq_add_pred_div]
    have := Nat.mul_div_le (m + n - 1) n
    omega
  rw [Int.ceil_eq_iff, Int.cast_natCast]
  constructor
  · have herr := (abs_lt.1 (abs_nearest_div_sub_lt hm hn hle)).1
    have hbelow : ((m ⌈/⌉ n : ℕ) : ℚ) - 1 ≤ (m : ℚ) / n - 1 / n := by
      rw [← sub_div, le_div_iff₀ hn']
      have hnat : n * (m ⌈/⌉ n) + 1 ≤ m + n := hlast
      have hcast : (n : ℚ) * ((m ⌈/⌉ n : ℕ) : ℚ) + 1 ≤ m + n := by exact_mod_cast hnat
      linarith
    linarith
  · have hsmall : m ⌈/⌉ n ≤ 2 ^ 53 := by
      refine le_trans ((ceilDiv_le_iff_le_mul hn).2 ?_) hm.le
      exact Nat.le_mul_of_pos_left m hn
    have habove : (m : ℚ) / n ≤ ((m ⌈/⌉ n : ℕ) : ℚ) := by
      rw [div_le_iff₀ hn', mul_comm]
      exact_mod_cast hroom
    simpa [nearest_natCast hsmall] using nearest_mono habove

end

end Binary64
