/-
  Rounding to integers.

  `round` is the rounding that sends a half up.  Scripting languages round a
  half to the even integer, and convert to an integer by dropping the
  fractional part.

  * `roundHalfEven`: the nearest integer, halves to even; it is monotone and
    differs from `round` exactly on the halves above an even integer
    (`roundHalfEven_eq_round_iff`);
  * `roundHalfEven_le_iff`: when it does not exceed its argument, and for a
    quotient of integers (`mul_roundHalfEven_div_le_iff`) by its remainder;
  * `truncate`: the integer part of a number, toward zero; of a quotient of
    integers it is the division toward zero (`truncate_div`).
-/
import Mathlib.Algebra.Order.Round
import Mathlib.Algebra.Group.Int.Even
import Mathlib.Data.Rat.Floor
import Mathlib.Tactic.Linarith

namespace Rounding

variable {α : Type*} [Field α] [LinearOrder α] [FloorRing α]

/-! ## Toward zero -/

/-- The integer part, toward zero. -/
def truncate (x : α) : ℤ := if 0 ≤ x then ⌊x⌋ else ⌈x⌉

theorem truncate_of_nonneg {x : α} (h : 0 ≤ x) : truncate x = ⌊x⌋ := if_pos h

/-- A quotient of integers is divided toward zero. -/
theorem truncate_div (x : ℤ) {c : ℤ} (hc : 0 < c) : truncate ((x : ℚ) / c) = x.tdiv c := by
  lift c to ℕ using hc.le
  have hc' : (0 : ℚ) < ((c : ℤ) : ℚ) := by exact_mod_cast hc
  rcases le_or_gt 0 x with hx | hx
  · have hx' : (0 : ℚ) ≤ x := by exact_mod_cast hx
    rw [truncate_of_nonneg (div_nonneg hx' hc'.le), Int.tdiv_eq_ediv_of_nonneg hx, Int.cast_natCast,
      Rat.floor_intCast_div_natCast]
  · have hx' : (x : ℚ) < 0 := by exact_mod_cast hx
    rw [truncate, if_neg (not_le.2 (div_neg_of_neg_of_pos hx' hc')), Int.cast_natCast,
      Rat.ceil_intCast_div_natCast]
    have hneg : x.tdiv c = -(-x).tdiv c := by rw [Int.neg_tdiv, neg_neg]
    rw [hneg, Int.tdiv_eq_ediv_of_nonneg (by omega)]

/-! ## Halves to even -/

/-- The nearest integer; of two nearest ones, the even one. -/
def roundHalfEven (x : α) : ℤ :=
  if Int.fract x < 1 / 2 then ⌊x⌋
  else if 1 / 2 < Int.fract x then ⌊x⌋ + 1
  else if Even ⌊x⌋ then ⌊x⌋ else ⌊x⌋ + 1

/-- `x` lies halfway above an even integer. -/
def HalfAboveEven (x : α) : Prop := Int.fract x = 1 / 2 ∧ Even ⌊x⌋

instance (x : α) : Decidable (HalfAboveEven x) := inferInstanceAs (Decidable (_ ∧ _))

theorem roundHalfEven_of_half {x : α} (h : HalfAboveEven x) : roundHalfEven x = ⌊x⌋ := by
  rw [roundHalfEven, if_neg h.1.not_lt, if_neg h.1.not_gt, if_pos h.2]

theorem floor_le_roundHalfEven (x : α) : ⌊x⌋ ≤ roundHalfEven x := by
  unfold roundHalfEven
  split_ifs <;> omega

theorem roundHalfEven_eq_or (x : α) : roundHalfEven x = ⌊x⌋ ∨ roundHalfEven x = ⌊x⌋ + 1 := by
  unfold roundHalfEven
  split_ifs
  · exact .inl rfl
  · exact .inr rfl
  · exact .inl rfl
  · exact .inr rfl

theorem roundHalfEven_eq_floor {x : α} (h : (roundHalfEven x : α) ≤ x) : roundHalfEven x = ⌊x⌋ :=
  le_antisymm (Int.le_floor.2 h) (floor_le_roundHalfEven x)

variable [IsStrictOrderedRing α]

/-! ## Halves up -/

theorem round_of_fract_lt {x : α} (h : Int.fract x < 1 / 2) : round x = ⌊x⌋ := by
  rw [round_eq, Int.floor_eq_iff]
  have h₁ := Int.floor_add_fract x
  constructor <;> linarith [Int.fract_nonneg x]

theorem round_of_le_fract {x : α} (h : 1 / 2 ≤ Int.fract x) : round x = ⌊x⌋ + 1 := by
  rw [round_eq, Int.floor_eq_iff]
  have h₁ := Int.floor_add_fract x
  push_cast
  constructor <;> linarith [Int.fract_lt_one x]

theorem abs_truncate_le (x : α) : |(truncate x : α)| ≤ |x| := by
  rcases le_or_gt 0 x with hx | hx
  · have hfloor : (0 : α) ≤ ((⌊x⌋ : ℤ) : α) := by exact_mod_cast Int.floor_nonneg.2 hx
    rw [truncate_of_nonneg hx, abs_of_nonneg hfloor, abs_of_nonneg hx]
    exact Int.floor_le x
  · have hceil : ((⌈x⌉ : ℤ) : α) ≤ 0 := by exact_mod_cast Int.ceil_nonpos.2 hx.le
    rw [truncate, if_neg (not_le.2 hx), abs_of_nonpos hceil, abs_of_neg hx]
    exact neg_le_neg (Int.le_ceil x)

/-! ## Comparing the two -/

theorem roundHalfEven_eq_round {x : α} (h : ¬ HalfAboveEven x) : roundHalfEven x = round x := by
  unfold roundHalfEven
  rcases lt_trichotomy (Int.fract x) (1 / 2) with hx | hx | hx
  · rw [if_pos hx, round_of_fract_lt hx]
  · rw [if_neg hx.not_lt, if_neg hx.not_gt, if_neg fun he => h ⟨hx, he⟩, round_of_le_fract hx.ge]
  · rw [if_neg hx.not_gt, if_pos hx, round_of_le_fract hx.le]

/-- **Halves.** Rounding halves to even and rounding them up differ exactly on
    the halves above an even integer. -/
theorem roundHalfEven_eq_round_iff {x : α} : roundHalfEven x = round x ↔ ¬ HalfAboveEven x := by
  refine ⟨fun h hx => ?_, roundHalfEven_eq_round⟩
  rw [roundHalfEven_of_half hx, round_of_le_fract hx.1.ge] at h
  omega

@[simp] theorem roundHalfEven_intCast (z : ℤ) : roundHalfEven (z : α) = z := by
  rw [roundHalfEven, Int.fract_intCast, if_pos (by norm_num), Int.floor_intCast]

/-- Numbers in one unit cell: the larger fractional part rounds no lower. -/
theorem roundHalfEven_le_of_floor_eq {x y : α} (hf : ⌊x⌋ = ⌊y⌋) (h : x ≤ y) :
    roundHalfEven x ≤ roundHalfEven y := by
  have hfr : Int.fract x ≤ Int.fract y := by
    have hx := Int.floor_add_fract x
    have hy := Int.floor_add_fract y
    rw [hf] at hx
    linarith
  unfold roundHalfEven
  rw [hf]
  split_ifs <;> first | omega | (exfalso; linarith)

theorem roundHalfEven_mono {x y : α} (h : x ≤ y) : roundHalfEven x ≤ roundHalfEven y := by
  rcases (Int.floor_le_floor h).eq_or_lt with hf | hf
  · exact roundHalfEven_le_of_floor_eq hf h
  · have hx : roundHalfEven x ≤ ⌊x⌋ + 1 := by rcases roundHalfEven_eq_or x with h | h <;> omega
    exact hx.trans ((Int.add_one_le_iff.2 hf).trans (floor_le_roundHalfEven y))

theorem round_mono {x y : α} (h : x ≤ y) : round x ≤ round y := by
  rw [round_eq, round_eq]
  exact Int.floor_le_floor (by linarith)

theorem roundHalfEven_neg (x : α) : roundHalfEven (-x) = -roundHalfEven x := by
  by_cases hx : Int.fract x = 0
  · obtain ⟨z, rfl⟩ := Int.fract_eq_zero_iff.1 hx
    rw [← Int.cast_neg, roundHalfEven_intCast, roundHalfEven_intCast]
  · have hfract : Int.fract (-x) = 1 - Int.fract x := Int.fract_neg hx
    have hfloor : ⌊-x⌋ = -⌊x⌋ - 1 := by
      have hsum : ((⌊-x⌋ : ℤ) : α) = ((-⌊x⌋ - 1 : ℤ) : α) := by
        have h₁ := Int.floor_add_fract x
        have h₂ := Int.floor_add_fract (-x)
        push_cast
        linarith
      exact_mod_cast hsum
    have hparity : Even (-⌊x⌋ - 1) ↔ ¬ Even ⌊x⌋ := by
      rw [Int.even_sub_one, even_neg]
    unfold roundHalfEven
    rw [hfract, hfloor]
    rcases lt_trichotomy (Int.fract x) (1 / 2) with hlt | heq | hgt
    · rw [if_neg (by linarith), if_pos (by linarith), if_pos hlt]
      omega
    · rw [if_neg (by linarith), if_neg (by linarith), if_neg heq.not_lt, if_neg heq.not_gt]
      split_ifs <;> first | omega | (exfalso; tauto)
    · rw [if_pos (by linarith), if_neg hgt.not_gt, if_pos hgt]
      omega

/-- The nearest integer is at most a half away. -/
theorem abs_roundHalfEven_sub_le (x : α) : |(roundHalfEven x : α) - x| ≤ 1 / 2 := by
  have hx := Int.floor_add_fract x
  have hlow := Int.fract_nonneg x
  have hhigh := Int.fract_lt_one x
  unfold roundHalfEven
  split_ifs with h₁ h₂ h₃
  · rw [abs_le]
    constructor <;> linarith
  · rw [abs_le]
    push_cast
    constructor <;> linarith
  · rw [abs_le]
    constructor <;> linarith
  · rw [abs_le]
    push_cast
    constructor <;> linarith

theorem roundHalfEven_eq_of_abs_sub_lt {x : α} {z : ℤ} (h : |x - z| < 1 / 2) : roundHalfEven x = z := by
  have hclose : |((roundHalfEven x - z : ℤ) : α)| < 1 := by
    have hsplit : ((roundHalfEven x - z : ℤ) : α) = (roundHalfEven x - x) + (x - z) := by
      push_cast
      ring
    rw [hsplit]
    linarith [abs_add_le ((roundHalfEven x : α) - x) (x - z), abs_roundHalfEven_sub_le x]
  have hlt : |roundHalfEven x - z| < 1 := by exact_mod_cast hclose
  exact sub_eq_zero.1 (Int.abs_lt_one_iff.1 hlt)

theorem one_le_roundHalfEven {x : α} (h : 1 / 2 < x) : 1 ≤ roundHalfEven x := by
  rcases lt_or_ge x 1 with hx | hx
  · have hfloor : ⌊x⌋ = 0 := Int.floor_eq_zero_iff.2 ⟨by linarith, hx⟩
    have hfract : Int.fract x = x := by rw [Int.fract, hfloor, Int.cast_zero, sub_zero]
    rw [roundHalfEven, if_neg (by rw [hfract]; linarith), if_pos (by rw [hfract]; exact h), hfloor]
    omega
  · exact (Int.le_floor.2 (by simpa using hx)).trans (floor_le_roundHalfEven x)

theorem roundHalfEven_nonneg_iff {x : α} : 0 ≤ roundHalfEven x ↔ -1 / 2 ≤ x := by
  have hx := Int.floor_add_fract x
  have hlt := Int.fract_lt_one x
  have hnonneg := Int.fract_nonneg x
  rcases lt_trichotomy ⌊x⌋ (-1) with hf | hf | hf
  · have hcast : (⌊x⌋ : α) ≤ -2 := by exact_mod_cast (by omega : ⌊x⌋ ≤ -2)
    refine iff_of_false ?_ (by linarith)
    rcases roundHalfEven_eq_or x with h | h <;> omega
  · have hcast : (⌊x⌋ : α) = -1 := by exact_mod_cast hf
    -- above an odd integer a half is rounded up, to zero
    have hodd : ¬ HalfAboveEven x := by
      intro h
      rw [HalfAboveEven, hf] at h
      exact absurd h.2 (by decide)
    rw [roundHalfEven_eq_round hodd]
    rcases lt_or_ge (Int.fract x) (1 / 2) with hm | hm
    · rw [round_of_fract_lt hm]
      exact iff_of_false (by omega) (by linarith)
    · rw [round_of_le_fract hm]
      exact iff_of_true (by omega) (by linarith)
  · have hcast : (0 : α) ≤ ⌊x⌋ := by exact_mod_cast (by omega : 0 ≤ ⌊x⌋)
    refine iff_of_true ?_ (by linarith)
    have := floor_le_roundHalfEven x
    omega

/-- Rounding to nearest stays below its argument when it rounds down. -/
theorem roundHalfEven_le_iff {x : α} :
    (roundHalfEven x : α) ≤ x ↔ Int.fract x < 1 / 2 ∨ HalfAboveEven x := by
  have hx := Int.floor_add_fract x
  constructor
  · intro h
    by_contra hn
    rw [not_or, not_lt] at hn
    rw [roundHalfEven_eq_round hn.2, round_of_le_fract hn.1] at h
    push_cast at h
    linarith [Int.fract_lt_one x]
  · rintro (h | h)
    · rw [roundHalfEven, if_pos h]
      exact Int.floor_le x
    · rw [roundHalfEven_of_half h]
      exact Int.floor_le x

/-! ## Quotients of integers -/

theorem floor_intCast_div {n : ℤ} (hn : 0 < n) (m : ℤ) : ⌊(m : ℚ) / n⌋ = m / n := by
  lift n to ℕ using hn.le
  exact_mod_cast Rat.floor_intCast_div_natCast m n

theorem fract_intCast_div {n : ℤ} (hn : 0 < n) (m : ℤ) : Int.fract ((m : ℚ) / n) = (m % n : ℤ) / n := by
  lift n to ℕ using hn.le
  exact_mod_cast Int.fract_div_intCast_eq_div_intCast_mod (k := ℚ) (m := m) (n := n)

/-- An integer divided in `n` parts, each rounded to nearest, is not exceeded by
    the parts exactly when they are rounded down. -/
theorem mul_roundHalfEven_div_le_iff {n : ℤ} (hn : 0 < n) (m : ℤ) :
    n * roundHalfEven ((m : ℚ) / n) ≤ m ↔
      2 * (m % n) < n ∨ (2 * (m % n) = n ∧ Even (m / n)) := by
  have hn' : (0 : ℚ) < n := by exact_mod_cast hn
  have hcast : n * roundHalfEven ((m : ℚ) / n) ≤ m ↔ (roundHalfEven ((m : ℚ) / n) : ℚ) ≤ m / n := by
    rw [le_div_iff₀ hn', mul_comm]
    exact_mod_cast Iff.rfl
  rw [hcast, roundHalfEven_le_iff, HalfAboveEven, fract_intCast_div hn, floor_intCast_div hn,
    div_lt_div_iff₀ hn' two_pos, div_eq_div_iff hn'.ne' two_ne_zero]
  norm_cast
  rw [one_mul, mul_comm (m % n) 2]

end Rounding
