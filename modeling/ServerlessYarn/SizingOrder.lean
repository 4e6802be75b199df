/-
  ServerlessYARN model — minima and maxima of the sized containers
  (`ui/views/apps/utils.py`: `getContainerResourcesForApp`).

  The two limits of a resource are adjusted independently: each moves to the
  irregular container what rounding takes from, or gives to, the regular ones.

  * `SmallLimit.regularLimit_mono`: the regular containers keep `min <= max`;
  * `limits_ordered_iff`: the irregular one does when what is left of the maximum is
    not below what is left of the minimum.
-/
import Mathlib.Data.Int.ConditionallyCompleteOrder
import ServerlessYarn.SizingLimits

namespace ServerlessYarn

open Binary64 Rounding

/-! ## The parts of a limit -/

section
variable {n total : ℤ}

/-- An equal part is less than 50 shares above a regular share. -/
theorem equal_part_lt (n total : ℤ) : (total : ℚ) / n < regularShare n total + 50 := by
  rcases lt_or_ge (modHundred ((total : ℚ) / n)) 50 with h | h
  · rw [regularShare_of_lt h]
    linarith
  · rw [regularShare_of_le h]
    linarith [(modHundred_mem ((total : ℚ) / n)).2]

/-- A limit of one unit per container gives the regular ones more than a half. -/
theorem half_lt_regularPart {is_hadoop_app : Bool} (hn : 1 ≤ n)
    (h : SplitsUnevenly n total is_hadoop_app) {limit : ℤ} (hl : n ≤ limit) :
    1 / 2 < regularPart n total limit := by
  have ht : (0 : ℚ) < total := by exact_mod_cast total_pos hn h
  have hn' : (0 : ℚ) < n := by exact_mod_cast hn
  have hr : (100 : ℚ) ≤ regularShare n total := by exact_mod_cast regularShare_pos hn h
  have hl' : (n : ℚ) ≤ limit := by exact_mod_cast hl
  have hpart := (div_lt_iff₀ hn').1 (equal_part_lt n total)
  rw [regularPart, lt_div_iff₀ ht]
  nlinarith

/-- The limit of a regular container. -/
def regularLimit (n total limit : ℤ) : ℚ :=
  if AdjustsInDoubles n total limit then roundHalfEven (regularQuotient n total limit)
  else regularQuotient n total limit

/-- What is left of a limit to the irregular container. -/
def irregularLimit (n total limit : ℤ) : ℚ :=
  if AdjustsInDoubles n total limit then limit - (n - 1) * round (regularQuotient n total limit)
  else irregularQuotient n total limit

theorem splitLimit_compared (n total limit : ℤ) :
    (splitLimit n total limit).regular.compared = .finite (regularLimit n total limit) ∧
      (splitLimit n total limit).irregular.compared = .finite (irregularLimit n total limit) := by
  rw [splitLimit, regularLimit, irregularLimit]
  split
  · refine ⟨rfl, congrArg Double.finite ?_⟩
    push_cast
    rfl
  · exact ⟨rfl, rfl⟩

namespace SmallLimit
variable {limit x y : ℤ}

theorem quotient_mono {share : ℚ} (hs : 0 ≤ share) (hx : SmallLimit n total x) (hy : SmallLimit n total y)
    (hxy : x ≤ y) : nearest (share / nearest (total / x)) ≤ nearest (share / nearest (total / y)) := by
  have hxy' : (x : ℚ) ≤ y := by exact_mod_cast hxy
  have hratio := nearest_mono (div_le_div_of_nonneg_left hx.cast_total_pos.le hx.cast_limit_pos hxy')
  have hpos := (zpow_pos two_pos _).trans_le hy.ratio_ge
  exact nearest_mono (div_le_div_of_nonneg_left hs hpos hratio)

theorem regularQuotient_mono (hx : SmallLimit n total x) (hy : SmallLimit n total y) (hxy : x ≤ y) :
    regularQuotient n total x ≤ regularQuotient n total y :=
  quotient_mono (by linarith [hx.one_le_regularShare]) hx hy hxy

theorem irregularQuotient_mono (hx : SmallLimit n total x) (hy : SmallLimit n total y) (hxy : x ≤ y) :
    irregularQuotient n total x ≤ irregularQuotient n total y :=
  quotient_mono (by linarith [hx.one_le_roundedRest]) hx hy hxy

/-- A limit that is larger by one has a larger part, despite the errors. -/
theorem regularQuotient_lt (hx : SmallLimit n total x) (hy : SmallLimit n total y) (hxy : x < y) :
    regularQuotient n total x < regularQuotient n total y := by
  have hnext : SmallLimit n total (x + 1) :=
    ⟨hx.toSmallSplit, hx.splits, by have := hx.limit_pos; omega, by have := hy.limit_le; omega⟩
  refine lt_of_lt_of_le ?_ (hnext.regularQuotient_mono hy hxy)
  have hunit : 0 < (regularShare n total : ℚ) / total :=
    div_pos (by linarith [hx.one_le_regularShare]) hx.cast_total_pos
  have hpart : regularPart n total x = x * (regularShare n total / total) := by
    rw [regularPart]
    ring
  have hpart' : regularPart n total (x + 1) =
      x * (regularShare n total / total) + regularShare n total / total := by
    rw [regularPart]
    push_cast
    ring
  have hbound := mul_le_mul_of_nonneg_right hx.cast_limit_le hunit.le
  have herr := (abs_le.1 hx.abs_regularQuotient_sub_le).2
  have herr' := (abs_le.1 hnext.abs_regularQuotient_sub_le).1
  rw [hpart] at herr
  rw [hpart'] at herr'
  linarith

theorem half_lt_regularQuotient (h : SmallLimit n total limit) (hl : n ≤ limit) :
    1 / 2 < regularQuotient n total limit := by
  have ht := h.cast_total_pos
  have hhalf := half_lt_regularPart h.one_le h.exact hl
  -- above a half by at least half a unit in `total`
  have hgap : 1 / 2 + 1 / 2 ^ 41 ≤ regularPart n total limit := by
    rw [regularPart, lt_div_iff₀ ht] at hhalf
    have hint : total < 2 * (regularShare n total * limit) := by
      have hlt : (total : ℚ) < 2 * (regularShare n total * limit) := by linarith
      exact_mod_cast hlt
    have hint' : (total : ℚ) + 1 ≤ 2 * (regularShare n total * limit) := by
      exact_mod_cast Int.add_one_le_iff.2 hint
    rw [regularPart, le_div_iff₀ ht]
    linarith [h.total_le]
  have herr := (abs_le.1 h.abs_regularQuotient_sub_le).1
  linarith

/-- An adjusted limit leaves something to the irregular container. -/
theorem leftover_pos (h : SmallLimit n total limit) (hadj : AdjustsInDoubles n total limit) :
    1 ≤ limit - (n - 1) * round (regularQuotient n total limit) := by
  rcases lt_or_ge (Int.fract (regularQuotient n total limit)) (1 / 2) with hf | hf
  · have hfl := Int.floor_le (regularQuotient n total limit)
    have herr := (abs_le.1 h.abs_regularQuotient_sub_le).2
    have hle := mul_le_mul_of_nonneg_left (hfl.trans (sub_le_iff_le_add.1 herr)) h.others_nonneg
    have hirregular : (10 : ℚ) * limit / 2 ^ 40 ≤ irregularPart n total limit := by
      have hi : (10 : ℚ) ≤ irregularShare n total := by
        exact_mod_cast irregularShare_pos h.one_le h.exact
      exact div_le_div₀ (mul_nonneg (by linarith) h.cast_limit_pos.le)
        (mul_le_mul_of_nonneg_right hi h.cast_limit_pos.le) h.cast_total_pos h.total_le
    have hlt : ((n : ℚ) - 1) * ⌊regularQuotient n total limit⌋ < limit := by
      have hlim := h.cast_limit_pos
      have hmul := h.mul_regularPart_le.2
      have hadd := h.parts_add
      have hprod : ((n : ℚ) - 1) * (regularPart n total limit / 2 ^ 51) =
          (n - 1) * regularPart n total limit / 2 ^ 51 := by ring
      rw [mul_add, hprod] at hle
      linarith
    have hlt' : (n - 1) * ⌊regularQuotient n total limit⌋ < limit := by exact_mod_cast hlt
    rw [round_of_fract_lt hf]
    omega
  · have hleft := hadj.2 hf
    have herr := abs_lt.1 (h.abs_leftBehind_sub_lt hf)
    have hpos : ((0 : ℤ) : ℚ) < (limit - (n - 1) * round (regularQuotient n total limit) : ℤ) := by
      rw [Int.cast_zero]
      linarith
    have := Int.cast_lt.1 hpos
    omega

/-- Adjusted limits of the regular containers are at least 1. -/
theorem one_le_roundHalfEven (h : SmallLimit n total limit) (hadj : AdjustsInDoubles n total limit) :
    1 ≤ roundHalfEven (regularQuotient n total limit) := by
  rcases lt_or_ge (Int.fract (regularQuotient n total limit)) (1 / 2) with hf | hf
  · have hone : (1 : ℤ) ≤ ⌊regularQuotient n total limit⌋ := Int.le_floor.2 (by exact_mod_cast hadj.1 hf)
    exact hone.trans (floor_le_roundHalfEven _)
  · refine Rounding.one_le_roundHalfEven (h.half_lt_regularQuotient ?_)
    have hround : 1 ≤ round (regularQuotient n total limit) := by
      rw [round_of_le_fract hf]
      have := Int.floor_nonneg.2 h.regularQuotient_pos.le
      omega
    have hleft := h.leftover_pos hadj
    have hmul : n - 1 ≤ (n - 1) * round (regularQuotient n total limit) :=
      le_mul_of_one_le_right (by have := h.one_le; omega) hround
    omega

/-- Why a limit is not adjusted: the regular part is below a half, or rounding it up
    would leave less than 1 to the irregular container. -/
theorem not_adjusts_cases (h : SmallLimit n total limit) (hadj : ¬ AdjustsInDoubles n total limit) :
    regularQuotient n total limit < 1 / 2 ∨
      (1 / 2 ≤ Int.fract (regularQuotient n total limit) ∧ leftBehind n total limit < 1) := by
  rcases lt_or_ge (Int.fract (regularQuotient n total limit)) (1 / 2) with hf | hf
  · left
    have hlt : regularQuotient n total limit < 1 := by
      by_contra hge
      exact hadj ⟨fun _ => not_lt.1 hge, fun hge' => absurd hf hge'.not_gt⟩
    have hfloor : ⌊regularQuotient n total limit⌋ = 0 :=
      Int.floor_eq_zero_iff.2 ⟨h.regularQuotient_pos.le, hlt⟩
    rw [Int.fract, hfloor, Int.cast_zero, sub_zero] at hf
    exact hf
  · refine .inr ⟨hf, ?_⟩
    by_contra hge
    exact hadj ⟨fun hlt => absurd hlt hf.not_gt, fun _ => not_lt.1 hge⟩

/-- What is left behind grows with the limit, between two integers. -/
theorem leftBehind_mono (hx : SmallLimit n total x) (hy : SmallLimit n total y) (hxy : x ≤ y)
    (hfloor : ⌊regularQuotient n total x⌋ = ⌊regularQuotient n total y⌋) :
    leftBehind n total x ≤ leftBehind n total y := by
  have hfract : Int.fract (regularQuotient n total x) ≤ Int.fract (regularQuotient n total y) := by
    rw [Int.fract, Int.fract, hfloor]
    linarith [hx.regularQuotient_mono hy hxy]
  refine nearest_mono (sub_le_sub (hx.irregularQuotient_mono hy hxy) (nearest_mono ?_))
  exact mul_le_mul_of_nonneg_right (nearest_mono (by linarith)) hx.others_nonneg

/-- Only the minimum is rounded. -/
theorem roundHalfEven_le_regularQuotient (hx : SmallLimit n total x) (hy : SmallLimit n total y)
    (hxy : x ≤ y) (hax : AdjustsInDoubles n total x) (hay : ¬ AdjustsInDoubles n total y) :
    (roundHalfEven (regularQuotient n total x) : ℚ) ≤ regularQuotient n total y := by
  have hmono := hx.regularQuotient_mono hy hxy
  rcases hy.not_adjusts_cases hay with hlow | ⟨-, hleft⟩
  · have hone := hx.one_le_roundHalfEven hax
    have := roundHalfEven_mono hmono
    have hzero : roundHalfEven (regularQuotient n total y) = 0 :=
      roundHalfEven_eq_of_abs_sub_lt (abs_lt.2 (by
        push_cast
        exact ⟨by linarith [hy.regularQuotient_pos], by linarith⟩))
    omega
  · rcases (Int.floor_le_floor hmono).eq_or_lt with heq | hlt
    · have hf : Int.fract (regularQuotient n total x) < 1 / 2 := by
        by_contra hge
        exact (hax.2 (not_lt.1 hge)).not_gt ((hx.leftBehind_mono hy hxy heq).trans_lt hleft)
      rw [roundHalfEven, if_pos hf]
      exact (Int.floor_le _).trans hmono
    · have hle : roundHalfEven (regularQuotient n total x) ≤ ⌊regularQuotient n total y⌋ := by
        rcases roundHalfEven_eq_or (regularQuotient n total x) with h | h <;> omega
      exact (Int.cast_le.2 hle).trans (Int.floor_le _)

/-- Only the maximum is rounded. -/
theorem regularQuotient_le_roundHalfEven (hx : SmallLimit n total x) (hy : SmallLimit n total y)
    (hxy : x ≤ y) (hax : ¬ AdjustsInDoubles n total x) (hay : AdjustsInDoubles n total y) :
    regularQuotient n total x ≤ roundHalfEven (regularQuotient n total y) := by
  rcases hx.not_adjusts_cases hax with hlow | ⟨hf, -⟩
  · have hone : (1 : ℚ) ≤ roundHalfEven (regularQuotient n total y) := by
      exact_mod_cast hy.one_le_roundHalfEven hay
    linarith
  · refine (Int.lt_floor_add_one _).le.trans ?_
    rcases (Int.floor_le_floor (hx.regularQuotient_mono hy hxy)).eq_or_lt with heq | hlt
    · -- the maximum is a larger limit, and its part is above a half
      have hstrict := hx.regularQuotient_lt hy (hxy.lt_of_ne (by rintro rfl; exact hax hay))
      have hfract : 1 / 2 < Int.fract (regularQuotient n total y) := by
        rw [Int.fract, ← heq]
        rw [Int.fract] at hf
        linarith
      rw [roundHalfEven, if_neg hfract.not_gt, if_pos hfract, heq]
      push_cast
      rfl
    · have hle := floor_le_roundHalfEven (regularQuotient n total y)
      exact_mod_cast (by omega : ⌊regularQuotient n total x⌋ + 1 ≤
        roundHalfEven (regularQuotient n total y))

/-- **The regular containers** keep the order of the limits. -/
theorem regularLimit_mono (hx : SmallLimit n total x) (hy : SmallLimit n total y) (hxy : x ≤ y) :
    regularLimit n total x ≤ regularLimit n total y := by
  have hmono := hx.regularQuotient_mono hy hxy
  rw [regularLimit, regularLimit]
  by_cases hax : AdjustsInDoubles n total x <;> by_cases hay : AdjustsInDoubles n total y
  · rw [if_pos hax, if_pos hay]
    exact_mod_cast roundHalfEven_mono hmono
  · rw [if_pos hax, if_neg hay]
    exact hx.roundHalfEven_le_regularQuotient hy hxy hax hay
  · rw [if_neg hax, if_pos hay]
    exact hx.regularQuotient_le_roundHalfEven hy hxy hax hay
  · rw [if_neg hax, if_neg hay]
    exact hmono

end SmallLimit

end

/-! ## Minima and maxima -/

/-- `min <= max`. -/
def MaxMin.Ordered (m : MaxMin (Number Double)) : Prop := m.min.le m.max = true

instance (m : MaxMin (Number Double)) : Decidable m.Ordered := inferInstanceAs (Decidable (_ = _))

/-- `min <= max` for every resource of a container. -/
def SizedContainer.Ordered (c : SizedContainer Double) : Prop :=
  ∀ resource s, c.get? resource = some s → s.limits.Ordered

/-- Every minimum of the application is at most its maximum. -/
def OrderedApp (app : Dict String OwnedResource) : Prop :=
  ∀ resource a, app.get? resource = some a → a.limits.min ≤ a.limits.max

instance (app : Dict String OwnedResource) : Decidable (OrderedApp app) :=
  decidable_of_iff' _ Dict.forall_get?_iff

/-- The limits of a resource next to an irregular container, with its maximum of the CPU rounded. -/
def sizedUneven (n total : ℤ) (resource : String) (a : OwnedResource) :
    Py (Split (MaxMin (Number Double))) := do
  let limits ← unevenLimits doubleArithmetic n total ⟨regularInDoubles n total, restInDoubles n total⟩
    resource a
  let regular ← roundCpuMax doubleArithmetic resource (limits.map Split.regular)
  let irregular ← roundCpuMax doubleArithmetic resource (limits.map Split.irregular)
  return ⟨regular, irregular⟩

section
variable {n total : ℤ}

/-- All of the CPU is adjusted to the shares themselves. -/
theorem splitLimit_total (h : SmallLimit n total total) :
    splitLimit n total total = ⟨.int (regularShare n total), .int (irregularShare n total)⟩ := by
  have hone : nearest ((1 : ℤ) : ℚ) = (1 : ℤ) := nearest_intCast (by norm_num)
  rw [Int.cast_one] at hone
  have hquotient : regularQuotient n total total = regularShare n total := by
    rw [regularQuotient, div_self h.cast_total_pos.ne', hone, div_one, h.nearest_regularShare.1]
  have hadj : AdjustsInDoubles n total total := by
    rw [AdjustsInDoubles, hquotient, Int.fract_intCast]
    exact ⟨fun _ => h.one_le_regularShare, fun hge => absurd hge (by norm_num)⟩
  rw [splitLimit, if_pos hadj, hquotient, roundHalfEven_intCast, round_intCast, irregularShare]

/-- Limits that are scaled and adjusted in doubles that are looked at. -/
theorem unevenLimits_small {resource : String} {a : OwnedResource} (l : LimitKey)
    (h : SmallLimit n total (a.limits.at l)) (hne : (resource, l) ≠ ("cpu", LimitKey.max))
    {m : MaxMin (Split (Number Double))}
    (hm : unevenLimits doubleArithmetic n total ⟨regularInDoubles n total, restInDoubles n total⟩
      resource a = .ok m) : m.at l = splitLimit n total (a.limits.at l) := by
  obtain ⟨v, hv, hs⟩ := unevenLimits_at hm hne
  obtain rfl := Except.ok.inj (h.scaledLimit_eq.symm.trans hv)
  exact Except.ok.inj (hs.symm.trans h.adjustLimit_eq)

/-- The sized limits of a resource. -/
theorem sizedUneven_small {resource : String} {a : OwnedResource}
    (hcpu : resource = "cpu" → a.limits.max = total) (h : ∀ l, SmallLimit n total (a.limits.at l))
    {s : Split (MaxMin (Number Double))} (hs : sizedUneven n total resource a = .ok s) (l : LimitKey) :
    s.regular.at l = (splitLimit n total (a.limits.at l)).regular ∧
      s.irregular.at l = (splitLimit n total (a.limits.at l)).irregular := by
  simp only [sizedUneven, bind_eq_ok, pure_eq_ok] at hs
  obtain ⟨m, hm, regular, hr, irregular, hi, rfl⟩ := hs
  by_cases hne : (resource, l) = ("cpu", LimitKey.max)
  · rw [Prod.mk.injEq] at hne
    obtain ⟨rfl, rfl⟩ := hne
    have hmax : a.limits.at .max = total := hcpu rfl
    have hsmall : SmallLimit n total total := hmax ▸ h .max
    have hshares := unevenLimits_cpu_max hm
    simp only [roundCpuMax, if_true, bind_eq_ok, pure_eq_ok, MaxMin.map, hshares] at hr hi
    obtain ⟨z, hz, rfl⟩ := hr
    obtain ⟨z', hz', rfl⟩ := hi
    have hregular : z = regularShare n total := by
      rw [hsmall.regularInDoubles_eq] at hz
      exact (Except.ok.inj hz).symm.trans (roundHalfEven_intCast _)
    have hirregular : z' = irregularShare n total := by
      rw [hsmall.restInDoubles_eq] at hz'
      exact (Except.ok.inj hz').symm.trans hsmall.roundHalfEven_roundedRest
    rw [hmax, splitLimit_total hsmall, hregular, hirregular]
    exact ⟨rfl, rfl⟩
  · rw [roundCpuMax_at hr hne, roundCpuMax_at hi hne, MaxMin.at_map, MaxMin.at_map,
      unevenLimits_small l (h l) hne hm]
    exact ⟨rfl, rfl⟩

/-- The regular container is in order; the irregular one by what is left to it. -/
theorem sizedUneven_ordered_iff {resource : String} {a : OwnedResource}
    (hcpu : resource = "cpu" → a.limits.max = total) (h : ∀ l, SmallLimit n total (a.limits.at l))
    (hle : a.limits.min ≤ a.limits.max) {s : Split (MaxMin (Number Double))}
    (hs : sizedUneven n total resource a = .ok s) :
    (s.regular.Ordered ∧ s.irregular.Ordered) ↔
      irregularLimit n total a.limits.min ≤ irregularLimit n total a.limits.max := by
  have hmin := sizedUneven_small hcpu h hs .min
  have hmax := sizedUneven_small hcpu h hs .max
  have hregular : s.regular.Ordered := by
    rw [MaxMin.Ordered, Number.le, show s.regular.min = _ from hmin.1, show s.regular.max = _ from hmax.1,
      (splitLimit_compared ..).1, (splitLimit_compared ..).1, Double.finite_le_finite]
    exact (h .min).regularLimit_mono (h .max) hle
  rw [and_iff_right hregular, MaxMin.Ordered, Number.le, show s.irregular.min = _ from hmin.2,
    show s.irregular.max = _ from hmax.2, (splitLimit_compared ..).2, (splitLimit_compared ..).2,
    Double.finite_le_finite]
  rfl

end

section
variable {n : ℤ} {app : Dict String OwnedResource} {app_limits : Dict String (AppLimit Double)}
  {benevolence : ℤ} {is_hadoop_app : Bool} {cr : Sizing Double} {cpu : OwnedResource}

/-- The result of a division, truncated. -/
theorem truncated_quotient {m : ℤ} (hn : 1 ≤ n) (hm : 0 ≤ m) {z : ℤ}
    (h : (doubleArithmetic.quotient m n >>= doubleArithmetic.truncated) = .ok z) :
    z = ⌊equalPart n m⌋ := by
  obtain ⟨x, hx, hz⟩ := bind_eq_ok.1 h
  have hx' : x = .finite (equalPart n m) := by
    by_cases hconv : Converts ((m : ℚ) / n)
    · exact Except.ok.inj (hx.symm.trans (doubles_quotient (by omega) hconv))
    · rw [doubles_quotient_error (by omega) hconv] at hx
      cases hx
  subst hx'
  exact (Except.ok.inj hz).symm.trans (truncate_of_nonneg (equalPart_nonneg hn hm))

/-- The limits without an irregular container. -/
theorem divideResource_eq (hn : 1 ≤ n) {resource : String} {a : OwnedResource} (hmin : 0 < a.limits.min)
    (hmax : 0 < a.limits.max) (hcur : a.current = 0) {q : Double} {m : MaxMin (Number Double)}
    (h : divideResource doubleArithmetic n q resource a = .ok m) :
    m.min = .int ⌊equalPart n a.limits.min⌋ ∧
      m.max = if resource = "cpu" then .float q else .int ⌊equalPart n a.limits.max⌋ := by
  by_cases hcpu : resource = "cpu"
  · simp only [divideResource, if_pos hcpu, bind_eq_ok, pure_eq_ok] at h
    obtain ⟨x, hx, z, hz, rfl⟩ := h
    rw [if_pos hcpu, ← truncated_quotient hn hmin.le (bind_eq_ok.2 ⟨x, hx, hz⟩)]
    exact ⟨rfl, rfl⟩
  · simp only [divideResource, if_neg hcpu, bind_eq_ok, pure_eq_ok, hcur, sub_zero] at h
    obtain ⟨x, hx, z, hz, x', hx', z', hz', rfl⟩ := h
    rw [if_neg hcpu, ← truncated_quotient hn hmin.le (bind_eq_ok.2 ⟨x, hx, hz⟩),
      ← truncated_quotient hn hmax.le (bind_eq_ok.2 ⟨x', hx', hz'⟩)]
    exact ⟨rfl, rfl⟩

theorem equalPart_mono (hn : 1 ≤ n) {x y : ℤ} (hxy : x ≤ y) : equalPart n x ≤ equalPart n y := by
  have hn' : (0 : ℚ) ≤ n := by exact_mod_cast (by omega : 0 ≤ n)
  have hxy' : (x : ℚ) ≤ y := by exact_mod_cast hxy
  exact nearest_mono (div_le_div_of_nonneg_right hxy' hn')

/-- Without an irregular container the limits keep their order. -/
theorem divided_ordered (hn : 1 ≤ n) {resource : String} {a : OwnedResource} (hmin : 0 < a.limits.min)
    (hle : a.limits.min ≤ a.limits.max) (hcur : a.current = 0) {total : ℤ}
    (ht : resource = "cpu" → a.limits.max = total) {m m' : MaxMin (Number Double)}
    (h : divideResource doubleArithmetic n (.finite (equalPart n total)) resource a = .ok m)
    (h' : roundCpuMax doubleArithmetic resource m = .ok m') : m'.Ordered := by
  obtain ⟨hmin', hmax'⟩ := divideResource_eq hn hmin (hmin.trans_le hle) hcur h
  have hfloor := Int.floor_le_floor (equalPart_mono hn hle)
  have hint {x y : ℤ} (hxy : x ≤ y) : (Number.int x).le (.int y) = true :=
    Double.finite_le_finite.2 (by exact_mod_cast hxy)
  by_cases hcpu : resource = "cpu"
  · rw [if_pos hcpu] at hmax'
    simp only [roundCpuMax, if_pos hcpu, bind_eq_ok, pure_eq_ok, hmax'] at h'
    obtain ⟨z, hz, rfl⟩ := h'
    obtain rfl : roundHalfEven (equalPart n total) = z := Except.ok.inj hz
    rw [MaxMin.Ordered, hmin', ← ht hcpu]
    exact hint (hfloor.trans (floor_le_roundHalfEven _))
  · rw [if_neg hcpu] at hmax'
    rw [roundCpuMax, if_neg hcpu] at h'
    cases h'
    rw [MaxMin.Ordered, hmin', hmax']
    exact hint hfloor

/-- **When the containers keep `min <= max`.** Exactly when no irregular container is
    created, or for no resource what is left of the maximum to the irregular container
    is below what is left of the minimum; beyond 2^40, when the limits that are scaled,
    adjusted and rounded in doubles are in order. -/
theorem limits_ordered_iff (hn : 1 ≤ n) (hcpu : app.get? "cpu" = some cpu) (hpos : PositiveApp app)
    (hord : OrderedApp app)
    (hcr : getContainerResourcesForApp doubleArithmetic n app app_limits benevolence is_hadoop_app
      = .ok cr) :
    (∀ c ∈ cr.containers, c.Ordered) ↔
      (SplitsInDoubles n cpu.limits.max is_hadoop_app → ∀ resource a, app.get? resource = some a →
        if cpu.limits.max ≤ 2 ^ 40 ∧ a.limits.max ≤ 2 ^ 40 then
          irregularLimit n cpu.limits.max a.limits.min ≤ irregularLimit n cpu.limits.max a.limits.max
        else ∃ s, sizedUneven n cpu.limits.max resource a = .ok s ∧ s.regular.Ordered ∧
          s.irregular.Ordered) := by
  have hsplit := splitCpu_sized hn hcpu hpos hcr
  have hcpu_max {resource : String} {a : OwnedResource} (ha : app.get? resource = some a) :
      resource = "cpu" → a.limits.max = cpu.limits.max := by
    rintro rfl
    rw [Option.some.inj (ha.symm.trans hcpu)]
  by_cases h : SplitsInDoubles n cpu.limits.max is_hadoop_app
  · obtain ⟨t, hsplit⟩ := splitCpu_uneven h hsplit
    rw [forall_prop_of_true h]
    refine forall_sized_uneven (P := fun _ s => s.limits.Ordered) hcpu hsplit hcr
      fun resource a m s s' ha hm hfin hfin' => ?_
    have hsized : sizedUneven n cpu.limits.max resource a = .ok ⟨s.limits, s'.limits⟩ := by
      simp only [sizedUneven, bind_eq_ok, pure_eq_ok]
      exact ⟨m, hm, _, hfin.limits, _, hfin'.limits, rfl⟩
    have hle := hord resource a ha
    split
    next hsmall =>
      refine sizedUneven_ordered_iff (hcpu_max ha) (fun l => ?_) hle hsized
      refine h.smallLimit hn (hpos _ _ hcpu).1 hsmall.1 (hpos.limit_pos ha l) ?_
      cases l
      · exact hsmall.2
      · exact hle.trans hsmall.2
    next =>
      simp only [hsized, Except.ok.injEq, exists_eq_left']
  · refine iff_of_true ?_ fun h' => absurd h' h
    refine (forall_sized_even (P := fun _ s => s.limits.Ordered) (Q := fun _ _ => True) hcpu
      (splitCpu_even h hsplit) hcr fun resource a m s ha hm hfin => ?_).2 fun _ _ _ => trivial
    exact iff_true_intro (divided_ordered hn (hpos resource a ha).2.1 (hord resource a ha)
      (hpos resource a ha).2.2 (hcpu_max ha) hm hfin.limits)

/-- 10 and 9 of memory, of an application of 400 shares in three containers: the
    irregular one gets at most 4 and at least 5. -/
theorem flippedLimits_threeContainers : ∃ cr t irregular,
    getContainerResourcesForApp doubleArithmetic 3 (cpuMemApp ⟨400, 100⟩ ⟨10, 9⟩) .empty 1 false = .ok cr ∧
      cr.irregular = some (t, irregular) ∧
      irregular.limit "mem" .max = some (.int 4) ∧ irregular.limit "mem" .min = some (.int 5) ∧
      ¬ ∀ c ∈ cr.containers, c.Ordered := by
  obtain ⟨cr, hcr⟩ := exists_eq_ok (x := getContainerResourcesForApp doubleArithmetic 3
    (cpuMemApp ⟨400, 100⟩ ⟨10, 9⟩) .empty 1 false) (by decide +kernel)
  have hcpu := cpuMemApp_cpu ⟨400, 100⟩ ⟨10, 9⟩
  have hmem := cpuMemApp_mem ⟨400, 100⟩ ⟨10, 9⟩
  obtain ⟨t, irregular, hirr, hlimits⟩ :=
    limits_of_uneven (by norm_num) hcpu (by decide) (by decide +kernel) hcr
  have hsized : (scaledLimit 3 400 10 >>= adjustLimit doubleArithmetic 3) = .ok ⟨.int 2, .int 4⟩ ∧
      (scaledLimit 3 400 9 >>= adjustLimit doubleArithmetic 3) = .ok ⟨.int 2, .int 5⟩ := by decide +kernel
  obtain ⟨v, s, hv, hs, -, hmax⟩ := hlimits "mem" _ .max hmem (by decide)
  obtain ⟨v', s', hv', hs', -, hmin⟩ := hlimits "mem" _ .min hmem (by decide)
  rw [Except.ok.inj ((bind_eq_ok.2 ⟨v, hv, hs⟩).symm.trans hsized.1)] at hmax
  rw [Except.ok.inj ((bind_eq_ok.2 ⟨v', hv', hs'⟩).symm.trans hsized.2)] at hmin
  refine ⟨cr, t, irregular, hcr, hirr, hmax, hmin, fun hord => ?_⟩
  have hle := (limits_ordered_iff (by norm_num) hcpu (by decide) (by decide) hcr).1 hord
    (by decide +kernel) "mem" _ hmem
  rw [if_pos (by decide)] at hle
  revert hle
  decide +kernel

theorem limits_ordered_iff_threeContainers : ∃ cr,
    getContainerResourcesForApp doubleArithmetic 3 (cpuMemApp ⟨400, 100⟩ ⟨10, 5⟩) .empty 1 false = .ok cr ∧
      ∀ c ∈ cr.containers, c.Ordered := by
  obtain ⟨cr, hcr⟩ := exists_eq_ok (x := getContainerResourcesForApp doubleArithmetic 3
    (cpuMemApp ⟨400, 100⟩ ⟨10, 5⟩) .empty 1 false) (by decide +kernel)
  have hcpu := cpuMemApp_cpu ⟨400, 100⟩ ⟨10, 5⟩
  refine ⟨cr, hcr, (limits_ordered_iff (by norm_num) hcpu (by decide) (by decide) hcr).2
    fun _ resource a ha => ?_⟩
  have hall : ∀ e ∈ (cpuMemApp ⟨400, 100⟩ ⟨10, 5⟩).entries, e.2.limits.max ≤ 2 ^ 40 ∧
      irregularLimit 3 400 e.2.limits.min ≤ irregularLimit 3 400 e.2.limits.max := by decide +kernel
  obtain ⟨hsmall, hle⟩ := hall _ (Dict.get?_eq_some_iff.1 ha)
  rw [if_pos ⟨by decide, hsmall⟩]
  exact hle

/-- 23 and 22 of memory in the same containers: at most 11 and at least 12. -/
example : irregularLimit 3 400 23 = 11 ∧ irregularLimit 3 400 22 = 12 := by decide +kernel

end

end ServerlessYarn
