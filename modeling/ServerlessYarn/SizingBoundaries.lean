/-
  ServerlessYARN model — the automatic boundaries of the sized containers
  (`ui/views/apps/utils.py`: `getContainerResourcesForApp`).

  A boundary is a percentage of the sized maximum, computed from limits that are
  `int`s or `float`s: their difference is divided by the maximum, which a truncated
  limit makes zero, and is negative where adjusting exchanged the limits.

  * `SmallLimits.boundaryOf_eq`: a boundary in closed form;
  * `boundaries_iff`: when the automatic boundaries are computed, and lie
    between 0 and 50 percent.
-/
import ServerlessYarn.SizingOrder

namespace ServerlessYarn

open Binary64 Rounding

/-! ## One boundary -/

/-- The value of a number, if it is finite, else 0. -/
def Number.value (x : Number Double) : ℚ := x.value?.getD 0

/-- The percentage that a boundary is rounded from: `int`s are divided exactly, with
    one rounding; next to a `float` every operation is rounded. -/
def boundaryQuotient (benevolence : ℤ) (m : MaxMin (Number Double)) : ℚ :=
  if m.max.isInt && m.min.isInt then
    nearest ((m.max.value - m.min.value) * 100 / (2 ^ (benevolence + 1).toNat * m.max.value))
  else nearest (nearest (nearest (m.max.value - m.min.value) * 100) /
    nearest (2 ^ (benevolence + 1).toNat * m.max.value))

/-- Limits whose doubles are looked at: `y` and `x` are their values. -/
structure SmallLimits (m : MaxMin (Number Double)) (y x : ℚ) : Prop where
  max : m.max.value? = some y
  min : m.min.value? = some x
  max_ge : 1 / 2 ^ 41 ≤ y
  max_le : y ≤ 2 ^ 42
  min_nonneg : 0 ≤ x
  min_le : x ≤ 2 ^ 42

theorem Number.float_of_value? {x : Double} {q : ℚ} (h : (Number.float x).value? = some q) :
    x = .finite q := by
  cases x with
  | finite q' => rw [Option.some.inj h]
  | infinite _ => cases h
  | nan => cases h

/-- A number that is not too large is converted without an error. -/
theorem toFloat_of_value? {x : Number Double} {q : ℚ} (h : x.value? = some q) (hq : |q| ≤ 2 ^ 53) :
    doubleArithmetic.toFloat x = .ok (.finite q) := by
  cases x with
  | int z =>
    obtain rfl : (z : ℚ) = q := Option.some.inj h
    have hz : |z| ≤ 2 ^ 53 := by exact_mod_cast hq
    have hconv : Converts (z : ℚ) := converts_of_le (hq.trans (pow_le_pow_right₀ one_le_two (by norm_num)))
    exact (doubles_ofInt hconv).trans (by rw [nearest_intCast hz])
  | float x => exact congrArg Except.ok (Number.float_of_value? h)

/-- Next to a `float` both numbers are converted. -/
theorem minus_of_toFloat {max min : Number Double} {y x : Double} (hne : max.isInt = true → min.isInt = false)
    (hy : doubleArithmetic.toFloat max = .ok y) (hx : doubleArithmetic.toFloat min = .ok x) :
    doubleArithmetic.minus max min = .ok (.float (y.sub x)) := by
  cases max with
  | int z =>
    cases min with
    | int w => cases hne rfl
    | float w => exact bind_eq_ok.2 ⟨y, hy, bind_eq_ok.2 ⟨x, hx, rfl⟩⟩
  | float z => exact bind_eq_ok.2 ⟨y, hy, bind_eq_ok.2 ⟨x, hx, rfl⟩⟩

namespace SmallLimits
variable {m : MaxMin (Number Double)} {y x : ℚ} {benevolence : ℤ} (h : SmallLimits m y x)
include h

theorem max_pos : 0 < y := lt_of_lt_of_le (by norm_num) h.max_ge

theorem abs_range_le : |y - x| ≤ 2 ^ 42 :=
  abs_le.2 ⟨by linarith [h.max_pos, h.min_le], by linarith [h.max_le, h.min_nonneg]⟩

theorem abs_scaledRange_le : |nearest (y - x) * 100| ≤ 2 ^ 49 := by
  have hle := abs_nearest_le_pow h.abs_range_le
  rw [abs_mul, abs_of_pos (show (0 : ℚ) < 100 by norm_num)]
  linarith

theorem divided_ge (k : ℕ) (hk : 2 ≤ k) : 4 * y ≤ 2 ^ k * y :=
  mul_le_mul_of_nonneg_right ((by norm_num : (4 : ℚ) = 2 ^ 2).le.trans
    (pow_le_pow_right₀ one_le_two hk)) h.max_pos.le

theorem divided_le (k : ℕ) (hk : k ≤ 901) : |2 ^ k * y| ≤ 2 ^ 1000 := by
  have hpow : (2 : ℚ) ^ k ≤ 2 ^ 901 := pow_le_pow_right₀ one_le_two hk
  rw [abs_of_pos (mul_pos (pow_pos two_pos k) h.max_pos)]
  calc (2 : ℚ) ^ k * y ≤ 2 ^ 901 * 2 ^ 42 := mul_le_mul hpow h.max_le h.max_pos.le (pow_nonneg zero_le_two _)
    _ = 2 ^ 943 := (pow_add _ _ _).symm
    _ ≤ 2 ^ 1000 := pow_le_pow_right₀ one_le_two (by norm_num)

/-- The rounded divisor. -/
theorem nearest_divided_ge (k : ℕ) (hk : 2 ≤ k) : 39 / 10 * y ≤ nearest (2 ^ k * y) := by
  have hmono := nearest_mono (h.divided_ge k hk)
  have herr := (abs_le.1 (abs_nearest_sub_le_add (4 * y))).1
  rw [abs_of_pos (by linarith [h.max_pos] : (0 : ℚ) < 4 * y)] at herr
  have hge := h.max_ge
  linarith

theorem nearest_divided_pos (k : ℕ) (hk : 2 ≤ k) : 0 < nearest (2 ^ k * y) := by
  linarith [h.nearest_divided_ge k hk, h.max_pos]

theorem abs_quotient_le (k : ℕ) (hk : 2 ≤ k) :
    |nearest (nearest (y - x) * 100) / nearest (2 ^ k * y)| ≤ 2 ^ 1000 := by
  have hpos := h.nearest_divided_pos k hk
  have hge := h.nearest_divided_ge k hk
  have hnum := abs_nearest_le_pow h.abs_scaledRange_le
  have hden : (1 : ℚ) / 2 ^ 41 ≤ nearest (2 ^ k * y) := by linarith [h.max_ge]
  rw [abs_div, abs_of_pos hpos]
  calc |nearest (nearest (y - x) * 100)| / nearest (2 ^ k * y) ≤ 2 ^ 49 / (1 / 2 ^ 41) :=
        div_le_div₀ (by norm_num) hnum (by norm_num) hden
    _ = 2 ^ 90 := by norm_num
    _ ≤ 2 ^ 1000 := pow_le_pow_right₀ one_le_two (by norm_num)

/-- The divisor is an `int` or a `float`, as the maximum is. -/
theorem dividedBy_divisor (k : ℕ) (hk : 2 ≤ k) (hk' : k ≤ 901) {max : Number Double}
    (hmax : max.value? = some y) :
    ∃ divisor, doubleArithmetic.times (.int (2 ^ k)) max = .ok divisor ∧
      doubleArithmetic.dividedBy (.float (.finite (nearest (nearest (y - x) * 100)))) divisor =
        .ok (.finite (nearest (nearest (nearest (y - x) * 100) / nearest (2 ^ k * y)))) := by
  have hconv := converts_of_le (h.divided_le k hk')
  have hdiv : doubleArithmetic.div (.finite (nearest (nearest (y - x) * 100)))
      (.finite (nearest (2 ^ k * y))) =
      .ok (.finite (nearest (nearest (nearest (y - x) * 100) / nearest (2 ^ k * y)))) := by
    have hne : Double.finite (nearest (2 ^ k * y)) ≠ .finite 0 := by
      simpa using (h.nearest_divided_pos k hk).ne'
    exact (if_neg hne).trans (congrArg Except.ok (Double.div_of_le (h.abs_quotient_le k hk)))
  cases max with
  | int z =>
    obtain rfl : (z : ℚ) = y := Option.some.inj hmax
    have hcast : ((2 ^ k * z : ℤ) : ℚ) = 2 ^ k * z := by push_cast; rfl
    refine ⟨.int (2 ^ k * z), rfl, bind_eq_ok.2 ⟨_, rfl, bind_eq_ok.2 ⟨_, ?_, hdiv⟩⟩⟩
    rw [← hcast] at hconv ⊢
    exact doubles_ofInt hconv
  | float z =>
    obtain rfl := Number.float_of_value? hmax
    have hpow : (2 : ℚ) ^ k ≤ 2 ^ 1000 := pow_le_pow_right₀ one_le_two (by omega)
    have hself : nearest ((2 : ℚ) ^ k) = 2 ^ k := by
      have hself := nearest_of_le (m := 1) (e := k) (by norm_num) (by omega)
      rwa [Int.cast_one, one_mul, zpow_natCast] at hself
    have hofInt : doubleArithmetic.ofInt (2 ^ k) = .ok (.finite (2 ^ k)) := by
      have hconv : Converts (((2 : ℤ) ^ k : ℤ) : ℚ) := by
        rw [Int.cast_pow, Int.cast_ofNat]
        exact converts_of_le ((abs_of_pos (pow_pos two_pos k)).trans_le hpow)
      rw [doubles_ofInt hconv, Int.cast_pow, Int.cast_ofNat, hself]
    have hmul : doubleArithmetic.mul (.finite (2 ^ k)) (.finite y) = .finite (nearest (2 ^ k * y)) :=
      Double.mul_of_le (h.divided_le k hk')
    refine ⟨.float (.finite (nearest (2 ^ k * y))), ?_,
      bind_eq_ok.2 ⟨_, rfl, bind_eq_ok.2 ⟨_, rfl, hdiv⟩⟩⟩
    exact bind_eq_ok.2 ⟨_, hofInt, bind_eq_ok.2 ⟨_, rfl, congrArg (fun x => Except.ok (Number.float x)) hmul⟩⟩

/-- Next to a `float` every operation is rounded. -/
theorem boundaryOf_float (hb : 1 ≤ benevolence) (hb' : benevolence ≤ 900)
    (app_limits : Dict String (AppLimit Double)) (resource : String)
    (hne : m.max.isInt = true → m.min.isInt = false) :
    boundaryOf doubleArithmetic app_limits benevolence resource m = .ok (.int (roundHalfEven (nearest
      (nearest (nearest (y - x) * 100) / nearest (2 ^ (benevolence + 1).toNat * y)))),
      "percentage_of_max") := by
  have hy := toFloat_of_value? h.max (by
    rw [abs_of_pos h.max_pos]
    linarith [h.max_le])
  have hx := toFloat_of_value? h.min (by
    rw [abs_of_nonneg h.min_nonneg]
    linarith [h.min_le])
  have hrange : doubleArithmetic.minus m.max m.min = .ok (.float (.finite (nearest (y - x)))) := by
    rw [minus_of_toFloat hne hy hx, Double.sub_of_le (h.abs_range_le.trans
      (pow_le_pow_right₀ one_le_two (by norm_num)))]
  have hhundred : doubleArithmetic.times (.float (.finite (nearest (y - x)))) (.int 100) =
      .ok (.float (.finite (nearest (nearest (y - x) * 100)))) := by
    have h100 := toFloat_of_value? (x := .int 100) (q := 100) rfl (by norm_num)
    exact bind_eq_ok.2 ⟨_, rfl, bind_eq_ok.2 ⟨_, h100, congrArg (fun x => Except.ok (Number.float x))
      (Double.mul_of_le (h.abs_scaledRange_le.trans (pow_le_pow_right₀ one_le_two (by norm_num))))⟩⟩
  obtain ⟨divisor, hdivisor, hover⟩ := h.dividedBy_divisor (benevolence + 1).toNat (by omega) (by omega) h.max
  have hpow : doubleArithmetic.powTwo (benevolence + 1) = .ok (.int (2 ^ (benevolence + 1).toNat)) :=
    if_pos (by omega)
  rw [boundaryOf, if_neg (by omega)]
  simp only [hpow, hrange, hhundred, hdivisor, hover, bind, Except.bind, pure, Except.pure]
  rfl

/-- **A boundary**, in closed form. -/
theorem boundaryOf_eq (hb : 1 ≤ benevolence) (hb' : benevolence ≤ 900)
    (app_limits : Dict String (AppLimit Double)) (resource : String) :
    boundaryOf doubleArithmetic app_limits benevolence resource m =
      .ok (.int (roundHalfEven (boundaryQuotient benevolence m)), "percentage_of_max") := by
  have hmax : m.max.value = y := by rw [Number.value, h.max, Option.getD_some]
  have hmin : m.min.value = x := by rw [Number.value, h.min, Option.getD_some]
  rw [boundaryQuotient, hmax, hmin]
  by_cases hint : (m.max.isInt && m.min.isInt) = true
  swap
  · rw [if_neg hint]
    refine h.boundaryOf_float hb hb' app_limits resource fun hi => ?_
    rwa [hi, Bool.true_and, Bool.not_eq_true] at hint
  rw [if_pos hint]
  rcases m with ⟨max | max, min | min⟩ <;> try cases hint
  -- `int`s are divided exactly
  obtain rfl : (max : ℚ) = y := Option.some.inj h.max
  obtain rfl : (min : ℚ) = x := Option.some.inj h.min
  have hdivisor : 2 ^ (benevolence + 1).toNat * max ≠ 0 := by
    have hpos : 0 < max := by exact_mod_cast h.max_pos
    positivity
  have hnum : |(max - min) * 100| ≤ 2 ^ 53 := by
    have hle : |((max - min : ℤ) : ℚ)| ≤ 2 ^ 42 := by
      push_cast
      exact h.abs_range_le
    have hle' : |max - min| ≤ 2 ^ 42 := by exact_mod_cast hle
    rw [abs_mul, abs_of_pos (by norm_num : (0 : ℤ) < 100)]
    omega
  have hquotient := doubles_quotient hdivisor (converts_div_of_le hnum)
  have hpow : doubleArithmetic.powTwo (benevolence + 1) = .ok (.int (2 ^ (benevolence + 1).toNat)) :=
    if_pos (by omega)
  have hover : doubleArithmetic.dividedBy (.int ((max - min) * 100)) (.int (2 ^ (benevolence + 1).toNat * max)) =
      .ok (.finite (nearest ((max - min) * 100 / (2 ^ (benevolence + 1).toNat * max)))) := by
    refine hquotient.trans ?_
    push_cast
    rfl
  rw [boundaryOf, if_neg (by omega)]
  simp only [hpow, Arithmetic.minus, Arithmetic.times, hover, bind, Except.bind, pure, Except.pure]
  rfl

/-- A boundary is at most a quarter of the maximum, nearly. -/
theorem boundaryQuotient_le (hb : 1 ≤ benevolence) : boundaryQuotient benevolence m ≤ 30 := by
  have hmax : m.max.value = y := by rw [Number.value, h.max, Option.getD_some]
  have hmin : m.min.value = x := by rw [Number.value, h.min, Option.getD_some]
  have hk : 2 ≤ (benevolence + 1).toNat := by omega
  have hthirty : nearest 30 = 30 := by
    exact_mod_cast nearest_intCast (z := 30) (by norm_num)
  have hge := h.max_ge
  have hx := h.min_nonneg
  rw [boundaryQuotient, hmax, hmin]
  split
  · refine (nearest_mono ?_).trans_eq hthirty
    have hdiv := h.divided_ge _ hk
    rw [div_le_iff₀ (by linarith)]
    linarith
  · refine (nearest_mono ?_).trans_eq hthirty
    have hdiv := h.nearest_divided_ge _ hk
    have hrange := nearest_mono (by linarith : y - x ≤ y)
    have herr := (abs_le.1 (abs_nearest_sub_le_add y)).2
    rw [abs_of_pos h.max_pos] at herr
    have hscaled := nearest_mono (by linarith : nearest (y - x) * 100 ≤ 101 * y)
    have herr' := (abs_le.1 (abs_nearest_sub_le_add (101 * y))).2
    rw [abs_of_pos (by linarith : 0 < 101 * y)] at herr'
    rw [div_le_iff₀ (by linarith)]
    linarith

/-- Limits in order have a boundary that is not negative. -/
theorem boundaryQuotient_nonneg (hle : x ≤ y) : 0 ≤ boundaryQuotient benevolence m := by
  have hmax : m.max.value = y := by rw [Number.value, h.max, Option.getD_some]
  have hmin : m.min.value = x := by rw [Number.value, h.min, Option.getD_some]
  have hrange : 0 ≤ y - x := by linarith
  have hdivisor : 0 ≤ 2 ^ (benevolence + 1).toNat * y := mul_nonneg (pow_nonneg zero_le_two _) h.max_pos.le
  rw [boundaryQuotient, hmax, hmin]
  split
  · exact nearest_nonneg (div_nonneg (mul_nonneg hrange (by norm_num)) hdivisor)
  · exact nearest_nonneg (div_nonneg (nearest_nonneg (mul_nonneg (nearest_nonneg hrange) (by norm_num)))
      (nearest_nonneg hdivisor))

end SmallLimits

/-! ## The boundaries of the containers -/

/-- Between 0 and 50 percent. -/
def BoundaryInRange (x : Number Double) : Prop := (Number.int 0).le x = true ∧ x.le (.int 50) = true

theorem boundaryInRange_int {z : ℤ} : BoundaryInRange (.int z) ↔ 0 ≤ z ∧ z ≤ 50 := by
  rw [BoundaryInRange, Number.le, Number.le]
  refine and_congr (Double.finite_le_finite.trans ?_) (Double.finite_le_finite.trans ?_)
  · exact Int.cast_le
  · exact Int.cast_le

/-- Every automatic boundary of a container is in range. -/
def SizedContainer.BoundariesInRange (c : SizedContainer Double) : Prop :=
  ∀ resource s, c.get? resource = some s → BoundaryInRange s.boundary

/-- The last loops return for the limits of a resource, with a boundary that is in range. -/
def FinishesInRange (app_limits : Dict String (AppLimit Double)) (benevolence : ℤ) (resource : String)
    (m : MaxMin (Number Double)) : Prop :=
  (∃ b, boundaryOf doubleArithmetic app_limits benevolence resource m = .ok b ∧ BoundaryInRange b.1) ∧
    ∃ limits, roundCpuMax doubleArithmetic resource m = .ok limits

theorem FinishesInRange.finishes {app_limits : Dict String (AppLimit Double)} {benevolence : ℤ}
    {resource : String} {m : MaxMin (Number Double)}
    (h : FinishesInRange app_limits benevolence resource m) :
    Finishes doubleArithmetic app_limits benevolence resource m :=
  ⟨h.1.imp fun _ hb => hb.1, h.2⟩

theorem Finished.inRange_iff {app_limits : Dict String (AppLimit Double)} {benevolence : ℤ}
    {resource : String} {a : OwnedResource} {m : MaxMin (Number Double)} {s : SizedResource Double}
    (h : Finished doubleArithmetic app_limits benevolence resource a m s) :
    FinishesInRange app_limits benevolence resource m ↔ BoundaryInRange s.boundary := by
  constructor
  · rintro ⟨⟨b, hb, hrange⟩, -⟩
    rw [h.boundary, Except.ok.injEq] at hb
    rwa [← hb] at hrange
  · intro hrange
    exact ⟨⟨_, h.boundary, hrange⟩, _, h.limits⟩

/-- The limits of a resource are sized, next to an irregular container. -/
def UnevenInRange (n total : ℤ) (app_limits : Dict String (AppLimit Double)) (benevolence : ℤ)
    (cpu_max : Split Double) (resource : String) (a : OwnedResource) : Prop :=
  ∃ m, unevenLimits doubleArithmetic n total cpu_max resource a = .ok m ∧
    FinishesInRange app_limits benevolence resource (m.map Split.regular) ∧
    FinishesInRange app_limits benevolence resource (m.map Split.irregular)

/-- The limits of a resource are sized, without one. -/
def EvenInRange (n : ℤ) (app_limits : Dict String (AppLimit Double)) (benevolence : ℤ) (cpu_max : Double)
    (resource : String) (a : OwnedResource) : Prop :=
  ∃ m, divideResource doubleArithmetic n cpu_max resource a = .ok m ∧
    FinishesInRange app_limits benevolence resource m

section
variable {n total : ℤ} {app_limits : Dict String (AppLimit Double)} {benevolence : ℤ} {resource : String}
  {a : OwnedResource}

theorem Finished.evenInRange_iff {q : Double} {m : MaxMin (Number Double)} {s : SizedResource Double}
    (h : Finished doubleArithmetic app_limits benevolence resource a m s)
    (hm : divideResource doubleArithmetic n q resource a = .ok m) :
    BoundaryInRange s.boundary ↔ EvenInRange n app_limits benevolence q resource a := by
  rw [← h.inRange_iff]
  constructor
  · exact fun hrange => ⟨m, hm, hrange⟩
  · rintro ⟨m', hm', hrange⟩
    rwa [Except.ok.inj (hm.symm.trans hm')]

theorem Finished.unevenInRange_iff {cpu_max : Split Double} {m : MaxMin (Split (Number Double))}
    {s s' : SizedResource Double}
    (h : Finished doubleArithmetic app_limits benevolence resource a (m.map Split.regular) s)
    (hm : unevenLimits doubleArithmetic n total cpu_max resource a = .ok m)
    (h' : Finished doubleArithmetic app_limits benevolence resource a (m.map Split.irregular) s') :
    (BoundaryInRange s.boundary ∧ BoundaryInRange s'.boundary) ↔
      UnevenInRange n total app_limits benevolence cpu_max resource a := by
  rw [← h.inRange_iff, ← h'.inRange_iff]
  constructor
  · exact fun hrange => ⟨m, hm, hrange⟩
  · rintro ⟨m', hm', hrange⟩
    rwa [Except.ok.inj (hm.symm.trans hm')]

end

/-- The limits of a resource are sized from a split of the CPU. -/
def InRange (n total : ℤ) (app_limits : Dict String (AppLimit Double)) (benevolence : ℤ)
    (s : CpuSplit Double) (resource : String) (a : OwnedResource) : Prop :=
  match s.irregular with
  | some (_, irregular) => UnevenInRange n total app_limits benevolence ⟨s.regular, irregular⟩ resource a
  | none => EvenInRange n app_limits benevolence s.regular resource a

section
variable {n : ℤ} {app : Dict String OwnedResource} {app_limits : Dict String (AppLimit Double)}
  {benevolence : ℤ} {is_hadoop_app : Bool} {cpu : OwnedResource}

/-- **Resource by resource.** -/
theorem boundaries_by_resource (hcpu : app.get? "cpu" = some cpu) {s : CpuSplit Double}
    (hs : splitCpu doubleArithmetic n cpu is_hadoop_app = .ok s) :
    (∃ cr, getContainerResourcesForApp doubleArithmetic n app app_limits benevolence is_hadoop_app = .ok cr ∧
      ∀ c ∈ cr.containers, c.BoundariesInRange) ↔
    ∀ resource a, app.get? resource = some a →
      InRange n cpu.limits.max app_limits benevolence s resource a := by
  obtain ⟨regular, _ | ⟨t, irregular⟩⟩ := s
  · have hranged {cr} (hcr : getContainerResourcesForApp doubleArithmetic n app app_limits benevolence
        is_hadoop_app = .ok cr) :=
      forall_sized_even hcpu hs hcr fun resource a m s _ hm hfin => hfin.evenInRange_iff hm
    constructor
    · rintro ⟨cr, hcr, hrange⟩
      exact (hranged hcr).1 hrange
    · intro hall
      obtain ⟨cr, hcr⟩ := sizing_even_ok hcpu hs fun resource a ha =>
        (hall resource a ha).imp fun m hm => ⟨hm.1, hm.2.finishes⟩
      exact ⟨cr, hcr, (hranged hcr).2 hall⟩
  · have hranged {cr} (hcr : getContainerResourcesForApp doubleArithmetic n app app_limits benevolence
        is_hadoop_app = .ok cr) :=
      forall_sized_uneven hcpu hs hcr fun resource a m s s' _ hm hfin hfin' =>
        hfin.unevenInRange_iff hm hfin'
    constructor
    · rintro ⟨cr, hcr, hrange⟩
      exact (hranged hcr).1 hrange
    · intro hall
      obtain ⟨cr, hcr⟩ := sizing_uneven_ok hcpu hs fun resource a ha =>
        (hall resource a ha).imp fun m hm => ⟨hm.1, hm.2.1.finishes, hm.2.2.finishes⟩
      exact ⟨cr, hcr, (hranged hcr).2 hall⟩

end

/-! ## Limits whose doubles are looked at -/

theorem roundCpuMax_ok {resource : String} {m : MaxMin (Number Double)} {y : ℚ} (h : m.max.value? = some y) :
    ∃ limits, roundCpuMax doubleArithmetic resource m = .ok limits := by
  rw [roundCpuMax]
  split
  · have hround : ∃ z, doubleArithmetic.round m.max = .ok z := by
      obtain ⟨max, min⟩ := m
      cases max with
      | int z => exact ⟨z, rfl⟩
      | float x => exact ⟨_, by rw [Number.float_of_value? h]; rfl⟩
    obtain ⟨z, hz⟩ := hround
    exact ⟨_, bind_eq_ok.2 ⟨z, hz, rfl⟩⟩
  · exact ⟨m, rfl⟩

section
variable {m : MaxMin (Number Double)} {y x : ℚ} {benevolence : ℤ}
  {app_limits : Dict String (AppLimit Double)} {resource : String}

theorem SmallLimits.finishesInRange_iff (h : SmallLimits m y x) (hb : 1 ≤ benevolence)
    (hb' : benevolence ≤ 900) :
    FinishesInRange app_limits benevolence resource m ↔ -1 / 2 ≤ boundaryQuotient benevolence m := by
  have hupper : roundHalfEven (boundaryQuotient benevolence m) ≤ 50 := by
    have hmono := roundHalfEven_mono (h.boundaryQuotient_le hb)
    have hthirty : roundHalfEven (30 : ℚ) = 30 := by
      exact_mod_cast roundHalfEven_intCast (α := ℚ) 30
    omega
  rw [FinishesInRange, and_iff_left (roundCpuMax_ok h.max), h.boundaryOf_eq hb hb']
  simp only [Except.ok.injEq, exists_eq_left', boundaryInRange_int, roundHalfEven_nonneg_iff, hupper,
    and_true]

theorem SmallLimits.finishesInRange (h : SmallLimits m y x) (hb : 1 ≤ benevolence) (hb' : benevolence ≤ 900)
    (hle : x ≤ y) : FinishesInRange app_limits benevolence resource m := by
  have hnonneg : 0 ≤ boundaryQuotient benevolence m := h.boundaryQuotient_nonneg hle
  exact (h.finishesInRange_iff hb hb').2 (by linarith)

end

/-! ## With an irregular container -/

section
variable {n total limit : ℤ}

theorem splitLimit_value (n total limit : ℤ) :
    (splitLimit n total limit).regular.value? = some (regularLimit n total limit) ∧
      (splitLimit n total limit).irregular.value? = some (irregularLimit n total limit) := by
  rw [splitLimit, regularLimit, irregularLimit]
  split
  · refine ⟨rfl, congrArg some ?_⟩
    push_cast
    rfl
  · exact ⟨rfl, rfl⟩

namespace SmallLimit
variable (h : SmallLimit n total limit)
include h

theorem regularPart_le : regularPart n total limit ≤ 2 * limit := by
  have hpart : (total : ℚ) / n ≤ total := h.part_le
  have hshare : (regularShare n total : ℚ) ≤ 2 * total := by
    rcases lt_or_ge (modHundred ((total : ℚ) / n)) 50 with hm | hm
    · rw [regularShare_of_lt hm]
      linarith [(modHundred_mem ((total : ℚ) / n)).1, h.total_nonneg]
    · rw [regularShare_of_le hm]
      have hfloor : (0 : ℚ) ≤ ⌊(total : ℚ) / n / 100⌋ := by
        exact_mod_cast Int.floor_nonneg.2 (div_nonneg (div_nonneg h.total_nonneg h.cast_pos.le) (by norm_num))
      have hmod : modHundred ((total : ℚ) / n) ≤ total / n := by
        rw [modHundred]
        linarith
      linarith
  rw [regularPart, div_le_iff₀ h.cast_total_pos]
  calc (regularShare n total : ℚ) * limit ≤ 2 * total * limit :=
        mul_le_mul_of_nonneg_right hshare h.cast_limit_pos.le
    _ = 2 * limit * total := by ring

/-- A share of at least 1 gives a part that is not too small. -/
theorem quotient_ge {share : ℚ} (hs : 1 ≤ share) :
    1 / 2 ^ 41 ≤ nearest (share / nearest (total / limit)) := by
  have hpart : 1 / 2 ^ 40 ≤ share * limit / total :=
    div_le_div₀ (mul_nonneg (by linarith) h.cast_limit_pos.le)
      (one_le_mul_of_one_le_of_one_le hs h.one_le_limit) h.cast_total_pos h.total_le
  have herr := (abs_le.1 (h.abs_quotient_sub_le hs)).1
  linarith

theorem regularLimit_mem : 1 / 2 ^ 41 ≤ regularLimit n total limit ∧ regularLimit n total limit ≤ 2 ^ 42 := by
  have herr := (abs_le.1 h.abs_regularQuotient_sub_le).2
  have hpart := h.regularPart_le
  have hlim := h.cast_limit_le
  rw [regularLimit]
  split
  · next hadj =>
    have hone : (1 : ℚ) ≤ roundHalfEven (regularQuotient n total limit) := by
      exact_mod_cast h.one_le_roundHalfEven hadj
    have hround := (abs_le.1 (abs_roundHalfEven_sub_le (regularQuotient n total limit))).2
    exact ⟨by linarith, by linarith⟩
  · exact ⟨h.quotient_ge h.one_le_regularShare, by linarith⟩

theorem irregularLimit_mem :
    1 / 2 ^ 41 ≤ irregularLimit n total limit ∧ irregularLimit n total limit ≤ 2 ^ 42 := by
  have hlim := h.cast_limit_le
  rw [irregularLimit]
  split
  · next hadj =>
    have hone : (1 : ℚ) ≤ limit - (n - 1) * round (regularQuotient n total limit) := by
      exact_mod_cast h.leftover_pos hadj
    have hround : (0 : ℚ) ≤ round (regularQuotient n total limit) := by
      have hmono := round_mono h.regularQuotient_pos.le
      rw [round_zero] at hmono
      exact_mod_cast hmono
    have hprod := mul_nonneg h.others_nonneg hround
    exact ⟨by linarith, by linarith⟩
  · exact ⟨h.quotient_ge h.one_le_roundedRest, by linarith [h.irregularQuotient_le]⟩

end SmallLimit

/-- The limits of a resource that boundaries are computed from: the maximum of the CPU is
    not yet rounded. -/
def scaledLimits (n total : ℤ) (resource : String) (a : OwnedResource) : MaxMin (Split (Number Double)) where
  max := if resource = "cpu" then
      ⟨.float (.finite (regularShare n total)), .float (.finite (roundedRest n total))⟩
    else splitLimit n total a.limits.max
  min := splitLimit n total a.limits.min

/-- What the boundary of the irregular container is rounded from. -/
def irregularBoundary (n total benevolence : ℤ) (resource : String) (a : OwnedResource) : ℚ :=
  boundaryQuotient benevolence ((scaledLimits n total resource a).map Split.irregular)

section
variable {benevolence : ℤ} {app_limits : Dict String (AppLimit Double)} {resource : String}
  {a : OwnedResource} (h : ∀ l, SmallLimit n total (a.limits.at l))
include h

theorem unevenLimits_eq : unevenLimits doubleArithmetic n total
    ⟨regularInDoubles n total, restInDoubles n total⟩ resource a = .ok (scaledLimits n total resource a) := by
  have hmax : SmallLimit n total a.limits.max := h .max
  have hmin : SmallLimit n total a.limits.min := h .min
  simp only [unevenLimits, scaleResource, adjustResource, scaledLimits, hmin.regularInDoubles_eq,
    hmin.restInDoubles_eq]
  by_cases hr : resource = "cpu"
  · simp only [if_pos hr, hmin.scaleLimit_eq, hmin.adjustLimit_eq, bind, Except.bind, pure, Except.pure]
  · simp only [if_neg hr, hmax.scaleLimit_eq, hmax.adjustLimit_eq, hmin.scaleLimit_eq, hmin.adjustLimit_eq,
      bind, Except.bind, pure, Except.pure]

/-- The maximum of the regular containers, and its value. -/
theorem smallLimits_regular (hcpu : resource = "cpu" → a.limits.max = total) :
    SmallLimits ((scaledLimits n total resource a).map Split.regular) (regularLimit n total a.limits.max)
      (regularLimit n total a.limits.min) := by
  have hmax : SmallLimit n total a.limits.max := h .max
  have hmin : SmallLimit n total a.limits.min := h .min
  refine ⟨?_, (splitLimit_value ..).1, hmax.regularLimit_mem.1, hmax.regularLimit_mem.2, ?_,
    hmin.regularLimit_mem.2⟩
  · by_cases hr : resource = "cpu"
    · have htotal : SmallLimit n total total := hcpu hr ▸ hmax
      rw [MaxMin.map, scaledLimits, if_pos hr, hcpu hr, ← (splitLimit_value n total total).1,
        splitLimit_total htotal]
      rfl
    · rw [MaxMin.map, scaledLimits, if_neg hr]
      exact (splitLimit_value ..).1
  · linarith [hmin.regularLimit_mem.1]

theorem smallLimits_irregular : ∃ y, SmallLimits ((scaledLimits n total resource a).map Split.irregular) y
    (irregularLimit n total a.limits.min) := by
  have hmax : SmallLimit n total a.limits.max := h .max
  have hmin : SmallLimit n total a.limits.min := h .min
  have hmin_nonneg : 0 ≤ irregularLimit n total a.limits.min := by linarith [hmin.irregularLimit_mem.1]
  by_cases hr : resource = "cpu"
  · have hone := hmax.one_le_roundedRest
    refine ⟨roundedRest n total, ?_, (splitLimit_value ..).2, by linarith, (abs_le.1 hmax.abs_roundedRest_le).2,
      hmin_nonneg, hmin.irregularLimit_mem.2⟩
    rw [MaxMin.map, scaledLimits, if_pos hr]
    rfl
  · refine ⟨irregularLimit n total a.limits.max, ?_, (splitLimit_value ..).2, hmax.irregularLimit_mem.1,
      hmax.irregularLimit_mem.2, hmin_nonneg, hmin.irregularLimit_mem.2⟩
    rw [MaxMin.map, scaledLimits, if_neg hr]
    exact (splitLimit_value ..).2

/-- Next to an irregular container only its own boundary can be out of range. -/
theorem unevenInRange_iff (hb : 1 ≤ benevolence) (hb' : benevolence ≤ 900)
    (hcpu : resource = "cpu" → a.limits.max = total) (hle : a.limits.min ≤ a.limits.max) :
    UnevenInRange n total app_limits benevolence ⟨regularInDoubles n total, restInDoubles n total⟩
      resource a ↔ -1 / 2 ≤ irregularBoundary n total benevolence resource a := by
  have hmax : SmallLimit n total a.limits.max := h .max
  have hmin : SmallLimit n total a.limits.min := h .min
  have hregular : FinishesInRange app_limits benevolence resource
      ((scaledLimits n total resource a).map Split.regular) :=
    (smallLimits_regular h hcpu).finishesInRange hb hb' (hmin.regularLimit_mono hmax hle)
  obtain ⟨y, hirregular⟩ : ∃ y, SmallLimits ((scaledLimits n total resource a).map Split.irregular) y
      (irregularLimit n total a.limits.min) := smallLimits_irregular h
  rw [UnevenInRange, unevenLimits_eq h]
  simp only [Except.ok.injEq, exists_eq_left', hregular, true_and]
  exact hirregular.finishesInRange_iff hb hb'

end

end

/-! ## Without one -/

section
variable {n benevolence : ℤ} {app_limits : Dict String (AppLimit Double)} {resource : String}
  {a : OwnedResource}

theorem truncated_quotient_ok {m : ℤ} (hn : 1 ≤ n) (hm : 0 ≤ m) (hle : m ≤ 2 ^ 40) :
    ∃ x, doubleArithmetic.quotient m n = .ok x ∧ doubleArithmetic.truncated x = .ok ⌊equalPart n m⌋ := by
  have hconv : Converts ((m : ℚ) / n) := converts_div_of_le (by
    rw [abs_of_nonneg hm]
    exact hle.trans (by norm_num))
  refine ⟨_, doubles_quotient (by omega) hconv, ?_⟩
  exact congrArg Except.ok (truncate_of_nonneg (equalPart_nonneg hn hm))

/-- The limits of a resource without an irregular container. -/
theorem divideResource_ok (hn : 1 ≤ n) (hmin : 0 < a.limits.min) (hle : a.limits.min ≤ a.limits.max)
    (hsmall : a.limits.max ≤ 2 ^ 40) (hcur : a.current = 0) (q : Double) :
    divideResource doubleArithmetic n q resource a =
      .ok ⟨if resource = "cpu" then .float q else .int ⌊equalPart n a.limits.max⌋,
        .int ⌊equalPart n a.limits.min⌋⟩ := by
  obtain ⟨x, hx, hx'⟩ := truncated_quotient_ok hn hmin.le (hle.trans hsmall)
  obtain ⟨y, hy, hy'⟩ := truncated_quotient_ok hn (hmin.le.trans hle) hsmall
  by_cases hr : resource = "cpu"
  · simp only [divideResource, if_pos hr, hx, hx', bind, Except.bind, pure, Except.pure]
  · simp only [divideResource, if_neg hr, hcur, sub_zero, hx, hx', hy, hy', bind, Except.bind, pure,
      Except.pure]

/-- A truncated maximum of zero divides. -/
theorem boundaryOf_zero (hb : 1 ≤ benevolence) (min : ℤ) :
    boundaryOf doubleArithmetic app_limits benevolence resource ⟨.int 0, .int min⟩ =
      .error .zeroDivisionError := by
  have hpow : doubleArithmetic.powTwo (benevolence + 1) = .ok (.int (2 ^ (benevolence + 1).toNat)) :=
    if_pos (by omega)
  rw [boundaryOf, if_neg (by omega)]
  simp only [hpow, Arithmetic.minus, Arithmetic.times, Arithmetic.dividedBy, mul_zero, bind, Except.bind]
  rfl

/-- An equal part of a positive limit, of those whose doubles are looked at. -/
theorem equalPart_mem (hn : 1 ≤ n) (hn' : n ≤ 2 ^ 40) {m : ℤ} (hm : 0 < m) (hle : m ≤ 2 ^ 40) :
    1 / 2 ^ 41 ≤ equalPart n m ∧ equalPart n m ≤ 2 ^ 40 := by
  have hone : (1 : ℚ) ≤ m := by exact_mod_cast hm
  have hlarge : (m : ℚ) ≤ 2 ^ 40 := by exact_mod_cast hle
  have hparts : (1 : ℚ) ≤ n := by exact_mod_cast hn
  have hparts' : (n : ℚ) ≤ 2 ^ 40 := by exact_mod_cast hn'
  constructor
  · have hself := nearest_of_le (m := 1) (e := -40) (by norm_num) (by norm_num)
    have hpow : ((1 : ℤ) : ℚ) * 2 ^ (-40 : ℤ) = 1 / 2 ^ 40 := by norm_num
    have hmono := nearest_mono (div_le_div₀ (by linarith) hone (by linarith) hparts')
    rw [hpow] at hself
    rw [hself] at hmono
    exact le_trans (by norm_num) hmono
  · refine (le_abs_self _).trans (abs_nearest_le_pow (k := 40) (q := (m : ℚ) / n) ?_)
    rw [abs_of_nonneg (div_nonneg (by linarith) (by linarith))]
    exact (div_le_self (by linarith) hparts).trans hlarge

/-- Without an irregular container a division fails if a resource has fewer
    units than there are containers; otherwise the boundary is in range. -/
theorem evenInRange_iff (hn : 1 ≤ n) (hn' : n ≤ 2 ^ 40) (hb : 1 ≤ benevolence) (hb' : benevolence ≤ 900)
    (hmin : 0 < a.limits.min) (hle : a.limits.min ≤ a.limits.max) (hsmall : a.limits.max ≤ 2 ^ 40)
    (hcur : a.current = 0) {total : ℤ} (hcpu : resource = "cpu" → a.limits.max = total) :
    EvenInRange n app_limits benevolence (.finite (equalPart n total)) resource a ↔
      (resource ≠ "cpu" → n ≤ a.limits.max) := by
  have hmax : 0 < a.limits.max := hmin.trans_le hle
  have habs : |a.limits.max| ≤ 2 ^ 40 := by rwa [abs_of_pos hmax]
  have hmono := equalPart_mono hn hle
  obtain ⟨htiny, hself⟩ := equalPart_mem hn hn' hmax hsmall
  have hfloor : (⌊equalPart n a.limits.min⌋ : ℚ) ≤ equalPart n a.limits.min := Int.floor_le _
  have hfloor_nonneg : (0 : ℚ) ≤ ⌊equalPart n a.limits.min⌋ := by
    exact_mod_cast Int.floor_nonneg.2 (equalPart_nonneg hn hmin.le)
  rw [EvenInRange, divideResource_ok hn hmin hle hsmall hcur]
  simp only [Except.ok.injEq, exists_eq_left']
  by_cases hr : resource = "cpu"
  · refine iff_of_true ?_ fun hne => absurd hr hne
    rw [if_pos hr, ← hcpu hr]
    exact SmallLimits.finishesInRange (y := equalPart n a.limits.max)
      ⟨rfl, rfl, htiny, by linarith, hfloor_nonneg, by linarith⟩ hb hb' (by linarith)
  · have hlt : equalPart n a.limits.max < 1 ↔ a.limits.max < n := by
      have hiff := equalPart_lt_iff (k := 1) hn hn' habs (by norm_num)
      rw [Int.cast_one, div_lt_one (by exact_mod_cast hn), Int.cast_lt] at hiff
      exact hiff
    rw [if_neg hr, forall_prop_of_true hr]
    by_cases hunits : n ≤ a.limits.max
    · refine iff_of_true ?_ hunits
      have hone : (1 : ℤ) ≤ ⌊equalPart n a.limits.max⌋ := by
        rw [Int.le_floor, Int.cast_one]
        exact_mod_cast not_lt.1 fun h => hunits.not_gt (hlt.1 h)
      have hone' : (1 : ℚ) ≤ ⌊equalPart n a.limits.max⌋ := by exact_mod_cast hone
      have hfloor' : (⌊equalPart n a.limits.max⌋ : ℚ) ≤ equalPart n a.limits.max := Int.floor_le _
      exact SmallLimits.finishesInRange (y := ⌊equalPart n a.limits.max⌋)
        ⟨rfl, rfl, by linarith, by linarith, hfloor_nonneg, by linarith⟩ hb hb'
        (by exact_mod_cast Int.floor_le_floor hmono)
    · refine iff_of_false ?_ hunits
      have hzero : ⌊equalPart n a.limits.max⌋ = 0 := Int.floor_eq_zero_iff.2
        ⟨equalPart_nonneg hn hmax.le, hlt.2 (not_le.1 hunits)⟩
      rw [hzero]
      rintro ⟨⟨b, hok, -⟩, -⟩
      rw [boundaryOf_zero hb] at hok
      cases hok

end

/-! ## All boundaries -/

/-- The amounts whose doubles are looked at. -/
def SmallSizing (n benevolence : ℤ) (app : Dict String OwnedResource) : Prop :=
  (n ≤ 2 ^ 40 ∧ benevolence ≤ 900) ∧ ∀ resource a, app.get? resource = some a → a.limits.max ≤ 2 ^ 40

instance (app : Dict String OwnedResource) :
    Decidable (∀ resource a, app.get? resource = some a → a.limits.max ≤ 2 ^ 40) :=
  decidable_of_iff' _ Dict.forall_get?_iff

instance (n benevolence : ℤ) (app : Dict String OwnedResource) : Decidable (SmallSizing n benevolence app) :=
  inferInstanceAs (Decidable (_ ∧ _))

section
variable {n : ℤ} {app : Dict String OwnedResource} {app_limits : Dict String (AppLimit Double)}
  {benevolence : ℤ} {is_hadoop_app : Bool} {cpu : OwnedResource}

/-- **When the automatic boundaries are defined and in range.** For up to 2^40: without an
    irregular container, if every resource but the CPU has a unit for each container; with
    one, if its own boundaries are not negative.  For more, resource by resource. -/
theorem boundaries_iff (hn : 1 ≤ n) (hb : 1 ≤ benevolence) (hcpu : app.get? "cpu" = some cpu)
    (hpos : PositiveApp app) (hord : OrderedApp app) :
    (∃ cr, getContainerResourcesForApp doubleArithmetic n app app_limits benevolence is_hadoop_app = .ok cr ∧
      ∀ c ∈ cr.containers, c.BoundariesInRange) ↔
    if SmallSizing n benevolence app then
      if SplitsInDoubles n cpu.limits.max is_hadoop_app then
        ∀ resource a, app.get? resource = some a →
          -1 / 2 ≤ irregularBoundary n cpu.limits.max benevolence resource a
      else ∀ resource a, app.get? resource = some a → resource ≠ "cpu" → n ≤ a.limits.max
    else ∃ s, splitCpu doubleArithmetic n cpu is_hadoop_app = .ok s ∧
      ∀ resource a, app.get? resource = some a →
        InRange n cpu.limits.max app_limits benevolence s resource a := by
  have hcpu_max {resource : String} {a : OwnedResource} (ha : app.get? resource = some a) :
      resource = "cpu" → a.limits.max = cpu.limits.max := by
    rintro rfl
    rw [Option.some.inj (ha.symm.trans hcpu)]
  split
  · next hsmall =>
    obtain ⟨⟨hn', hb'⟩, hle⟩ := hsmall
    have hsplit : splitCpu doubleArithmetic n cpu is_hadoop_app =
        .ok (splitInDoubles n cpu.limits.max is_hadoop_app) :=
      splitCpu_small hn (hpos _ _ hcpu).1 (hle _ _ hcpu) (hpos.total_eq hcpu)
    rw [boundaries_by_resource hcpu hsplit]
    split
    · next h =>
      have hsplit' : splitInDoubles n cpu.limits.max is_hadoop_app = ⟨regularInDoubles n cpu.limits.max,
          some (_, restInDoubles n cpu.limits.max)⟩ := if_pos h
      rw [hsplit']
      refine forall_congr' fun resource => forall_congr' fun a => forall_congr' fun ha => ?_
      refine unevenInRange_iff (fun l => ?_) hb hb' (hcpu_max ha) (hord resource a ha)
      refine h.smallLimit hn (hpos _ _ hcpu).1 (hle _ _ hcpu) (hpos.limit_pos ha l) ?_
      cases l
      · exact hle _ _ ha
      · exact (hord resource a ha).trans (hle _ _ ha)
    · next h =>
      rw [splitInDoubles, if_neg h]
      refine forall_congr' fun resource => forall_congr' fun a => forall_congr' fun ha => ?_
      exact evenInRange_iff hn hn' hb hb' (hpos resource a ha).2.1 (hord resource a ha) (hle _ _ ha)
        (hpos resource a ha).2.2 (hcpu_max ha)
  · constructor
    · rintro ⟨cr, hcr, hrange⟩
      obtain ⟨s, hs⟩ := splitCpu_of_sizing hcpu hcr
      exact ⟨s, hs, (boundaries_by_resource hcpu hs).1 ⟨cr, hcr, hrange⟩⟩
    · rintro ⟨s, hs, hall⟩
      exact (boundaries_by_resource hcpu hs).2 hall

/-- Four containers of an application with 3 of memory: the boundary of the
    memory is divided by `int(3 / 4)`. -/
theorem zeroMemory_fourContainers :
    getContainerResourcesForApp doubleArithmetic 4 (cpuMemApp ⟨400, 100⟩ ⟨3, 2⟩) .empty 1 false
        = .error .zeroDivisionError ∧
      ¬ ∃ cr, getContainerResourcesForApp doubleArithmetic 4 (cpuMemApp ⟨400, 100⟩ ⟨3, 2⟩) .empty 1 false
          = .ok cr ∧ ∀ c ∈ cr.containers, c.BoundariesInRange := by
  have herror : getContainerResourcesForApp doubleArithmetic 4 (cpuMemApp ⟨400, 100⟩ ⟨3, 2⟩) .empty 1 false
      = .error .zeroDivisionError := by decide +kernel
  refine ⟨herror, ?_⟩
  rintro ⟨cr, hcr, -⟩
  rw [herror] at hcr
  cases hcr

theorem boundaries_iff_fourContainers : ∃ cr,
    getContainerResourcesForApp doubleArithmetic 4 (cpuMemApp ⟨400, 100⟩ ⟨4, 2⟩) .empty 1 false = .ok cr ∧
      ∀ c ∈ cr.containers, c.BoundariesInRange := by
  have hcpu := cpuMemApp_cpu ⟨400, 100⟩ ⟨4, 2⟩
  refine (boundaries_iff (by norm_num) (by norm_num) hcpu (by decide) (by decide)).2 ?_
  rw [if_pos (by decide), if_neg (by decide +kernel), Dict.forall_get?_iff]
  decide

/-- 23 and 22 of memory in three containers: the irregular one has the boundary -2. -/
example : roundHalfEven (irregularBoundary 3 400 1 "mem" ⟨⟨23, 22⟩, 0, 1⟩) = -2 := by decide +kernel

end

end ServerlessYarn
