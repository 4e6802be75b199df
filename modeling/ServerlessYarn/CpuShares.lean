/-
  ServerlessYARN model — the CPU shares of the containers of an application, exactly
  (`ui/views/apps/utils.py`: `getContainerResourcesForApp`).

  In closed form the share of a regular container is the multiple of 100 nearest
  to an equal part, and the irregular container gets the rest.

  * `splitCpu_eq`: the split of exact arithmetic, in closed form;
  * `cpuSplit_exact`: with an irregular container the shares add up to the
    application's, before and after rounding;
  * `parts_add`: the proportional parts of another limit add up to it.
-/
import Mathlib.Tactic.LinearCombination
import ServerlessYarn.AppSizing

namespace ServerlessYarn

open Rounding

/-! ## The shares -/

/-- `q % 100` -/
def modHundred (q : ℚ) : ℚ := q - 100 * ⌊q / 100⌋

/-- The share of a regular container next to an irregular one, of `total`
    shares: the multiple of 100 nearest to an equal part. -/
def regularShare (number_of_containers total : ℤ) : ℤ :=
  100 * round ((total : ℚ) / number_of_containers / 100)

/-- What `n - 1` regular containers leave. -/
def irregularShare (number_of_containers total : ℤ) : ℤ :=
  total - (number_of_containers - 1) * regularShare number_of_containers total

def irregularType (number_of_containers total : ℤ) : IrregularType :=
  if modHundred (total / number_of_containers) < 50 then .bigger else .smaller

/-- An irregular container is created for `total` shares. -/
def SplitsUnevenly (number_of_containers total : ℤ) (is_hadoop_app : Bool) : Prop :=
  is_hadoop_app = false ∧ modHundred (total / number_of_containers) ≠ 0 ∧
    (modHundred (total / number_of_containers) < 50 → 100 < (total : ℚ) / number_of_containers) ∧
    (50 ≤ modHundred (total / number_of_containers) → 10 ≤ irregularShare number_of_containers total)

instance (n total : ℤ) (is_hadoop_app : Bool) : Decidable (SplitsUnevenly n total is_hadoop_app) :=
  inferInstanceAs (Decidable (_ ∧ _))

theorem modHundred_eq (q : ℚ) : modHundred q = 100 * Int.fract (q / 100) := by
  rw [modHundred, Int.fract]
  ring

theorem modHundred_mem (q : ℚ) : 0 ≤ modHundred q ∧ modHundred q < 100 := by
  rw [modHundred_eq]
  constructor
  · linarith [Int.fract_nonneg (q / 100)]
  · linarith [Int.fract_lt_one (q / 100)]

theorem regularShare_of_lt {n total : ℤ} (h : modHundred (total / n) < 50) :
    (regularShare n total : ℚ) = total / n - modHundred (total / n) := by
  have hr : round ((total : ℚ) / n / 100) = ⌊(total : ℚ) / n / 100⌋ := by
    rw [modHundred_eq] at h
    exact round_of_fract_lt (by linarith)
  rw [regularShare, hr, modHundred]
  push_cast
  ring

theorem regularShare_of_le {n total : ℤ} (h : 50 ≤ modHundred (total / n)) :
    (regularShare n total : ℚ) = total / n + (100 - modHundred (total / n)) := by
  have hr : round ((total : ℚ) / n / 100) = ⌊(total : ℚ) / n / 100⌋ + 1 := by
    rw [modHundred_eq] at h
    exact round_of_le_fract (by linarith)
  rw [regularShare, hr, modHundred]
  push_cast
  ring

theorem irregularShare_of_lt {n total : ℤ} (hn : n ≠ 0) (h : modHundred (total / n) < 50) :
    (irregularShare n total : ℚ) = total / n + modHundred (total / n) * (n - 1) := by
  have hn' : (n : ℚ) ≠ 0 := Int.cast_ne_zero.2 hn
  have ht : (total : ℚ) = n * (total / n) := (mul_div_cancel₀ _ hn').symm
  rw [irregularShare]
  push_cast
  rw [regularShare_of_lt h]
  linear_combination ht

theorem irregularShare_of_le {n total : ℤ} (hn : n ≠ 0) (h : 50 ≤ modHundred (total / n)) :
    (irregularShare n total : ℚ) = total / n - (100 - modHundred (total / n)) * (n - 1) := by
  have hn' : (n : ℚ) ≠ 0 := Int.cast_ne_zero.2 hn
  have ht : (total : ℚ) = n * (total / n) := (mul_div_cancel₀ _ hn').symm
  rw [irregularShare]
  push_cast
  rw [regularShare_of_le h]
  linear_combination ht

/-- The shares add up to the application's. -/
theorem shares_add (n total : ℤ) :
    (n - 1) * regularShare n total + irregularShare n total = total := by
  rw [irregularShare]
  ring

/-- A bigger container has more than 100 shares and more than the regular ones;
    a smaller one at least 10 and fewer than the regular ones. -/
theorem irregularShare_bounds {n total : ℤ} {is_hadoop_app : Bool} (hn : 1 ≤ n)
    (h : SplitsUnevenly n total is_hadoop_app) :
    match irregularType n total with
    | .bigger => 100 < irregularShare n total ∧ regularShare n total < irregularShare n total
    | .smaller => 10 ≤ irregularShare n total ∧ irregularShare n total < regularShare n total := by
  obtain ⟨-, hne, hbig, hsmall⟩ := h
  have hn₀ : n ≠ 0 := by omega
  have hn₁ : (0 : ℚ) ≤ n - 1 := by
    have : (1 : ℚ) ≤ n := by exact_mod_cast hn
    linarith
  have hmod := modHundred_mem ((total : ℚ) / n)
  have hpos : 0 < modHundred ((total : ℚ) / n) := lt_of_le_of_ne hmod.1 (Ne.symm hne)
  by_cases hlt : modHundred ((total : ℚ) / n) < 50
  · have hprod : 0 ≤ modHundred ((total : ℚ) / n) * (n - 1) := mul_nonneg hpos.le hn₁
    have hi := irregularShare_of_lt hn₀ hlt
    have hr := regularShare_of_lt hlt
    have hq := hbig hlt
    rw [irregularType, if_pos hlt]
    refine ⟨?_, ?_⟩
    · have : (100 : ℚ) < irregularShare n total := by linarith
      exact_mod_cast this
    · have : (regularShare n total : ℚ) < irregularShare n total := by linarith
      exact_mod_cast this
  · have hle : 50 ≤ modHundred ((total : ℚ) / n) := not_lt.1 hlt
    have hprod : 0 ≤ (100 - modHundred ((total : ℚ) / n)) * (n - 1) :=
      mul_nonneg (by linarith [hmod.2]) hn₁
    have hi := irregularShare_of_le hn₀ hle
    have hr := regularShare_of_le hle
    rw [irregularType, if_neg hlt]
    refine ⟨hsmall hle, ?_⟩
    have : (irregularShare n total : ℚ) < regularShare n total := by linarith [hmod.2]
    exact_mod_cast this

theorem irregularShare_pos {n total : ℤ} {is_hadoop_app : Bool} (hn : 1 ≤ n)
    (h : SplitsUnevenly n total is_hadoop_app) : 10 ≤ irregularShare n total := by
  have hb := irregularShare_bounds hn h
  rcases ht : irregularType n total with _ | _
  · rw [ht] at hb
    exact (by norm_num : (10 : ℤ) ≤ 100).trans hb.1.le
  · rw [ht] at hb
    exact hb.1

/-- The regular containers keep at least 100 shares. -/
theorem regularShare_pos {n total : ℤ} {is_hadoop_app : Bool} (hn : 1 ≤ n)
    (h : SplitsUnevenly n total is_hadoop_app) : 100 ≤ regularShare n total := by
  have hpos : 0 < regularShare n total := by
    have hb := irregularShare_bounds hn h
    rcases ht : irregularType n total with _ | _
    · have hlt : modHundred ((total : ℚ) / n) < 50 := by
        by_contra hge
        rw [irregularType, if_neg hge] at ht
        cases ht
      have hr := regularShare_of_lt hlt
      have : (0 : ℚ) < regularShare n total := by
        linarith [h.2.2.1 hlt, (modHundred_mem ((total : ℚ) / n)).2]
      exact_mod_cast this
    · rw [ht] at hb
      have := hb.1.trans_lt hb.2
      omega
  rw [regularShare] at hpos ⊢
  omega

theorem total_pos {n total : ℤ} {is_hadoop_app : Bool} (hn : 1 ≤ n)
    (h : SplitsUnevenly n total is_hadoop_app) : 0 < total := by
  have hadd := shares_add n total
  have hr := regularShare_pos hn h
  have hi := irregularShare_pos hn h
  nlinarith

/-! ## The split of exact arithmetic -/

/-- **The CPU split.** An irregular container is created exactly when
    `SplitsUnevenly` holds, and the shares are those of the closed form. -/
theorem splitCpu_eq {n : ℤ} (hn : n ≠ 0) (cpu : OwnedResource) (is_hadoop_app : Bool) {total : ℤ}
    (ht : total = cpu.limits.max - cpu.current) :
    splitCpu exactArithmetic n cpu is_hadoop_app = .ok (if SplitsUnevenly n total is_hadoop_app then
      ⟨regularShare n total, some (irregularType n total, irregularShare n total)⟩
      else ⟨total / n, none⟩) := by
  have hdiv : exactArithmetic.quotient total n = .ok ((total : ℚ) / n) := if_neg hn
  have hmod : exactArithmetic.mod ((total : ℚ) / n) 100 = modHundred (total / n) := rfl
  have hothers : exactArithmetic.ofInt (n - 1) = .ok ((n : ℚ) - 1) := congrArg Except.ok (by push_cast; rfl)
  rw [splitCpu, ← ht, hdiv]
  simp only [bind, Except.bind, pure, Except.pure, hmod, hothers]
  by_cases hzero : modHundred ((total : ℚ) / n) = 0 ∨ is_hadoop_app = true
  · have hno : ¬ SplitsUnevenly n total is_hadoop_app := by
      rintro ⟨h₁, h₂, -⟩
      rcases hzero with h | h
      · exact h₂ h
      · rw [h₁] at h
        cases h
    have htest : (exactArithmetic.eqZero (modHundred ((total : ℚ) / n)) || is_hadoop_app) = true := by
      simpa [exactArithmetic] using hzero
    rw [if_pos htest, if_neg hno]
  have htest : ¬ (exactArithmetic.eqZero (modHundred ((total : ℚ) / n)) || is_hadoop_app) = true := by
    simpa [exactArithmetic] using hzero
  rw [if_neg htest]
  rw [not_or, Bool.not_eq_true] at hzero
  by_cases hlt : modHundred ((total : ℚ) / n) < 50
  · rw [if_pos (by simpa [exactArithmetic] using hlt)]
    by_cases hbig : 100 < (total : ℚ) / n
    · have hyes : SplitsUnevenly n total is_hadoop_app :=
        ⟨hzero.2, hzero.1, fun _ => hbig, fun h => absurd hlt h.not_gt⟩
      rw [if_pos (by simpa [exactArithmetic] using hbig), if_pos hyes, irregularType, if_pos hlt,
        regularShare_of_lt hlt, irregularShare_of_lt hn hlt]
      rfl
    · have hno : ¬ SplitsUnevenly n total is_hadoop_app := fun h => hbig (h.2.2.1 hlt)
      rw [if_neg (by simpa [exactArithmetic] using hbig), if_neg hno]
  · have hle : 50 ≤ modHundred ((total : ℚ) / n) := not_lt.1 hlt
    have hrest : exactArithmetic.sub ((total : ℚ) / n) (exactArithmetic.mul
        (exactArithmetic.sub (exactArithmetic.literal 100) (modHundred (total / n))) ((n : ℚ) - 1)) =
        irregularShare n total := (irregularShare_of_le hn hle).symm
    rw [if_neg (by simpa [exactArithmetic] using hle), hrest]
    by_cases hsmall : 10 ≤ irregularShare n total
    · have hyes : SplitsUnevenly n total is_hadoop_app :=
        ⟨hzero.2, hzero.1, fun h => absurd h hlt, fun _ => hsmall⟩
      have hten : (10 : ℚ) ≤ irregularShare n total := by exact_mod_cast hsmall
      rw [if_pos (by simpa [exactArithmetic] using hten), if_pos hyes, irregularType, if_neg hlt,
        regularShare_of_le hle]
      rfl
    · have hno : ¬ SplitsUnevenly n total is_hadoop_app := fun h => hsmall (h.2.2.2 hle)
      have hten : ¬ (10 : ℚ) ≤ irregularShare n total := by exact_mod_cast hsmall
      rw [if_neg (by simpa [exactArithmetic] using hten), if_neg hno]

/-! ## Exactness -/

def Number.toInt? {F : Type} : Number F → Option ℤ
  | .int z => some z
  | .float _ => none

/-- The `cpu_max` of a container, if it is an `int`. -/
def SizedContainer.cpu_max {F : Type} (c : SizedContainer F) : Option ℤ :=
  (c.get? "cpu").bind fun s => s.limits.max.toInt?

/-- An exact split of `total` shares: the regular containers have a multiple of
    100, the irregular one the rest. -/
structure ExactSplit (n total : ℤ) (t : IrregularType) (regular irregular : ℚ) : Prop where
  total : (n - 1) * regular + irregular = total
  hundreds : ∃ k : ℤ, 0 < k ∧ regular = 100 * k
  bigger : t = .bigger → 100 < irregular ∧ regular < irregular
  smaller : t = .smaller → 10 ≤ irregular ∧ irregular < regular

section
variable {n : ℤ} {app : Dict String OwnedResource} {is_hadoop_app : Bool} {cpu : OwnedResource} {total : ℤ}

theorem exactSplit_shares (hn : 1 ≤ n) (h : SplitsUnevenly n total is_hadoop_app) :
    ExactSplit n total (irregularType n total) (regularShare n total) (irregularShare n total) where
  total := by exact_mod_cast shares_add n total
  hundreds := by
    have hpos := regularShare_pos hn h
    refine ⟨round ((total : ℚ) / n / 100), ?_, ?_⟩
    · rw [regularShare] at hpos
      omega
    · rw [regularShare]
      push_cast
      ring
  bigger := by
    intro ht
    have hb := irregularShare_bounds hn h
    rw [ht] at hb
    exact_mod_cast hb
  smaller := by
    intro ht
    have hb := irregularShare_bounds hn h
    rw [ht] at hb
    exact_mod_cast hb

/-- The rounded `cpu_max` of a sized container. -/
theorem Finished.cpu_max {F : Type} {a : Arithmetic F} {app_limits : Dict String (AppLimit F)}
    {benevolence : ℤ} {m : MaxMin (Number F)} {s : SizedResource F} {c : SizedContainer F}
    (hs : c.get? "cpu" = some s) (h : Finished a app_limits benevolence "cpu" cpu m s) :
    ∃ z, a.round m.max = .ok z ∧ c.cpu_max = some z := by
  have hround := h.limits
  simp only [roundCpuMax, if_true, bind_eq_ok, pure_eq_ok] at hround
  obtain ⟨z, hz, hlimits⟩ := hround
  refine ⟨z, hz, ?_⟩
  rw [SizedContainer.cpu_max, hs, Option.bind_some, ← hlimits]
  rfl

/-- The maximum of the CPU is not adjusted. -/
theorem unevenLimits_cpu_max {F : Type} {a : Arithmetic F} {app_cpu_max : ℤ} {cpu_max : Split F}
    {m : MaxMin (Split (Number F))} (h : unevenLimits a n app_cpu_max cpu_max "cpu" cpu = .ok m) :
    m.max = ⟨.float cpu_max.regular, .float cpu_max.irregular⟩ := by
  simp only [unevenLimits, scaleResource, adjustResource, if_true, bind_eq_ok, pure_eq_ok,
    exists_eq_left'] at h
  obtain ⟨v, ⟨min, -, rfl⟩, min', -, rfl⟩ := h
  rfl

/-- **Splitting CPU is exact.** Whenever an irregular container is created, the
    shares add up to `max - current`, before and after the final rounding, and
    each container has the size of its type. -/
theorem cpuSplit_exact (hn : 1 ≤ n) (hcpu : app.get? "cpu" = some cpu) :
    (∀ s t irregular, splitCpu exactArithmetic n cpu is_hadoop_app = .ok s →
      s.irregular = some (t, irregular) →
      ExactSplit n (cpu.limits.max - cpu.current) t s.regular irregular) ∧
    (∀ app_limits benevolence cr t irregular,
      getContainerResourcesForApp exactArithmetic n app app_limits benevolence is_hadoop_app = .ok cr →
      cr.irregular = some (t, irregular) →
      ∃ r i : ℤ, cr.regular.cpu_max = some r ∧ irregular.cpu_max = some i ∧
        ExactSplit n (cpu.limits.max - cpu.current) t r i) := by
  have hsplit := splitCpu_eq (by omega) cpu is_hadoop_app (n := n) rfl
  constructor
  · intro s t irregular hs hirr
    rw [hsplit, Except.ok.injEq] at hs
    subst hs
    by_cases h : SplitsUnevenly n (cpu.limits.max - cpu.current) is_hadoop_app
    · rw [if_pos h] at hirr ⊢
      cases hirr
      exact exactSplit_shares hn h
    · rw [if_neg h] at hirr
      cases hirr
  · intro app_limits benevolence cr t irregular hcr hirr
    by_cases h : SplitsUnevenly n (cpu.limits.max - cpu.current) is_hadoop_app
    · rw [if_pos h] at hsplit
      obtain ⟨other, hother, hget⟩ := sizing_uneven hcpu hsplit hcr
      rw [hirr, Option.some.injEq, Prod.mk.injEq] at hother
      obtain ⟨rfl, rfl⟩ := hother
      obtain ⟨m, hm, ⟨s, hs, hfin⟩, s', hs', hfin'⟩ := hget "cpu" cpu hcpu
      have hmax := unevenLimits_cpu_max hm
      obtain ⟨r, hr, hcpu_max⟩ := hfin.cpu_max hs
      obtain ⟨i, hi, hcpu_max'⟩ := hfin'.cpu_max hs'
      refine ⟨r, i, hcpu_max, hcpu_max', ?_⟩
      rw [MaxMin.map, hmax] at hr hi
      have hround : ∀ z : ℤ, exactArithmetic.round (.float (z : ℚ)) = .ok z := fun z =>
        congrArg Except.ok (roundHalfEven_intCast z)
      obtain rfl := Except.ok.inj ((hround _).symm.trans hr)
      obtain rfl := Except.ok.inj ((hround _).symm.trans hi)
      exact exactSplit_shares hn h
    · rw [if_neg h] at hsplit
      rw [(sizing_even hcpu hsplit hcr).1] at hirr
      cases hirr

/-- 400 shares in three containers: 100, 100 and 200. -/
theorem cpuSplit_exact_threeContainers :
    ∃ s, splitCpu exactArithmetic 3 ⟨⟨400, 100⟩, 0, 1⟩ false = .ok s ∧
      s.irregular = some (.bigger, 200) ∧ ExactSplit 3 (400 - 0) .bigger s.regular 200 := by
  obtain ⟨s, hs, hirr⟩ : ∃ s, splitCpu exactArithmetic 3 ⟨⟨400, 100⟩, 0, 1⟩ false = .ok s ∧
      s.irregular = some (.bigger, 200) := by
    refine ⟨⟨100, some (.bigger, 200)⟩, ?_, rfl⟩
    decide +kernel
  have hcpu := cpuMemApp_cpu ⟨400, 100⟩ ⟨10, 9⟩
  exact ⟨s, hs, hirr, (cpuSplit_exact (by norm_num) hcpu).1 s .bigger 200 hs hirr⟩

end

/-! ## Proportional parts -/

/-- The part of a limit that a regular container gets in proportion to its CPU,
    next to an irregular one. -/
def regularPart (n total limit : ℤ) : ℚ := regularShare n total * limit / total

/-- The part of the irregular container. -/
def irregularPart (n total limit : ℤ) : ℚ := irregularShare n total * limit / total

theorem parts_add {total : ℤ} (ht : total ≠ 0) (n limit : ℤ) :
    (n - 1) * regularPart n total limit + irregularPart n total limit = limit := by
  have ht' : (total : ℚ) ≠ 0 := Int.cast_ne_zero.2 ht
  have hadd : ((n : ℚ) - 1) * regularShare n total + irregularShare n total = total := by
    exact_mod_cast shares_add n total
  rw [regularPart, irregularPart, mul_div_assoc', ← add_div, div_eq_iff ht']
  linear_combination (limit : ℚ) * hadd

section
variable {n total limit : ℤ} {is_hadoop_app : Bool}

theorem regularPart_pos (hn : 1 ≤ n) (h : SplitsUnevenly n total is_hadoop_app) (hl : 0 < limit) :
    0 < regularPart n total limit := by
  have ht : (0 : ℚ) < total := by exact_mod_cast total_pos hn h
  have hr : (0 : ℚ) < regularShare n total := by exact_mod_cast (by have := regularShare_pos hn h; omega)
  have hl' : (0 : ℚ) < limit := by exact_mod_cast hl
  exact div_pos (mul_pos hr hl') ht

theorem irregularPart_pos (hn : 1 ≤ n) (h : SplitsUnevenly n total is_hadoop_app) (hl : 0 < limit) :
    0 < irregularPart n total limit := by
  have ht : (0 : ℚ) < total := by exact_mod_cast total_pos hn h
  have hi : (0 : ℚ) < irregularShare n total := by exact_mod_cast (by have := irregularShare_pos hn h; omega)
  have hl' : (0 : ℚ) < limit := by exact_mod_cast hl
  exact div_pos (mul_pos hi hl') ht

end

end ServerlessYarn
