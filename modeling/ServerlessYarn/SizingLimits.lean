/-
  ServerlessYARN model — the limits of the sized containers: their totals and
  their registration (`ui/views/apps/utils.py`: `getContainerResourcesForApp`;
  `operations.py`: `processStartApp`; `state_database/add_containers.py`).

  Next to an irregular container every limit is adjusted to integers, unless a
  guard fails: then both containers keep fractions.  `processStartApp` passes
  the limits on as texts, and the registration reads them back with `int`.

  * `limits_conserved_iff`: the limits of the containers add up to the
    application's, except where a regular one is rounded from a half down to an
    even integer, or where the fractions of doubles do not;
  * `limits_registrable_iff`: every limit is an integer, and the registration of
    every container reads its limits, when the guards of all limits hold.
-/
import ServerlessYarn.RoundedLimits

namespace ServerlessYarn

open Binary64 Rounding

/-! ## Limits of the containers -/

/-- `container[f"{resource}_{limit}"]`. -/
def SizedContainer.limit {F : Type} (c : SizedContainer F) (resource : String) (l : LimitKey) :
    Option (Number F) := (c.get? resource).map fun s => s.limits.at l

theorem limit_of_get? {F : Type} {c : SizedContainer F} {resource : String} {s : SizedResource F}
    (hs : c.get? resource = some s) (l : LimitKey) : c.limit resource l = some (s.limits.at l) := by
  rw [SizedContainer.limit, hs, Option.map_some]

section
variable {F : Type} {a : Arithmetic F} {n : ℤ} {resource : String} {l : LimitKey}

/-- Only the maximum of the CPU is rounded in the end. -/
theorem roundCpuMax_at {m m' : MaxMin (Number F)} (h : roundCpuMax a resource m = .ok m')
    (hne : (resource, l) ≠ ("cpu", LimitKey.max)) : m'.at l = m.at l := by
  rw [roundCpuMax] at h
  split at h
  · next hcpu =>
    simp only [bind_eq_ok, pure_eq_ok] at h
    obtain ⟨z, -, rfl⟩ := h
    cases l with
    | max => exact absurd (by rw [hcpu]) hne
    | min => rfl
  · cases h
    rfl

theorem roundCpuMax_isInt {m m' : MaxMin (Number F)} (h : roundCpuMax a "cpu" m = .ok m') :
    m'.max.isInt = true := by
  simp only [roundCpuMax, if_true, bind_eq_ok, pure_eq_ok] at h
  obtain ⟨z, -, rfl⟩ := h
  rfl

/-- The last loop leaves the other limits as they are. -/
theorem roundCpuMax_isInt_iff {m m' : MaxMin (Number F)} (h : roundCpuMax a resource m = .ok m') :
    (∀ l, (m'.at l).isInt = true) ↔
      ∀ l, (resource, l) ≠ ("cpu", LimitKey.max) → (m.at l).isInt = true := by
  refine forall_congr' fun l => ?_
  by_cases hne : (resource, l) = ("cpu", LimitKey.max)
  · rw [Prod.mk.injEq] at hne
    obtain ⟨rfl, rfl⟩ := hne
    exact iff_of_true (roundCpuMax_isInt h) fun hne => absurd rfl hne
  · rw [roundCpuMax_at h hne, forall_prop_of_true hne]

/-- Without an irregular container the limits are truncated. -/
theorem divideResource_isInt {cpu_max : F} {r : OwnedResource} {m : MaxMin (Number F)}
    (h : divideResource a n cpu_max resource r = .ok m) (hne : (resource, l) ≠ ("cpu", LimitKey.max)) :
    (m.at l).isInt = true := by
  simp only [divideResource, bind_eq_ok] at h
  obtain ⟨q, -, min, -, h⟩ := h
  split at h
  · next hcpu =>
    cases h
    cases l with
    | max => exact absurd (by rw [hcpu]) hne
    | min => rfl
  · simp only [bind_eq_ok, pure_eq_ok] at h
    obtain ⟨q', -, max, -, rfl⟩ := h
    cases l <;> rfl

/-- Next to one, all others than the maximum of the CPU are scaled and adjusted. -/
theorem unevenLimits_at {app_cpu_max : ℤ} {cpu_max : Split F} {r : OwnedResource}
    {m : MaxMin (Split (Number F))} (h : unevenLimits a n app_cpu_max cpu_max resource r = .ok m)
    (hne : (resource, l) ≠ ("cpu", LimitKey.max)) :
    ∃ v, scaleLimit a app_cpu_max cpu_max (r.limits.at l) = .ok v ∧ adjustLimit a n v = .ok (m.at l) := by
  by_cases hcpu : resource = "cpu"
  · simp only [unevenLimits, scaleResource, adjustResource, if_pos hcpu, bind_eq_ok, pure_eq_ok] at h
    obtain ⟨scaled, ⟨v, -, w, hw, rfl⟩, s, -, s', hs', rfl⟩ := h
    cases l with
    | max => exact absurd (by rw [hcpu]) hne
    | min => exact ⟨w, hw, hs'⟩
  · simp only [unevenLimits, scaleResource, adjustResource, if_neg hcpu, bind_eq_ok, pure_eq_ok] at h
    obtain ⟨scaled, ⟨v, hv, w, hw, rfl⟩, s, hs, s', hs', rfl⟩ := h
    cases l with
    | max => exact ⟨v, hv, hs⟩
    | min => exact ⟨w, hw, hs'⟩

end

/-- An application of positive limits that uses nothing of them. -/
def PositiveApp (app : Dict String OwnedResource) : Prop :=
  ∀ resource a, app.get? resource = some a → 0 < a.limits.max ∧ 0 < a.limits.min ∧ a.current = 0

instance (app : Dict String OwnedResource) : Decidable (PositiveApp app) :=
  decidable_of_iff' _ Dict.forall_get?_iff

theorem PositiveApp.limit_pos {app : Dict String OwnedResource} (hpos : PositiveApp app)
    {resource : String} {a : OwnedResource} (ha : app.get? resource = some a) (l : LimitKey) :
    0 < a.limits.at l := by
  obtain ⟨hmax, hmin, -⟩ := hpos resource a ha
  cases l
  · exact hmax
  · exact hmin

/-- All of the CPU can be split. -/
theorem PositiveApp.total_eq {app : Dict String OwnedResource} (hpos : PositiveApp app)
    {cpu : OwnedResource} (hcpu : app.get? "cpu" = some cpu) :
    cpu.limits.max = cpu.limits.max - cpu.current := by
  rw [(hpos _ _ hcpu).2.2, sub_zero]

/-- A limit in proportion to the shares of both types of containers. -/
def scaledLimit (n total limit : ℤ) : Py (Split Double) :=
  scaleLimit doubleArithmetic total ⟨regularInDoubles n total, restInDoubles n total⟩ limit

section
variable {n : ℤ} {app : Dict String OwnedResource} {app_limits : Dict String (AppLimit Double)}
  {benevolence : ℤ} {is_hadoop_app : Bool} {cr : Sizing Double} {cpu : OwnedResource}

/-- The shares that are sized. -/
theorem splitCpu_sized (hn : 1 ≤ n) (hcpu : app.get? "cpu" = some cpu) (hpos : PositiveApp app)
    (hcr : getContainerResourcesForApp doubleArithmetic n app app_limits benevolence is_hadoop_app
      = .ok cr) :
    splitCpu doubleArithmetic n cpu is_hadoop_app
      = .ok (splitInDoubles n cpu.limits.max is_hadoop_app) := by
  obtain ⟨s, hs⟩ := splitCpu_of_sizing hcpu hcr
  rw [hs, splitCpu_of_ok hn (hpos _ _ hcpu).1 (hpos.total_eq hcpu) hs]

theorem splitCpu_uneven (h : SplitsInDoubles n cpu.limits.max is_hadoop_app)
    (hs : splitCpu doubleArithmetic n cpu is_hadoop_app
      = .ok (splitInDoubles n cpu.limits.max is_hadoop_app)) :
    ∃ t, splitCpu doubleArithmetic n cpu is_hadoop_app =
      .ok ⟨regularInDoubles n cpu.limits.max, some (t, restInDoubles n cpu.limits.max)⟩ := by
  rw [splitInDoubles, if_pos h] at hs
  exact ⟨_, hs⟩

theorem splitCpu_even (h : ¬ SplitsInDoubles n cpu.limits.max is_hadoop_app)
    (hs : splitCpu doubleArithmetic n cpu is_hadoop_app
      = .ok (splitInDoubles n cpu.limits.max is_hadoop_app)) :
    splitCpu doubleArithmetic n cpu is_hadoop_app
      = .ok ⟨.finite (equalPart n cpu.limits.max), none⟩ := by
  rw [hs, splitInDoubles, if_neg h]

theorem limits_of_uneven (hn : 1 ≤ n) (hcpu : app.get? "cpu" = some cpu) (hpos : PositiveApp app)
    (h : SplitsInDoubles n cpu.limits.max is_hadoop_app)
    (hcr : getContainerResourcesForApp doubleArithmetic n app app_limits benevolence is_hadoop_app
      = .ok cr) :
    ∃ t other, cr.irregular = some (t, other) ∧
      ∀ resource a l, app.get? resource = some a → (resource, l) ≠ ("cpu", LimitKey.max) →
        ∃ v s, scaledLimit n cpu.limits.max (a.limits.at l) = .ok v ∧
          adjustLimit doubleArithmetic n v = .ok s ∧ cr.regular.limit resource l = some s.regular ∧
          other.limit resource l = some s.irregular := by
  obtain ⟨t, hs⟩ := splitCpu_uneven h (splitCpu_sized hn hcpu hpos hcr)
  obtain ⟨other, hirr, hget⟩ := sizing_uneven hcpu hs hcr
  refine ⟨t, other, hirr, fun resource a l ha hne => ?_⟩
  obtain ⟨m, hm, ⟨s, hs, hfin⟩, s', hs', hfin'⟩ := hget resource a ha
  obtain ⟨v, hv, hadj⟩ := unevenLimits_at hm hne
  refine ⟨v, m.at l, hv, hadj, ?_, ?_⟩
  · rw [limit_of_get? hs, roundCpuMax_at hfin.limits hne, MaxMin.at_map]
  · rw [limit_of_get? hs', roundCpuMax_at hfin'.limits hne, MaxMin.at_map]

/-- An irregular container is only there if the split is uneven. -/
theorem splitsInDoubles_of_irregular (hn : 1 ≤ n) (hcpu : app.get? "cpu" = some cpu)
    (hpos : PositiveApp app)
    (hcr : getContainerResourcesForApp doubleArithmetic n app app_limits benevolence is_hadoop_app
      = .ok cr)
    (hirr : cr.irregular.isSome) : SplitsInDoubles n cpu.limits.max is_hadoop_app := by
  by_contra h
  rw [(sizing_even hcpu (splitCpu_even h (splitCpu_sized hn hcpu hpos hcr)) hcr).1] at hirr
  cases hirr

/-! ## Totals -/

/-- The exact value of a number, if it is finite. -/
def Number.value? : Number Double → Option ℚ
  | .int z => some z
  | .float (.finite q) => some q
  | .float _ => none

/-- The limits of `n - 1` regular containers and of the irregular one add up to `limit`. -/
def Split.Adds (n limit : ℤ) (s : Split (Number Double)) : Prop :=
  ∃ x y, s.regular.value? = some x ∧ s.irregular.value? = some y ∧ (n - 1) * x + y = limit

/-- An adjusted limit is not rounded from a half down to an even integer, while the
    irregular container pays for rounding it up; parts that are not adjusted add up. -/
def KeepsTotal (n total limit : ℤ) : Prop :=
  (AdjustsInDoubles n total limit → ¬ HalfAboveEven (regularQuotient n total limit)) ∧
    (¬ AdjustsInDoubles n total limit →
      (n - 1) * regularQuotient n total limit + irregularQuotient n total limit = limit)

instance (n total limit : ℤ) : Decidable (KeepsTotal n total limit) :=
  inferInstanceAs (Decidable (_ ∧ _))

theorem SplitsInDoubles.smallLimit {total limit : ℤ} (h : SplitsInDoubles n total is_hadoop_app)
    (hn : 1 ≤ n) (ht : 0 < total) (hle : total ≤ 2 ^ 40) (hl : 0 < limit) (hle' : limit ≤ 2 ^ 40) :
    SmallLimit n total limit where
  toSmallSplit := h.small hn ht hle
  splits := by
    obtain ⟨rfl, h'⟩ := id h
    exact h
  limit_pos := hl
  limit_le := hle'

namespace SmallLimit
variable {total limit : ℤ} (h : SmallLimit n total limit)
include h

theorem scaledLimit_eq : scaledLimit n total limit =
    .ok ⟨.finite (regularQuotient n total limit), .finite (irregularQuotient n total limit)⟩ := by
  rw [scaledLimit, h.regularInDoubles_eq, h.restInDoubles_eq, h.scaleLimit_eq]

end SmallLimit

theorem splitLimit_adds_iff {total limit : ℤ} (hn : 2 ≤ n) :
    (splitLimit n total limit).Adds n limit ↔ KeepsTotal n total limit := by
  by_cases hadj : AdjustsInDoubles n total limit
  · have hn' : n - 1 ≠ 0 := by omega
    have hround : (n - 1) * roundHalfEven (regularQuotient n total limit) +
        (limit - (n - 1) * round (regularQuotient n total limit)) = limit ↔
        roundHalfEven (regularQuotient n total limit) = round (regularQuotient n total limit) := by
      rw [add_sub_left_comm, add_eq_left, sub_eq_zero, mul_right_inj' hn']
    rw [KeepsTotal, and_iff_left fun h => absurd hadj h, forall_prop_of_true hadj,
      ← roundHalfEven_eq_round_iff, ← hround, splitLimit, if_pos hadj]
    simp only [Split.Adds, Number.value?, Option.some.injEq, exists_and_left, exists_eq_left']
    exact_mod_cast Iff.rfl
  · rw [KeepsTotal, and_iff_right fun h => absurd h hadj, forall_prop_of_true hadj, splitLimit,
      if_neg hadj]
    simp only [Split.Adds, Number.value?, Option.some.injEq, exists_and_left, exists_eq_left']

/-- **When rescaling conserves the totals.** The limits of the `n - 1` regular
    containers and of the irregular one add up to the application's exactly when no
    adjusted limit loses a half and the fractions of the others add up; beyond 2^40,
    when the scaled and adjusted doubles do. -/
theorem limits_conserved_iff (hn : 2 ≤ n) (hcpu : app.get? "cpu" = some cpu) (hpos : PositiveApp app)
    (hcr : getContainerResourcesForApp doubleArithmetic n app app_limits benevolence is_hadoop_app
      = .ok cr)
    {t : IrregularType} {irregular : SizedContainer Double} (hirr : cr.irregular = some (t, irregular)) :
    (∀ resource a l, app.get? resource = some a → (resource, l) ≠ ("cpu", LimitKey.max) →
      ∃ x y, cr.regular.limit resource l = some x ∧ irregular.limit resource l = some y ∧
        Split.Adds n (a.limits.at l) ⟨x, y⟩) ↔
    ∀ resource a l, app.get? resource = some a → (resource, l) ≠ ("cpu", LimitKey.max) →
      if cpu.limits.max ≤ 2 ^ 40 ∧ a.limits.at l ≤ 2 ^ 40 then
        KeepsTotal n cpu.limits.max (a.limits.at l)
      else ∃ v s, scaledLimit n cpu.limits.max (a.limits.at l) = .ok v ∧
        adjustLimit doubleArithmetic n v = .ok s ∧ s.Adds n (a.limits.at l) := by
  have h := splitsInDoubles_of_irregular (by omega) hcpu hpos hcr (by rw [hirr]; rfl)
  obtain ⟨t', irregular', hirr', hlimits⟩ := limits_of_uneven (by omega) hcpu hpos h hcr
  rw [hirr, Option.some.injEq, Prod.mk.injEq] at hirr'
  obtain ⟨-, rfl⟩ := hirr'
  refine forall_congr' fun resource => forall_congr' fun a => forall_congr' fun l =>
    forall_congr' fun ha => forall_congr' fun hne => ?_
  obtain ⟨v, s, hv, hs, hx, hy⟩ := hlimits resource a l ha hne
  have hadds : (∃ x y, cr.regular.limit resource l = some x ∧ irregular.limit resource l = some y ∧
      Split.Adds n (a.limits.at l) ⟨x, y⟩) ↔ s.Adds n (a.limits.at l) := by
    simp only [hx, hy, Option.some.injEq, exists_and_left, exists_eq_left']
  rw [hadds]
  split
  · next hsmall =>
    have hl := h.smallLimit (by omega) (hpos _ _ hcpu).1 hsmall.1 (hpos.limit_pos ha l) hsmall.2
    rw [hl.scaledLimit_eq, Except.ok.injEq] at hv
    rw [← hv, hl.adjustLimit_eq, Except.ok.injEq] at hs
    rw [← hs, splitLimit_adds_iff hn]
  · simp only [hv, hs, Except.ok.injEq, exists_eq_left', exists_and_left]

/-- 400 shares and 10 of memory in three containers: a regular one gets 100
    shares and `round(2.5) = 2`, the irregular one pays for 3. -/
theorem halfLost_threeContainers : ∃ cr t irregular,
    getContainerResourcesForApp doubleArithmetic 3 (cpuMemApp ⟨400, 100⟩ ⟨10, 4⟩) .empty 1 false = .ok cr ∧
      cr.irregular = some (t, irregular) ∧
      cr.regular.limit "mem" .max = some (.int 2) ∧ irregular.limit "mem" .max = some (.int 4) ∧
      ¬ ∀ resource a l, (cpuMemApp ⟨400, 100⟩ ⟨10, 4⟩).get? resource = some a →
        (resource, l) ≠ ("cpu", LimitKey.max) → ∃ x y, cr.regular.limit resource l = some x ∧
          irregular.limit resource l = some y ∧ Split.Adds 3 (a.limits.at l) ⟨x, y⟩ := by
  obtain ⟨cr, hcr⟩ := exists_eq_ok (x := getContainerResourcesForApp doubleArithmetic 3
    (cpuMemApp ⟨400, 100⟩ ⟨10, 4⟩) .empty 1 false) (by decide +kernel)
  obtain ⟨t, irregular, hirr, hlimits⟩ := limits_of_uneven (by norm_num) (cpuMemApp_cpu _ _)
    (by decide) (by decide +kernel) hcr
  have hmem := cpuMemApp_mem ⟨400, 100⟩ ⟨10, 4⟩
  obtain ⟨v, s, hv, hs, hx, hy⟩ := hlimits "mem" _ .max hmem (by decide)
  have hsized : (scaledLimit 3 400 10 >>= adjustLimit doubleArithmetic 3) = .ok ⟨.int 2, .int 4⟩ := by
    decide +kernel
  obtain ⟨v', hv', hs'⟩ := bind_eq_ok.1 hsized
  obtain rfl : v' = v := Except.ok.inj (hv'.symm.trans hv)
  obtain rfl : _ = s := Except.ok.inj (hs'.symm.trans hs)
  refine ⟨cr, t, irregular, hcr, hirr, hx, hy, fun hall => ?_⟩
  have hadds := (limits_conserved_iff (by norm_num) (cpuMemApp_cpu _ _) (by decide) hcr hirr).1 hall
    "mem" _ .max hmem (by decide)
  rw [if_pos (by decide)] at hadds
  revert hadds
  decide +kernel

/-- 8 of memory in the same containers: 2, 2 and 4. -/
theorem limits_conserved_iff_threeContainers : ∃ cr t irregular,
    getContainerResourcesForApp doubleArithmetic 3 (cpuMemApp ⟨400, 100⟩ ⟨8, 4⟩) .empty 1 false = .ok cr ∧
      cr.irregular = some (t, irregular) ∧
      ∀ resource a l, (cpuMemApp ⟨400, 100⟩ ⟨8, 4⟩).get? resource = some a →
        (resource, l) ≠ ("cpu", LimitKey.max) → ∃ x y, cr.regular.limit resource l = some x ∧
          irregular.limit resource l = some y ∧ Split.Adds 3 (a.limits.at l) ⟨x, y⟩ := by
  obtain ⟨cr, hcr⟩ := exists_eq_ok (x := getContainerResourcesForApp doubleArithmetic 3
    (cpuMemApp ⟨400, 100⟩ ⟨8, 4⟩) .empty 1 false) (by decide +kernel)
  have hpos : PositiveApp (cpuMemApp ⟨400, 100⟩ ⟨8, 4⟩) := by decide
  have hcpu := cpuMemApp_cpu ⟨400, 100⟩ ⟨8, 4⟩
  obtain ⟨t, irregular, hirr, -⟩ := limits_of_uneven (by norm_num) hcpu hpos (by decide +kernel) hcr
  refine ⟨cr, t, irregular, hcr, hirr,
    (limits_conserved_iff (by norm_num) hcpu hpos hcr hirr).2 fun resource a l ha _ => ?_⟩
  have hall : ∀ e ∈ (cpuMemApp ⟨400, 100⟩ ⟨8, 4⟩).entries, ∀ l ∈ [LimitKey.max, LimitKey.min],
      e.2.limits.at l ≤ 2 ^ 40 ∧ KeepsTotal 3 400 (e.2.limits.at l) := by decide +kernel
  obtain ⟨hle, hkeeps⟩ := hall _ (Dict.get?_eq_some_iff.1 ha) l (by cases l <;> decide)
  rw [if_pos ⟨by decide, hle⟩]
  exact hkeeps

/-- 58 of memory in the same containers: the part of a regular one is 14.5, but a double
    above it, rounded to 15. -/
example : HalfAboveEven (regularPart 3 400 58) ∧ KeepsTotal 3 400 58 := by decide +kernel

end

/-! ## Texts

`processStartApp` stores `str` of every number; `add_containers.py` reads the
limits back with `int`. -/

/-- How `str` writes a `float`: with a point or an exponent, or as `inf` or `nan`. -/
structure FloatRepr where
  text : Double → String
  marked : ∀ x, '.' ∈ (text x).toList ∨ 'e' ∈ (text x).toList ∨ 'n' ∈ (text x).toList

/-- The first decimals of a fraction, without trailing zeros. -/
def decimals (q : ℚ) : ℕ → List Char
  | 0 => []
  | k + 1 => Nat.digitChar ⌊10 * q⌋.toNat ::
      if Int.fract (10 * q) = 0 then [] else decimals (Int.fract (10 * q)) k

/-- Positional notation with at most 17 decimals. -/
def decimalText : Double → String
  | .finite q => String.ofList ((if q < 0 then ['-'] else []) ++ (toString ⌊|q|⌋).toList ++
      '.' :: decimals (Int.fract |q|) 17)
  | .infinite negative => if negative then "-inf" else "inf"
  | .nan => "nan"

def FloatRepr.decimal : FloatRepr where
  text := decimalText
  marked
    | .finite q => by simp [decimalText]
    | .infinite true | .infinite false | .nan => by decide

/-- `str(x)`. -/
def pyStr (float_repr : FloatRepr) : Number Double → String
  | .int z => toString z
  | .float x => float_repr.text x

/-- `int(s)`: a sign and digits.  (Blanks and underscores, which `int` also
    takes, are never written by `str`.) -/
def intOfText (s : String) : Py ℤ :=
  match s.toList with
  | '-' :: ds => (pyInt ds).map fun n : ℕ => -(n : ℤ)
  | '+' :: ds => (pyInt ds).map fun n : ℕ => (n : ℤ)
  | ds => (pyInt ds).map fun n : ℕ => (n : ℤ)

theorem pyInt_of_mem {ds : List Char} {c : Char} (hc : c ∈ ds) (hd : c.isDigit = false) :
    pyInt ds = .error .valueError := by
  refine if_neg fun h => ?_
  rw [List.all_eq_true.1 h.2 c hc] at hd
  cases hd

theorem intOfText_repr (n : ℕ) : intOfText n.repr = .ok n := by
  have hdigits : ∀ c ∈ n.repr.toList, c.isDigit = true := by
    rw [Nat.toList_repr]
    exact fun c hc => Nat.isDigit_of_mem_toDigits (by decide) (by decide) hc
  have hread : pyInt n.repr.toList = .ok n := by rw [Nat.toList_repr, pyInt_toDigits]
  rw [intOfText]
  split
  · next ds h =>
    rw [h] at hdigits
    exact absurd (hdigits '-' List.mem_cons_self) (by decide)
  · next ds h =>
    rw [h] at hdigits
    exact absurd (hdigits '+' List.mem_cons_self) (by decide)
  · rw [hread]
    rfl

theorem intOfText_minus_repr (n : ℕ) : intOfText ("-" ++ n.repr) = .ok (-n) := by
  have hlist : ("-" ++ n.repr).toList = '-' :: Nat.toDigits 10 n := by
    rw [String.toList_append, Nat.toList_repr]
    rfl
  rw [intOfText, hlist]
  change (pyInt (Nat.toDigits 10 n)).map _ = _
  rw [pyInt_toDigits]
  rfl

/-- What `str` writes for an `int`, `int` reads back. -/
theorem intOfText_toString (z : ℤ) : intOfText (toString z) = .ok z := by
  rw [Int.toString_eq_repr, Int.repr_eq_if]
  by_cases h : 0 ≤ z
  · rw [if_pos h, intOfText_repr, Int.toNat_of_nonneg h]
  · rw [if_neg h, intOfText_minus_repr, Int.toNat_of_nonneg (by omega), neg_neg]

/-- A text with a character that is no digit is no integer. -/
theorem intOfText_of_mem {s : String} {c : Char} (hc : c ∈ s.toList) (hd : c.isDigit = false)
    (hm : c ≠ '-') (hp : c ≠ '+') : intOfText s = .error .valueError := by
  rw [intOfText]
  split
  · next ds h =>
    rw [h] at hc
    rw [pyInt_of_mem ((List.mem_cons.1 hc).resolve_left hm) hd]
    rfl
  · next ds h =>
    rw [h] at hc
    rw [pyInt_of_mem ((List.mem_cons.1 hc).resolve_left hp) hd]
    rfl
  · rw [pyInt_of_mem hc hd]
    rfl

/-- **Texts of numbers.** `int` reads the text of a number exactly when the
    number is an `int`. -/
theorem intOfText_pyStr_iff (float_repr : FloatRepr) (x : Number Double) :
    (∃ z, intOfText (pyStr float_repr x) = .ok z) ↔ x.isInt = true := by
  cases x with
  | int z => exact iff_of_true ⟨z, intOfText_toString z⟩ rfl
  | float x =>
    have hfail : intOfText (float_repr.text x) = .error .valueError := by
      rcases float_repr.marked x with h | h | h
      · exact intOfText_of_mem h (by decide) (by decide) (by decide)
      · exact intOfText_of_mem h (by decide) (by decide) (by decide)
      · exact intOfText_of_mem h (by decide) (by decide) (by decide)
    refine iff_of_false ?_ Bool.noConfusion
    rintro ⟨z, hz⟩
    rw [pyStr, hfail] at hz
    cases hz

/-! ## Registration -/

/-- The resources `add_containers.py` registers for a container: `energy` with
    power budgeting, the bandwidths if the container has a disk. -/
def contResources (power_budgeting disk : Bool) : List String :=
  ["cpu", "mem"] ++ (if power_budgeting then ["energy"] else []) ++
    if disk then ["disk_read", "disk_write"] else []

/-- `put_field_data['container']['resources'][resource]`. -/
structure RegisteredResource where
  max : ℤ
  current : ℤ
  min : ℤ
deriving DecidableEq

def registerResource (cont : Dict String (MaxMin String)) (resource : String) : Py RegisteredResource := do
  let texts ← getItem cont resource
  let max ← intOfText texts.max
  let current ← intOfText (if resource = "energy" then texts.max else texts.min)
  let min ← intOfText texts.min
  return ⟨max, current, min⟩

/-- The limits of a container, read by `add_containers.py`. -/
def registerLimits (power_budgeting disk : Bool) (cont : Dict String (MaxMin String)) :
    Py (List RegisteredResource) :=
  (contResources power_budgeting disk).mapM (registerResource cont)

/-- `{x: str(y) for x, y in container_resources[container_type].items()}`. -/
def SizedContainer.texts (float_repr : FloatRepr) (c : SizedContainer Double) : Dict String (MaxMin String) :=
  c.mapVal fun _ s => s.limits.map (pyStr float_repr)

/-- Every limit is an `int`. -/
def SizedContainer.Integral (c : SizedContainer Double) : Prop :=
  ∀ resource s l, c.get? resource = some s → (s.limits.at l).isInt = true

/-- The registration of a container reads its limits, whichever it looks for. -/
def SizedContainer.Registers (float_repr : FloatRepr) (c : SizedContainer Double) : Prop :=
  ∀ power_budgeting disk, (∀ resource ∈ contResources power_budgeting disk, resource ∈ c.keys) →
    ∃ rs, registerLimits power_budgeting disk (c.texts float_repr) = .ok rs

theorem SizedContainer.Integral.registers {c : SizedContainer Double} (h : c.Integral) (float_repr : FloatRepr) :
    c.Registers float_repr := by
  intro power_budgeting disk hkeys
  refine mapM_ok fun resource hmem => ?_
  obtain ⟨s, hs⟩ := Dict.mem_keys_iff.1 (hkeys resource hmem)
  have htexts : (c.texts float_repr).get? resource = some (s.limits.map (pyStr float_repr)) := by
    rw [texts, Dict.get?_mapVal, hs, Option.map_some]
  have hread (l : LimitKey) : ∃ z, intOfText (pyStr float_repr (s.limits.at l)) = .ok z :=
    (intOfText_pyStr_iff float_repr _).2 (h resource s l hs)
  obtain ⟨max, hmax⟩ := hread .max
  obtain ⟨min, hmin⟩ := hread .min
  refine ⟨⟨max, if resource = "energy" then max else min, min⟩, ?_⟩
  simp only [registerResource, getItem_of_get? htexts, bind_eq_ok, Except.ok.injEq, exists_eq_left',
    pure_eq_ok]
  refine ⟨max, hmax, if resource = "energy" then max else min, ?_, min, hmin, rfl⟩
  split
  · exact hmax
  · exact hmin

section
variable {n : ℤ} {app : Dict String OwnedResource} {app_limits : Dict String (AppLimit Double)}
  {benevolence : ℤ} {is_hadoop_app : Bool} {cr : Sizing Double} {cpu : OwnedResource}

/-- The guards under which a scaled limit is adjusted: a regular part rounded down is at
    least 1, one rounded up leaves at least 1 to the irregular container. -/
def AdjustsToIntegers (n : ℤ) (v : Split Double) : Prop :=
  ((v.regular.mod 1).lt (.finite (1 / 2)) = true → (Double.finite 1).le v.regular = true) ∧
    ((v.regular.mod 1).lt (.finite (1 / 2)) = false → (Double.finite 1).le (v.irregular.sub
      (((Double.finite 1).sub (v.regular.mod 1)).mul (.finite (nearest (n - 1 : ℤ))))) = true)

instance (n : ℤ) (v : Split Double) : Decidable (AdjustsToIntegers n v) :=
  inferInstanceAs (Decidable (_ ∧ _))

theorem adjustLimit_isInt_iff {v : Split Double} {s : Split (Number Double)}
    (h : adjustLimit doubleArithmetic n v = .ok s) :
    (s.regular.isInt = true ↔ AdjustsToIntegers n v) ∧
      (s.irregular.isInt = true ↔ AdjustsToIntegers n v) := by
  have hhalf : doubleArithmetic.literal (1 / 2) = .finite (1 / 2) := by decide +kernel
  have hone : doubleArithmetic.literal 1 = .finite 1 := by decide +kernel
  have hlt : doubleArithmetic.lt (doubleArithmetic.mod v.regular 1) (.finite (1 / 2)) =
      (v.regular.mod 1).lt (.finite (1 / 2)) := rfl
  rw [adjustLimit, hhalf, hone] at h
  dsimp only at h
  rw [hlt] at h
  cases hm : (v.regular.mod 1).lt (.finite (1 / 2)) with
  | true =>
    have hguard : AdjustsToIntegers n v ↔ (Double.finite 1).le v.regular = true := by
      rw [AdjustsToIntegers, hm, forall_prop_of_true rfl, and_iff_left Bool.noConfusion]
    rw [hm, if_pos rfl] at h
    split at h
    · next hle =>
      simp only [bind_eq_ok, pure_eq_ok] at h
      obtain ⟨others, -, irregular, -, regular, -, rfl⟩ := h
      exact ⟨iff_of_true rfl (hguard.2 hle), iff_of_true rfl (hguard.2 hle)⟩
    · next hle =>
      cases h
      exact ⟨iff_of_false Bool.noConfusion fun h => hle (hguard.1 h),
        iff_of_false Bool.noConfusion fun h => hle (hguard.1 h)⟩
  | false =>
    rw [hm, if_neg Bool.false_ne_true] at h
    simp only [bind_eq_ok] at h
    obtain ⟨others, hothers, h⟩ := h
    obtain rfl : Double.finite (nearest (n - 1 : ℤ)) = others := by
      change floatOfResult _ = _ at hothers
      rw [floatOfResult] at hothers
      split at hothers
      · exact Except.ok.inj hothers
      · cases hothers
    have hguard : AdjustsToIntegers n v ↔ (Double.finite 1).le (v.irregular.sub
        (((Double.finite 1).sub (v.regular.mod 1)).mul (.finite (nearest (n - 1 : ℤ))))) = true := by
      rw [AdjustsToIntegers, hm, forall_prop_of_true rfl, and_iff_right Bool.noConfusion]
    split at h
    · next hle =>
      simp only [bind_eq_ok, pure_eq_ok] at h
      obtain ⟨irregular, -, regular, -, rfl⟩ := h
      exact ⟨iff_of_true rfl (hguard.2 hle), iff_of_true rfl (hguard.2 hle)⟩
    · next hle =>
      cases h
      exact ⟨iff_of_false Bool.noConfusion fun h => hle (hguard.1 h),
        iff_of_false Bool.noConfusion fun h => hle (hguard.1 h)⟩

/-- Next to an irregular container the limits are integers by the guards. -/
theorem unevenLimits_isInt_iff {total : ℤ} {resource : String} {a : OwnedResource}
    {m : MaxMin (Split (Number Double))} {regular irregular : MaxMin (Number Double)}
    (hm : unevenLimits doubleArithmetic n total ⟨regularInDoubles n total, restInDoubles n total⟩
      resource a = .ok m)
    (hreg : roundCpuMax doubleArithmetic resource (m.map Split.regular) = .ok regular)
    (hirr : roundCpuMax doubleArithmetic resource (m.map Split.irregular) = .ok irregular) :
    ((∀ l, (regular.at l).isInt = true) ∧ ∀ l, (irregular.at l).isInt = true) ↔
      ∀ l, (resource, l) ≠ ("cpu", LimitKey.max) → ∀ v, scaledLimit n total (a.limits.at l) = .ok v →
        AdjustsToIntegers n v := by
  rw [roundCpuMax_isInt_iff hreg, roundCpuMax_isInt_iff hirr, ← forall_and]
  refine forall_congr' fun l => ?_
  rw [← forall_and]
  refine forall_congr' fun hne => ?_
  obtain ⟨v, hv, hadjust⟩ := unevenLimits_at hm hne
  obtain ⟨hregular, hirregular⟩ := adjustLimit_isInt_iff hadjust
  rw [MaxMin.at_map, MaxMin.at_map, hregular, hirregular, and_self]
  constructor
  · intro hadj w hw
    rwa [← Except.ok.inj (hv.symm.trans hw)]
  · exact fun hadj => hadj v hv

/-- **When the limits are integers.** All limits are integers, and can be
    registered, exactly when no irregular container is created or the guards of
    every limit hold. -/
theorem limits_registrable_iff (float_repr : FloatRepr) (hn : 1 ≤ n) (hcpu : app.get? "cpu" = some cpu)
    (hpos : PositiveApp app)
    (hcr : getContainerResourcesForApp doubleArithmetic n app app_limits benevolence is_hadoop_app
      = .ok cr) :
    (∀ c ∈ cr.containers, c.Integral ∧ c.Registers float_repr) ↔
      (SplitsInDoubles n cpu.limits.max is_hadoop_app → ∀ resource a l, app.get? resource = some a →
        (resource, l) ≠ ("cpu", LimitKey.max) → ∀ v,
          scaledLimit n cpu.limits.max (a.limits.at l) = .ok v → AdjustsToIntegers n v) := by
  have hintegral : (∀ c ∈ cr.containers, c.Integral ∧ c.Registers float_repr) ↔
      ∀ c ∈ cr.containers, ∀ resource s, c.get? resource = some s → ∀ l, (s.limits.at l).isInt = true := by
    constructor
    · exact fun hall c hc resource s hs l => (hall c hc).1 resource s l hs
    · intro hall c hc
      have hint : c.Integral := fun resource s l hs => hall c hc resource s hs l
      exact ⟨hint, hint.registers float_repr⟩
  rw [hintegral]
  have hsplit := splitCpu_sized hn hcpu hpos hcr
  by_cases h : SplitsInDoubles n cpu.limits.max is_hadoop_app
  · obtain ⟨t, hsplit⟩ := splitCpu_uneven h hsplit
    rw [forall_prop_of_true h, forall_sized_uneven hcpu hsplit hcr
      fun resource a m s s' _ hm hfin hfin' => unevenLimits_isInt_iff hm hfin.limits hfin'.limits]
    exact forall_congr' fun resource => forall_congr' fun a => forall_comm
  · refine iff_of_true ?_ fun h' => absurd h' h
    refine (forall_sized_even (Q := fun _ _ => True) hcpu (splitCpu_even h hsplit) hcr
      fun resource a m s _ hm hfin => ?_).2 fun _ _ _ => trivial
    exact iff_true_intro ((roundCpuMax_isInt_iff hfin.limits).2 fun l => divideResource_isInt hm)

/-- An application with a minimum of one share, in three containers: a regular
    one is left with a quarter of a share, which is not read back. -/
theorem quarterShare_threeContainers : ∃ cr,
    getContainerResourcesForApp doubleArithmetic 3 (cpuMemApp ⟨400, 1⟩ ⟨1024, 512⟩) .empty 1 false
        = .ok cr ∧
      cr.regular.limit "cpu" .min = some (.float (.finite (1 / 4))) ∧
      intOfText (pyStr .decimal (.float (.finite (1 / 4)))) = .error .valueError ∧
      ¬ ∀ c ∈ cr.containers, c.Integral ∧ c.Registers .decimal := by
  obtain ⟨cr, hcr⟩ := exists_eq_ok (x := getContainerResourcesForApp doubleArithmetic 3
    (cpuMemApp ⟨400, 1⟩ ⟨1024, 512⟩) .empty 1 false) (by decide +kernel)
  have hcpu := cpuMemApp_cpu ⟨400, 1⟩ ⟨1024, 512⟩
  obtain ⟨t, irregular, -, hlimits⟩ :=
    limits_of_uneven (by norm_num) hcpu (by decide) (by decide +kernel) hcr
  obtain ⟨v, s, hv, hs, hmin, -⟩ := hlimits "cpu" _ .min hcpu (by decide)
  have hsized : ((scaledLimit 3 400 1 >>= adjustLimit doubleArithmetic 3).map Split.regular) =
      .ok (.float (.finite (1 / 4))) := by decide +kernel
  rw [show (scaledLimit 3 400 1 >>= adjustLimit doubleArithmetic 3) = .ok s from
    bind_eq_ok.2 ⟨v, hv, hs⟩] at hsized
  rw [Except.ok.inj hsized] at hmin
  refine ⟨cr, hcr, hmin, by decide +kernel, fun hall => ?_⟩
  rw [SizedContainer.limit, Option.map_eq_some_iff] at hmin
  obtain ⟨s, hs, hsl⟩ := hmin
  have hint := (hall cr.regular List.mem_cons_self).1 "cpu" s .min hs
  rw [hsl] at hint
  cases hint

theorem limits_registrable_iff_threeContainers : ∃ cr,
    getContainerResourcesForApp doubleArithmetic 3 (cpuMemApp ⟨400, 100⟩ ⟨8, 4⟩) .empty 1 false = .ok cr ∧
      ∀ c ∈ cr.containers, c.Integral ∧ c.Registers .decimal := by
  obtain ⟨cr, hcr⟩ := exists_eq_ok (x := getContainerResourcesForApp doubleArithmetic 3
    (cpuMemApp ⟨400, 100⟩ ⟨8, 4⟩) .empty 1 false) (by decide +kernel)
  have hcpu := cpuMemApp_cpu ⟨400, 100⟩ ⟨8, 4⟩
  refine ⟨cr, hcr, (limits_registrable_iff .decimal (by norm_num) hcpu (by decide) hcr).2
    fun _ resource a l ha _ v hv => ?_⟩
  have hall : ∀ e ∈ (cpuMemApp ⟨400, 100⟩ ⟨8, 4⟩).entries, ∀ l ∈ [LimitKey.max, LimitKey.min],
      (scaledLimit 3 400 (e.2.limits.at l)).map (fun w => decide (AdjustsToIntegers 3 w)) = .ok true := by
    decide +kernel
  have hadj := hall _ (Dict.get?_eq_some_iff.1 ha) l (by cases l <;> decide)
  change (scaledLimit 3 400 (a.limits.at l)).map _ = _ at hadj
  rw [show scaledLimit 3 400 (a.limits.at l) = .ok v from hv] at hadj
  exact of_decide_eq_true (Except.ok.inj hadj)

/-- 16 of memory in two containers of an application of 110 shares: doubles leave less
    than 1 to the irregular container, and fractions to both. -/
example : (scaledLimit 2 110 16).map (fun v => decide (AdjustsToIntegers 2 v)) = .ok false := by
  decide +kernel

end

end ServerlessYarn
