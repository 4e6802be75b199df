/-
  ServerlessYARN model — how much CPU the containers of an application get together
  (`ui/views/apps/utils.py`: `getContainerResourcesForApp`; `operations.py`:
  `processStartApp`).

  A Hadoop application first gives the resources of its master to the `rm-nn`
  container; the workers are sized from what is left.

  * `sizing_cpuTotal`: the CPU of the sized containers is that of the split, rounded;
  * `total_small`: for up to 2^40 shares, an irregular container makes the sum exact,
    and without one every container gets the rounded quotient;
  * `cpuWithin_iff`: when the containers stay within the application's CPU.
-/
import ServerlessYarn.RoundedShares

namespace ServerlessYarn

open Binary64 Rounding

/-! ## Starting an application -/

/-- An entry of `master_config.yml`, with its `"default"` values loaded. -/
structure MasterResource (F : Type) where
  limits : MaxMin ℤ
  weight : ℚ
  boundary : Number F
  boundary_type : String
deriving DecidableEq

section
variable {F : Type}

/-- The resources of the master that are subtracted from the application's. -/
def masterResources (power_budgeting : Bool) : List String :=
  ["cpu", "mem"] ++ if power_budgeting then ["energy"] else []

/-- `app_resources[resource] -= master_container_resources[resource]`, for both limits. -/
def subtractMaster (master : Dict String (MasterResource F)) (app_resources : Dict String OwnedResource)
    (resource : String) : Py (Dict String OwnedResource) := do
  let a ← getItem app_resources resource
  let m ← getItem master resource
  return app_resources.set resource { a with
    limits := ⟨a.limits.max - m.limits.max, a.limits.min - m.limits.min⟩ }

/-- The `rm-nn` container. -/
def masterContainer (master : Dict String (MasterResource F)) (power_budgeting : Bool) :
    Py (SizedContainer F) :=
  (masterResources power_budgeting).foldlM (fun c resource => do
    let m ← getItem master resource
    return c.set resource ⟨m.limits.map .int, m.boundary, m.boundary_type, m.weight⟩) .empty

/-- What `processStartApp` sizes: the containers of the application and, for
    Hadoop, its master. -/
structure StartSizing (F : Type) where
  app_resources : Dict String OwnedResource
  container_resources : Sizing F
  rm_nn : Option (SizedContainer F)
deriving DecidableEq

/-- The part of `processStartApp` from the resources of the application to
    those of its containers. -/
def sizeStartedApp (a : Arithmetic F) (number_of_containers : ℤ) (app_resources : Dict String OwnedResource)
    (app_limits : Dict String (AppLimit F)) (benevolence : ℤ) (is_hadoop_app : Bool)
    (master : Dict String (MasterResource F)) (power_budgeting : Bool) : Py (StartSizing F) := do
  let app_resources ← if is_hadoop_app then
      (masterResources power_budgeting).foldlM (subtractMaster master) app_resources
    else pure app_resources
  let container_resources ←
    getContainerResourcesForApp a number_of_containers app_resources app_limits benevolence is_hadoop_app
  if is_hadoop_app then
    let rm_nn ← masterContainer master power_budgeting
    return ⟨app_resources, container_resources, some rm_nn⟩
  else return ⟨app_resources, container_resources, none⟩

/-- `master_config.yml`. -/
def masterConfig : Dict String (MasterResource Double) where
  entries := [("cpu", ⟨⟨100, 100⟩, 1, .int 25, "percentage_of_max"⟩),
    ("mem", ⟨⟨1024, 1024⟩, 1, .int 25, "percentage_of_max"⟩),
    ("energy", ⟨⟨50, 50⟩, 1, .int 10, "percentage_of_max"⟩)]
  distinct := by decide

end

/-! ## What the containers get together -/

section
variable {F : Type}

/-- The sum of the rounded `cpu_max` over `n` containers. -/
def Sizing.cpuTotal (n : ℤ) (cr : Sizing F) : Option ℤ := do
  let regular ← cr.regular.cpu_max
  match cr.irregular with
  | some (_, c) => do
    let irregular ← c.cpu_max
    return (n - 1) * regular + irregular
  | none => return n * regular

/-- The sum of the rounded shares of a split. -/
def CpuSplit.total (a : Arithmetic F) (n : ℤ) (s : CpuSplit F) : Py ℤ := do
  let regular ← a.rounded s.regular
  match s.irregular with
  | some (_, x) => do
    let irregular ← a.rounded x
    return (n - 1) * regular + irregular
  | none => return n * regular

theorem divideResource_cpu_max {a : Arithmetic F} {n : ℤ} {cpu_max : F} {cpu : OwnedResource}
    {m : MaxMin (Number F)} (h : divideResource a n cpu_max "cpu" cpu = .ok m) : m.max = .float cpu_max := by
  simp only [divideResource, if_true, bind_eq_ok, pure_eq_ok] at h
  obtain ⟨q, -, min, -, rfl⟩ := h
  rfl

/-- **The CPU of the sized containers** is that of the split, whatever their other limits are. -/
theorem sizing_cpuTotal {a : Arithmetic F} {n : ℤ} {app : Dict String OwnedResource}
    {app_limits : Dict String (AppLimit F)} {benevolence : ℤ} {is_hadoop_app : Bool} {cr : Sizing F}
    {cpu : OwnedResource} {s : CpuSplit F} (hcpu : app.get? "cpu" = some cpu)
    (hs : splitCpu a n cpu is_hadoop_app = .ok s)
    (hcr : getContainerResourcesForApp a n app app_limits benevolence is_hadoop_app = .ok cr) :
    ∃ total, s.total a n = .ok total ∧ cr.cpuTotal n = some total := by
  rcases s with ⟨regular, _ | ⟨t, irregular⟩⟩
  · obtain ⟨hirr, hget⟩ := sizing_even hcpu hs hcr
    obtain ⟨m, hm, s, hs', hfin⟩ := hget "cpu" cpu hcpu
    obtain ⟨z, hz, hmax⟩ := hfin.cpu_max hs'
    rw [divideResource_cpu_max hm] at hz
    refine ⟨n * z, ?_, ?_⟩
    · simp only [CpuSplit.total, show a.rounded regular = .ok z from hz]
      rfl
    · simp [Sizing.cpuTotal, hmax, hirr]
  · obtain ⟨other, hirr, hget⟩ := sizing_uneven hcpu hs hcr
    obtain ⟨m, hm, ⟨s, hs, hfin⟩, s', hs', hfin'⟩ := hget "cpu" cpu hcpu
    have hcpu_max := unevenLimits_cpu_max hm
    obtain ⟨z, hz, hmax⟩ := hfin.cpu_max hs
    obtain ⟨z', hz', hmax'⟩ := hfin'.cpu_max hs'
    rw [MaxMin.map, hcpu_max] at hz hz'
    refine ⟨(n - 1) * z + z', ?_, ?_⟩
    · simp only [CpuSplit.total, show a.rounded regular = .ok z from hz,
        show a.rounded irregular = .ok z' from hz']
      rfl
    · simp [Sizing.cpuTotal, hmax, hmax', hirr]

end

/-- The quotient of `total` by `n` is rounded down: its remainder is less than
    half of `n`, or half of it above an even quotient. -/
def RoundsDown (n total : ℤ) : Prop :=
  2 * (total % n) < n ∨ (2 * (total % n) = n ∧ Even (total / n))

instance (n total : ℤ) : Decidable (RoundsDown n total) := inferInstanceAs (Decidable (_ ∨ _))

section
variable {n total : ℤ} {is_hadoop_app : Bool}

theorem roundHalfEven_equalPart (hn : 1 ≤ n) (ht : |total| ≤ 2 ^ 40) :
    roundHalfEven (equalPart n total) = roundHalfEven ((total : ℚ) / n) := by
  rcases le_or_gt n (2 ^ 1022) with hle | hgt
  · exact roundHalfEven_nearest_div (ht.trans_lt (by norm_num)) hn hle
  · -- a quotient below a quarter, and so is its double
    have hn' : (2 : ℚ) ^ 42 ≤ n := by
      have hpow : (2 : ℤ) ^ 42 ≤ n := (pow_le_pow_right₀ one_le_two (by norm_num)).trans hgt.le
      exact_mod_cast hpow
    have hpos : (0 : ℚ) < n := by linarith
    have ht' : |(total : ℚ)| ≤ 2 ^ 40 := by exact_mod_cast ht
    have hquarter : |(total : ℚ) / n| ≤ 1 / 4 := by
      rw [abs_div, abs_of_pos hpos, div_le_iff₀ hpos]
      linarith
    have hround : |equalPart n total| ≤ 1 / 4 := by
      have hle := abs_nearest_le (m := 1) (e := -2) (by norm_num) (by norm_num)
        (hquarter.trans_eq (by norm_num))
      exact hle.trans_eq (by norm_num)
    rw [roundHalfEven_eq_of_abs_sub_lt (z := 0) (by rw [Int.cast_zero, sub_zero]; linarith),
      roundHalfEven_eq_of_abs_sub_lt (z := 0) (by rw [Int.cast_zero, sub_zero]; linarith)]

/-- **The rounded shares** of up to 2^40. -/
theorem total_small (hn : 1 ≤ n) (hpos : is_hadoop_app = false → 0 < total) (ht : |total| ≤ 2 ^ 40) :
    (splitInDoubles n total is_hadoop_app).total doubleArithmetic n =
      .ok (if SplitsInDoubles n total is_hadoop_app then total
        else n * roundHalfEven ((total : ℚ) / n)) := by
  by_cases h : SplitsInDoubles n total is_hadoop_app
  · have hpos' := hpos h.1
    rw [abs_of_pos hpos'] at ht
    have hs := h.small hn hpos' ht
    have hregular : doubleArithmetic.rounded (.finite (regularShare n total)) =
        .ok (regularShare n total) := congrArg Except.ok (roundHalfEven_intCast _)
    have hirregular : doubleArithmetic.rounded (.finite (roundedRest n total)) =
        .ok (irregularShare n total) := congrArg Except.ok hs.roundHalfEven_roundedRest
    rw [splitInDoubles_eq hn hpos' ht, if_pos h, if_pos h]
    simp only [CpuSplit.total, hregular, hirregular]
    exact congrArg Except.ok (shares_add n total)
  · have hregular : doubleArithmetic.rounded (.finite (equalPart n total)) =
        .ok (roundHalfEven ((total : ℚ) / n)) := congrArg Except.ok (roundHalfEven_equalPart hn ht)
    rw [splitInDoubles, if_neg h, if_neg h]
    simp only [CpuSplit.total, hregular]
    rfl

/-- Rounded down, the containers leave the remainder. -/
theorem mul_roundHalfEven_of_roundsDown (hn : 1 ≤ n) (h : RoundsDown n total) :
    n * roundHalfEven ((total : ℚ) / n) = total - total % n := by
  have hpos : (0 : ℚ) < n := by exact_mod_cast (by omega : 0 < n)
  have hle := (mul_roundHalfEven_div_le_iff (by omega) total).2 h
  have hfloor : roundHalfEven ((total : ℚ) / n) = total / n := by
    rw [← floor_intCast_div (by omega)]
    refine roundHalfEven_eq_floor ?_
    rw [le_div_iff₀ hpos, mul_comm]
    exact_mod_cast hle
  rw [hfloor]
  have := Int.mul_ediv_add_emod total n
  omega

end

/-! ## With the master of a Hadoop application -/

section
variable {F : Type} {app : Dict String OwnedResource} {power_budgeting : Bool}
  {master : Dict String (MasterResource F)} {cpu : OwnedResource} {m : MasterResource F}

theorem masterResources_eq (power_budgeting : Bool) : ∃ others,
    masterResources power_budgeting = "cpu" :: others ∧ ∀ resource ∈ others, resource ≠ "cpu" := by
  cases power_budgeting
  · exact ⟨["mem"], rfl, by simp⟩
  · exact ⟨["mem", "energy"], rfl, by simp⟩

/-- The shares that the workers are sized from. -/
theorem subtractMaster_cpu (hcpu : app.get? "cpu" = some cpu) (hm : master.get? "cpu" = some m)
    {app' : Dict String OwnedResource}
    (h : (masterResources power_budgeting).foldlM (subtractMaster master) app = .ok app') :
    ∃ given, app'.get? "cpu" = some given ∧ given.limits.max = cpu.limits.max - m.limits.max ∧
      given.current = cpu.current := by
  obtain ⟨others, heq, hne⟩ := masterResources_eq power_budgeting
  rw [heq, List.foldlM_cons, bind_eq_ok] at h
  obtain ⟨app₁, h₁, h⟩ := h
  simp only [subtractMaster, bind_eq_ok, getItem_eq_ok, pure_eq_ok, hcpu, hm, Option.some.injEq,
    exists_eq_left'] at h₁
  refine foldlM_inv_of_mem (I := fun d => ∃ given, d.get? "cpu" = some given ∧
    given.limits.max = cpu.limits.max - m.limits.max ∧ given.current = cpu.current) ?_ ?_ h
  · intro resource hmem d d' hd hstep
    simp only [subtractMaster, bind_eq_ok, pure_eq_ok] at hstep
    obtain ⟨a, -, m', -, rfl⟩ := hstep
    rw [Dict.get?_set_of_ne _ _ (hne resource hmem).symm]
    exact hd
  · subst h₁
    exact ⟨_, Dict.get?_set_self .., rfl, rfl⟩

theorem masterContainer_cpu (hm : master.get? "cpu" = some m) {c : SizedContainer F}
    (h : masterContainer master power_budgeting = .ok c) : c.cpu_max = some m.limits.max := by
  obtain ⟨others, heq, hne⟩ := masterResources_eq power_budgeting
  rw [masterContainer, heq, List.foldlM_cons, bind_eq_ok] at h
  obtain ⟨c₁, h₁, h⟩ := h
  simp only [bind_eq_ok, getItem_eq_ok, pure_eq_ok, hm, Option.some.injEq, exists_eq_left'] at h₁
  refine foldlM_inv_of_mem (I := fun d : SizedContainer F => d.cpu_max = some m.limits.max) ?_ ?_ h
  · intro resource hmem d d' hd hstep
    simp only [bind_eq_ok, pure_eq_ok] at hstep
    obtain ⟨m', -, rfl⟩ := hstep
    rw [SizedContainer.cpu_max, Dict.get?_set_of_ne _ _ (hne resource hmem).symm]
    exact hd
  · subst h₁
    rw [SizedContainer.cpu_max, Dict.get?_set_self]
    rfl

/-- The containers get no more CPU than there is for them: the workers than they
    are sized from, workers and master than the application has. -/
structure StartSizing.CpuWithin (r : StartSizing F) (n : ℤ) (original : OwnedResource) : Prop where
  workers : ∀ given, r.app_resources.get? "cpu" = some given →
    ∃ total, r.container_resources.cpuTotal n = some total ∧ total ≤ given.limits.max - given.current
  master : ∀ c, r.rm_nn = some c → ∃ total shares, r.container_resources.cpuTotal n = some total ∧
    c.cpu_max = some shares ∧ total + shares ≤ original.limits.max

/-- The shares left to the workers. -/
def workerShares (is_hadoop_app : Bool) (cpu : OwnedResource) (m : MasterResource F) : ℤ :=
  cpu.limits.max - (if is_hadoop_app then m.limits.max else 0) - cpu.current

section
variable {a : Arithmetic F} {n : ℤ} {app_limits : Dict String (AppLimit F)} {benevolence : ℤ}
  {is_hadoop_app : Bool} {r : StartSizing F}

theorem sizeStartedApp_cases (hcpu : app.get? "cpu" = some cpu) (hm : master.get? "cpu" = some m)
    (h : sizeStartedApp a n app app_limits benevolence is_hadoop_app master power_budgeting = .ok r) :
    (∃ given, r.app_resources.get? "cpu" = some given ∧
      workerShares is_hadoop_app cpu m = given.limits.max - given.current) ∧
    getContainerResourcesForApp a n r.app_resources app_limits benevolence is_hadoop_app
      = .ok r.container_resources ∧
    (is_hadoop_app = true → ∃ c, r.rm_nn = some c ∧ c.cpu_max = some m.limits.max) ∧
    (is_hadoop_app = false → r.rm_nn = none) := by
  rw [sizeStartedApp] at h
  cases is_hadoop_app with
  | false =>
    simp only [Bool.false_eq_true, if_false, bind_eq_ok, pure_eq_ok, exists_eq_left'] at h
    obtain ⟨cr, hcr, rfl⟩ := h
    exact ⟨⟨cpu, hcpu, by simp [workerShares]⟩, hcr, fun h => absurd h Bool.false_ne_true, fun _ => rfl⟩
  | true =>
    simp only [if_true, bind_eq_ok, pure_eq_ok] at h
    obtain ⟨app', happ', cr, hcr, c, hc, rfl⟩ := h
    obtain ⟨given, hgiven, hmax, hcur⟩ := subtractMaster_cpu hcpu hm happ'
    refine ⟨⟨given, hgiven, ?_⟩, hcr, fun _ => ⟨c, rfl, masterContainer_cpu hm hc⟩,
      fun h => absurd h.symm Bool.false_ne_true⟩
    rw [workerShares, if_pos rfl, hmax, hcur]

/-- What the containers get together is all that matters. -/
theorem cpuWithin_iff_total (hcpu : app.get? "cpu" = some cpu) (hm : master.get? "cpu" = some m)
    (h : sizeStartedApp a n app app_limits benevolence is_hadoop_app master power_budgeting = .ok r)
    {total : ℤ} (htotal : r.container_resources.cpuTotal n = some total) :
    r.CpuWithin n cpu ↔ total ≤ workerShares is_hadoop_app cpu m ∧
      (is_hadoop_app = true → total ≤ workerShares is_hadoop_app cpu m + cpu.current) := by
  obtain ⟨⟨given, hgiven, ht⟩, -, hmaster, hnone⟩ := sizeStartedApp_cases hcpu hm h
  constructor
  · intro hw
    obtain ⟨total', htotal', hle⟩ := hw.workers given hgiven
    obtain rfl := Option.some.inj (htotal.symm.trans htotal')
    refine ⟨ht ▸ hle, fun hhadoop => ?_⟩
    obtain ⟨c, hc, hcm⟩ := hmaster hhadoop
    obtain ⟨total', shares, htotal', hshares, hle'⟩ := hw.master c hc
    obtain rfl := Option.some.inj (htotal.symm.trans htotal')
    obtain rfl := Option.some.inj (hcm.symm.trans hshares)
    rw [workerShares, if_pos hhadoop]
    omega
  · rintro ⟨hle, hboth⟩
    constructor
    · intro g hg
      obtain rfl := Option.some.inj (hgiven.symm.trans hg)
      exact ⟨total, htotal, ht ▸ hle⟩
    · intro c hc
      cases is_hadoop_app with
      | false =>
        rw [hnone rfl] at hc
        cases hc
      | true =>
        obtain ⟨c', hc', hcm⟩ := hmaster rfl
        obtain rfl := Option.some.inj (hc'.symm.trans hc)
        have hle' := hboth rfl
        rw [workerShares, if_pos rfl] at hle'
        exact ⟨total, _, htotal, hcm, by omega⟩

end

end

section
variable {n : ℤ} {app : Dict String OwnedResource} {app_limits : Dict String (AppLimit Double)}
  {benevolence : ℤ} {is_hadoop_app power_budgeting : Bool} {master : Dict String (MasterResource Double)}
  {cpu : OwnedResource} {m : MasterResource Double} {r : StartSizing Double}

/-- The split of the shares left to the workers. -/
theorem splitCpu_started (hn : 1 ≤ n) {given : OwnedResource} {s : CpuSplit Double} {total : ℤ}
    (ht : total = given.limits.max - given.current) (hpos : is_hadoop_app = false → 0 < total)
    (hs : splitCpu doubleArithmetic n given is_hadoop_app = .ok s) :
    s = splitInDoubles n total is_hadoop_app := by
  cases is_hadoop_app with
  | false => exact splitCpu_of_ok hn (hpos rfl) ht hs
  | true =>
    have hno : ¬ SplitsInDoubles n total true := fun h => Bool.noConfusion h.1
    by_cases hconv : Converts ((total : ℚ) / n)
    · have hq := doubles_quotient (show n ≠ 0 by omega) hconv
      rw [ht] at hq
      rw [splitCpu_hadoop hq, Except.ok.injEq] at hs
      rw [splitInDoubles, if_neg hno, ← hs, equalPart, ht]
    · rw [splitCpu, ← ht, doubles_quotient_error (by omega) hconv] at hs
      cases hs

/-- **When the containers stay within the application's CPU.** For up to 2^40 shares,
    exactly when an irregular container is created or the equal part is rounded down,
    and for Hadoop moreover only if what is in use is not below zero by more than the
    remainder; for more shares, when the sum of the rounded doubles is not too large. -/
theorem cpuWithin_iff (hn : 1 ≤ n) (hcpu : app.get? "cpu" = some cpu) (hm : master.get? "cpu" = some m)
    (hfree : cpu.current < cpu.limits.max)
    (h : sizeStartedApp doubleArithmetic n app app_limits benevolence is_hadoop_app master
      power_budgeting = .ok r) :
    r.CpuWithin n cpu ↔
      if |workerShares is_hadoop_app cpu m| ≤ 2 ^ 40 then
        (SplitsInDoubles n (workerShares is_hadoop_app cpu m) is_hadoop_app ∨
          RoundsDown n (workerShares is_hadoop_app cpu m)) ∧
        (is_hadoop_app = true → -cpu.current ≤ workerShares is_hadoop_app cpu m % n)
      else ∃ total, (splitInDoubles n (workerShares is_hadoop_app cpu m) is_hadoop_app).total
          doubleArithmetic n = .ok total ∧ total ≤ workerShares is_hadoop_app cpu m ∧
        (is_hadoop_app = true → total ≤ workerShares is_hadoop_app cpu m + cpu.current) := by
  obtain ⟨⟨given, hgiven, ht⟩, hcr, -, -⟩ := sizeStartedApp_cases hcpu hm h
  have hpos : is_hadoop_app = false → 0 < workerShares is_hadoop_app cpu m := by
    rintro rfl
    rw [workerShares, if_neg Bool.false_ne_true]
    omega
  obtain ⟨s, hs⟩ := splitCpu_of_sizing hgiven hcr
  obtain ⟨total, htotal, hsum⟩ := sizing_cpuTotal hgiven hs hcr
  rw [splitCpu_started hn ht hpos hs] at htotal
  rw [cpuWithin_iff_total hcpu hm h hsum]
  split
  · next hsmall =>
    rw [total_small hn hpos hsmall, Except.ok.injEq] at htotal
    subst htotal
    by_cases hsplit : SplitsInDoubles n (workerShares is_hadoop_app cpu m) is_hadoop_app
    · rw [if_pos hsplit]
      refine iff_of_true ⟨le_rfl, fun hhadoop => ?_⟩ ⟨.inl hsplit, fun hhadoop => ?_⟩
      · exact absurd (hsplit.1.symm.trans hhadoop) Bool.false_ne_true
      · exact absurd (hsplit.1.symm.trans hhadoop) Bool.false_ne_true
    · rw [if_neg hsplit, or_iff_right hsplit]
      have hdown := mul_roundHalfEven_div_le_iff (show 0 < n by omega) (workerShares is_hadoop_app cpu m)
      rw [hdown]
      refine and_congr_right fun hr => ?_
      -- rounded down, the sum leaves the remainder
      rw [mul_roundHalfEven_of_roundsDown hn hr]
      refine forall_congr' fun _ => ?_
      omega
  · constructor
    · rintro ⟨hle, hboth⟩
      exact ⟨total, htotal, hle, hboth⟩
    · rintro ⟨total', htotal', hle, hboth⟩
      obtain rfl := Except.ok.inj (htotal.symm.trans htotal')
      exact ⟨hle, hboth⟩

/-- A Hadoop application of 600 shares: the 500 left by the master are sized to
    three workers of 167. -/
theorem threeWorkers_overcommit : ∃ r,
    sizeStartedApp doubleArithmetic 3 (cpuMemApp ⟨600, 300⟩ ⟨6144, 3072⟩) .empty 1 true masterConfig
        false = .ok r ∧
      r.container_resources.cpuTotal 3 = some 501 ∧ ¬ r.CpuWithin 3 ⟨⟨600, 300⟩, 0, 1⟩ := by
  obtain ⟨r, hr⟩ := exists_eq_ok (x := sizeStartedApp doubleArithmetic 3
    (cpuMemApp ⟨600, 300⟩ ⟨6144, 3072⟩) .empty 1 true masterConfig false) (by decide +kernel)
  have hcpu := cpuMemApp_cpu ⟨600, 300⟩ ⟨6144, 3072⟩
  have hm : masterConfig.get? "cpu" = some ⟨⟨100, 100⟩, 1, .int 25, "percentage_of_max"⟩ := rfl
  have hw := cpuWithin_iff (by norm_num) hcpu hm (by decide) hr
  obtain ⟨⟨given, hgiven, ht⟩, hcr, -⟩ := sizeStartedApp_cases hcpu hm hr
  obtain ⟨s, hs⟩ := splitCpu_of_sizing hgiven hcr
  obtain ⟨total, htotal, hsum⟩ := sizing_cpuTotal hgiven hs hcr
  rw [splitCpu_started (by norm_num) ht Bool.noConfusion hs,
    total_small (by norm_num) Bool.noConfusion (by decide), Except.ok.injEq] at htotal
  refine ⟨r, hr, ?_, ?_⟩
  · rw [hsum, ← htotal]
    decide +kernel
  · rw [hw, if_pos (by decide)]
    decide +kernel

/-- Two workers of the same application get 250 shares each. -/
theorem cpuWithin_iff_twoWorkers : ∃ r,
    sizeStartedApp doubleArithmetic 2 (cpuMemApp ⟨600, 300⟩ ⟨6144, 3072⟩) .empty 1 true masterConfig
        false = .ok r ∧
      r.CpuWithin 2 ⟨⟨600, 300⟩, 0, 1⟩ := by
  obtain ⟨r, hr⟩ := exists_eq_ok (x := sizeStartedApp doubleArithmetic 2
    (cpuMemApp ⟨600, 300⟩ ⟨6144, 3072⟩) .empty 1 true masterConfig false) (by decide +kernel)
  have hcpu := cpuMemApp_cpu ⟨600, 300⟩ ⟨6144, 3072⟩
  refine ⟨r, hr, (cpuWithin_iff (by norm_num) hcpu rfl (by decide) hr).2 ?_⟩
  rw [if_pos (by decide)]
  decide +kernel

end

end ServerlessYarn
