/-
  ServerlessYARN model — the containers an application is split into
  (`ui/views/apps/utils.py`: `getContainerResourcesForApp`).

  The CPU of an application is split into regular containers, whose share is a
  multiple of 100, and possibly one irregular container that compensates for
  the difference (`splitCpu`).  With an irregular container the other limits
  are scaled by the CPU shares and adjusted to integers; without one they are
  divided and truncated.  Boundaries follow from the sized limits.

  The arithmetic of the `float`s is a parameter, and every number keeps whether
  it is an `int` or a `float`, which `str` shows.  The loops over
  `app_resources` only write keys of the resource they visit, so each is a map
  over the dictionary, for one container type after the other;
  `correctly_allocated`, which nothing reads, is left out.

  * `sizing_uneven`, `sizing_even`: the sizing resource by resource, and when it returns;
  * `containers_keys`: every container has the resources of the application;
  * `forall_sized_uneven`, `forall_sized_even`: what holds of all sized resources,
    resource by resource.
-/
import Mathlib.Data.Rat.Floor
import ServerlessYarn.Numbers

namespace ServerlessYarn

/-! ## Data -/

/-- A value for each limit of a resource. -/
structure MaxMin (α : Type) where
  max : α
  min : α
deriving DecidableEq

/-- `<resource>_<limit>`. -/
def MaxMin.at {α : Type} (m : MaxMin α) : LimitKey → α
  | .max => m.max
  | .min => m.min

def MaxMin.map {α β : Type} (f : α → β) (m : MaxMin α) : MaxMin β := ⟨f m.max, f m.min⟩

@[simp] theorem MaxMin.at_map {α β : Type} (f : α → β) (m : MaxMin α) (l : LimitKey) :
    (m.map f).at l = f (m.at l) := by cases l <;> rfl

/-- `app_resources[resource]`. -/
structure OwnedResource where
  limits : MaxMin ℤ
  current : ℤ
  weight : ℚ
deriving DecidableEq

/-- An application that only owns CPU and memory. -/
def cpuMemApp (cpu mem : MaxMin ℤ) : Dict String OwnedResource where
  entries := [("cpu", ⟨cpu, 0, 1⟩), ("mem", ⟨mem, 0, 1⟩)]
  distinct := by simp

theorem cpuMemApp_cpu (cpu mem : MaxMin ℤ) : (cpuMemApp cpu mem).get? "cpu" = some ⟨cpu, 0, 1⟩ := rfl

theorem cpuMemApp_mem (cpu mem : MaxMin ℤ) : (cpuMemApp cpu mem).get? "mem" = some ⟨mem, 0, 1⟩ := rfl

/-- The type of the container that compensates for the regular ones. -/
inductive IrregularType where
  | bigger | smaller
deriving DecidableEq

/-- A value for each type of container. -/
structure Split (α : Type) where
  regular : α
  irregular : α
deriving DecidableEq

section
variable (F : Type)

/-- `app_limits[resource]`. -/
structure AppLimit where
  boundary : Number F
  boundary_type : String
deriving DecidableEq

/-- What a container type holds of one resource: `<resource>_max`,
    `<resource>_min`, `<resource>_boundary`, `<resource>_boundary_type` and
    `<resource>_weight`. -/
structure SizedResource where
  limits : MaxMin (Number F)
  boundary : Number F
  boundary_type : String
  weight : ℚ
deriving DecidableEq

/-- `container_resources[container_type]`. -/
abbrev SizedContainer := Dict String (SizedResource F)

/-- `container_resources`. -/
structure Sizing where
  regular : SizedContainer F
  irregular : Option (IrregularType × SizedContainer F)
deriving DecidableEq

/-- The `cpu_max` of the regular and of the irregular container. -/
structure CpuSplit where
  regular : F
  irregular : Option (IrregularType × F)
deriving DecidableEq

end

section
variable {F : Type} (a : Arithmetic F)

/-! ## CPU shares -/

def splitCpu (number_of_containers : ℤ) (cpu : OwnedResource) (is_hadoop_app : Bool) :
    Py (CpuSplit F) := do
  let cpu_max ← a.quotient (cpu.limits.max - cpu.current) number_of_containers
  let cpu_modulo := a.mod cpu_max 100
  if a.eqZero cpu_modulo || is_hadoop_app then return ⟨cpu_max, none⟩
  else if a.lt cpu_modulo (a.literal 50) then
    -- a bigger container, if the regular ones keep some shares
    if a.lt (a.literal 100) cpu_max then
      let others ← a.ofInt (number_of_containers - 1)
      return ⟨a.sub cpu_max cpu_modulo, some (.bigger, a.add cpu_max (a.mul cpu_modulo others))⟩
    else return ⟨cpu_max, none⟩
  else
    let others ← a.ofInt (number_of_containers - 1)
    let smaller_resources := a.sub cpu_max (a.mul (a.sub (a.literal 100) cpu_modulo) others)
    -- a smaller container, if it is not too small
    if a.le (a.literal 10) smaller_resources then
      return ⟨a.add cpu_max (a.sub (a.literal 100) cpu_modulo), some (.smaller, smaller_resources)⟩
    else return ⟨cpu_max, none⟩

/-! ## Limits with an irregular container -/

/-- One limit in the ratio it has with the maximum CPU of the application. -/
def scaleLimit (app_cpu_max : ℤ) (cpu_max : Split F) (limit : ℤ) : Py (Split F) := do
  let resource_ratio ← a.quotient app_cpu_max limit
  let regular ← a.div cpu_max.regular resource_ratio
  let irregular ← a.div cpu_max.irregular resource_ratio
  return ⟨regular, irregular⟩

/-- "Scale resources maintaining the original ratio with `cpu_max`". -/
def scaleResource (app_cpu_max : ℤ) (cpu_max : Split F) (resource : String) (r : OwnedResource) :
    Py (MaxMin (Split F)) := do
  let max ← if resource = "cpu" then pure cpu_max else scaleLimit a app_cpu_max cpu_max r.limits.max
  let min ← scaleLimit a app_cpu_max cpu_max r.limits.min
  return ⟨max, min⟩

/-- "Adjust resource values to integer": one limit, unless a guard fails. -/
def adjustLimit (number_of_containers : ℤ) (v : Split F) : Py (Split (Number F)) := do
  let resource_modulo := a.mod v.regular 1
  if a.lt resource_modulo (a.literal (1 / 2)) then
    if a.le (a.literal 1) v.regular then
      let others ← a.ofInt (number_of_containers - 1)
      let irregular ← a.rounded (a.add v.irregular (a.mul resource_modulo others))
      let regular ← a.truncated v.regular
      return ⟨.int regular, .int irregular⟩
    else return ⟨.float v.regular, .float v.irregular⟩
  else
    let others ← a.ofInt (number_of_containers - 1)
    let smaller_resources := a.sub v.irregular (a.mul (a.sub (a.literal 1) resource_modulo) others)
    if a.le (a.literal 1) smaller_resources then
      let irregular ← a.rounded smaller_resources
      let regular ← a.rounded v.regular
      return ⟨.int regular, .int irregular⟩
    else return ⟨.float v.regular, .float v.irregular⟩

def adjustResource (number_of_containers : ℤ) (resource : String) (m : MaxMin (Split F)) :
    Py (MaxMin (Split (Number F))) := do
  let max ← if resource = "cpu" then pure ⟨.float m.max.regular, .float m.max.irregular⟩
    else adjustLimit a number_of_containers m.max
  let min ← adjustLimit a number_of_containers m.min
  return ⟨max, min⟩

def allocateIrregular (number_of_containers : ℤ) (app_resources : Dict String OwnedResource)
    (app_cpu_max : ℤ) (cpu_max : Split F) : Py (Dict String (MaxMin (Split (Number F)))) := do
  let scaled ← app_resources.mapValM (scaleResource a app_cpu_max cpu_max)
  scaled.mapValM (adjustResource a number_of_containers)

/-! ## Limits without an irregular container -/

def divideResource (number_of_containers : ℤ) (cpu_max : F) (resource : String) (r : OwnedResource) :
    Py (MaxMin (Number F)) := do
  let min ← a.truncated (← a.quotient r.limits.min number_of_containers)
  if resource = "cpu" then return ⟨.float cpu_max, .int min⟩
  else
    let max ← a.truncated (← a.quotient (r.limits.max - r.current) number_of_containers)
    return ⟨.int max, .int min⟩

/-! ## Boundaries, rounding and weights -/

/-- The boundary of a resource and its type: kept from the application
    (`benevolence == -1`), or computed from the sized limits. -/
def boundaryOf (app_limits : Dict String (AppLimit F)) (benevolence : ℤ) (resource : String)
    (m : MaxMin (Number F)) : Py (Number F × String) :=
  if benevolence = -1 then do
    let l ← getItem app_limits resource
    return (l.boundary, l.boundary_type)
  else do
    let divider ← a.powTwo (benevolence + 1)
    let range ← a.minus m.max m.min
    let boundary ← a.dividedBy (← a.times range (.int 100)) (← a.times divider m.max)
    return (.int (← a.rounded boundary), "percentage_of_max")

/-- "Round cpu max to integer". -/
def roundCpuMax (resource : String) (m : MaxMin (Number F)) : Py (MaxMin (Number F)) :=
  if resource = "cpu" then do
    let cpu_max ← a.round m.max
    return { m with max := .int cpu_max }
  else return m

def finishContainer (app_resources : Dict String OwnedResource) (app_limits : Dict String (AppLimit F))
    (benevolence : ℤ) (c : Dict String (MaxMin (Number F))) : Py (SizedContainer F) := do
  let boundaries ← c.mapValM (boundaryOf a app_limits benevolence)
  let rounded ← c.mapValM (roundCpuMax a)
  app_resources.mapValM fun resource r => do
    let boundary ← getItem boundaries resource
    let limits ← getItem rounded resource
    return ⟨limits, boundary.1, boundary.2, r.weight⟩

def getContainerResourcesForApp (number_of_containers : ℤ) (app_resources : Dict String OwnedResource)
    (app_limits : Dict String (AppLimit F)) (benevolence : ℤ) (is_hadoop_app : Bool) :
    Py (Sizing F) := do
  let cpu ← getItem app_resources "cpu"
  let cpu_max ← splitCpu a number_of_containers cpu is_hadoop_app
  match cpu_max.irregular with
  | some (irregular_type, irregular) => do
    let limits ← allocateIrregular a number_of_containers app_resources cpu.limits.max
      ⟨cpu_max.regular, irregular⟩
    let regular ← finishContainer a app_resources app_limits benevolence
      (limits.mapVal fun _ m => m.map Split.regular)
    let irregular ← finishContainer a app_resources app_limits benevolence
      (limits.mapVal fun _ m => m.map Split.irregular)
    return ⟨regular, some (irregular_type, irregular)⟩
  | none => do
    let limits ← app_resources.mapValM (divideResource a number_of_containers cpu_max.regular)
    let regular ← finishContainer a app_resources app_limits benevolence limits
    return ⟨regular, none⟩

end

/-! ## Resource by resource -/

theorem getItem_of_get? {α : Type} {d : Dict String α} {k : String} {v : α} (h : d.get? k = some v) :
    getItem d k = .ok v := getItem_eq_ok.2 h

section
variable {F : Type} {a : Arithmetic F} {n : ℤ} {app : Dict String OwnedResource}
  {app_limits : Dict String (AppLimit F)} {benevolence : ℤ} {is_hadoop_app : Bool} {cr : Sizing F}
  {cpu : OwnedResource}

/-- What the last loops make of the limits of a resource. -/
structure Finished (a : Arithmetic F) (app_limits : Dict String (AppLimit F)) (benevolence : ℤ)
    (resource : String) (r : OwnedResource) (m : MaxMin (Number F)) (s : SizedResource F) : Prop where
  limits : roundCpuMax a resource m = .ok s.limits
  boundary : boundaryOf a app_limits benevolence resource m = .ok (s.boundary, s.boundary_type)
  weight : s.weight = r.weight

/-- The last loops return for the limits of a resource. -/
def Finishes (a : Arithmetic F) (app_limits : Dict String (AppLimit F)) (benevolence : ℤ)
    (resource : String) (m : MaxMin (Number F)) : Prop :=
  (∃ b, boundaryOf a app_limits benevolence resource m = .ok b) ∧
    ∃ limits, roundCpuMax a resource m = .ok limits

theorem Finished.finishes {resource : String} {r : OwnedResource} {m : MaxMin (Number F)}
    {s : SizedResource F} (h : Finished a app_limits benevolence resource r m s) :
    Finishes a app_limits benevolence resource m := ⟨⟨_, h.boundary⟩, ⟨_, h.limits⟩⟩

theorem finishContainer_spec {c : Dict String (MaxMin (Number F))} {d : SizedContainer F}
    (h : finishContainer a app app_limits benevolence c = .ok d) {resource : String} {r : OwnedResource}
    (hr : app.get? resource = some r) {m : MaxMin (Number F)} (hm : c.get? resource = some m) :
    ∃ s, d.get? resource = some s ∧ Finished a app_limits benevolence resource r m s := by
  simp only [finishContainer, bind_eq_ok] at h
  obtain ⟨boundaries, hboundaries, rounded, hrounded, h⟩ := h
  obtain ⟨b, hb, hbget⟩ := Dict.get?_of_mapValM hboundaries hm
  obtain ⟨limits, hlimits, hlget⟩ := Dict.get?_of_mapValM hrounded hm
  obtain ⟨s, hs, hd⟩ := Dict.get?_of_mapValM h hr
  simp only [getItem_of_get? hbget, getItem_of_get? hlget, bind_eq_ok, pure_eq_ok, Except.ok.injEq,
    exists_eq_left'] at hs
  subst hs
  exact ⟨_, hd, ⟨hlimits, hb, rfl⟩⟩

theorem finishContainer_ok {c : Dict String (MaxMin (Number F))} (hkeys : c.keys = app.keys)
    (h : ∀ resource m, c.get? resource = some m → Finishes a app_limits benevolence resource m) :
    ∃ d, finishContainer a app app_limits benevolence c = .ok d := by
  obtain ⟨boundaries, hboundaries⟩ := Dict.mapValM_ok fun resource m hm => (h resource m hm).1
  obtain ⟨rounded, hrounded⟩ := Dict.mapValM_ok fun resource m hm => (h resource m hm).2
  simp only [finishContainer, hboundaries, hrounded, bind_eq_ok, Except.ok.injEq, exists_eq_left']
  refine Dict.mapValM_ok fun resource r hr => ?_
  obtain ⟨m, hm⟩ := Dict.mem_keys_iff.1 (hkeys ▸ Dict.mem_keys_of_get? hr)
  obtain ⟨b, -, hb⟩ := Dict.get?_of_mapValM hboundaries hm
  obtain ⟨limits, -, hlimits⟩ := Dict.get?_of_mapValM hrounded hm
  simp only [getItem_of_get? hb, getItem_of_get? hlimits, bind_eq_ok, pure_eq_ok, Except.ok.injEq,
    exists_eq_left', exists_eq']

theorem keys_of_finishContainer {c : Dict String (MaxMin (Number F))} {d : SizedContainer F}
    (h : finishContainer a app app_limits benevolence c = .ok d) : d.keys = app.keys := by
  simp only [finishContainer, bind_eq_ok] at h
  obtain ⟨boundaries, -, rounded, -, h⟩ := h
  exact Dict.keys_of_mapValM h

/-- The limits of a resource next to an irregular container. -/
def unevenLimits (a : Arithmetic F) (n app_cpu_max : ℤ) (cpu_max : Split F) (resource : String)
    (r : OwnedResource) : Py (MaxMin (Split (Number F))) := do
  let scaled ← scaleResource a app_cpu_max cpu_max resource r
  adjustResource a n resource scaled

theorem allocateIrregular_spec {app_cpu_max : ℤ} {cpu_max : Split F}
    {limits : Dict String (MaxMin (Split (Number F)))}
    (h : allocateIrregular a n app app_cpu_max cpu_max = .ok limits) {resource : String}
    {r : OwnedResource} (hr : app.get? resource = some r) :
    ∃ m, unevenLimits a n app_cpu_max cpu_max resource r = .ok m ∧ limits.get? resource = some m := by
  simp only [allocateIrregular, bind_eq_ok] at h
  obtain ⟨scaled, hscaled, h⟩ := h
  obtain ⟨v, hv, hvget⟩ := Dict.get?_of_mapValM hscaled hr
  obtain ⟨m, hm, hmget⟩ := Dict.get?_of_mapValM h hvget
  exact ⟨m, bind_eq_ok.2 ⟨v, hv, hm⟩, hmget⟩

theorem keys_of_allocateIrregular {app_cpu_max : ℤ} {cpu_max : Split F}
    {limits : Dict String (MaxMin (Split (Number F)))}
    (h : allocateIrregular a n app app_cpu_max cpu_max = .ok limits) : limits.keys = app.keys := by
  simp only [allocateIrregular, bind_eq_ok] at h
  obtain ⟨scaled, hscaled, h⟩ := h
  exact (Dict.keys_of_mapValM h).trans (Dict.keys_of_mapValM hscaled)

theorem allocateIrregular_ok {app_cpu_max : ℤ} {cpu_max : Split F}
    (h : ∀ resource r, app.get? resource = some r →
      ∃ m, unevenLimits a n app_cpu_max cpu_max resource r = .ok m) :
    ∃ limits, allocateIrregular a n app app_cpu_max cpu_max = .ok limits := by
  obtain ⟨scaled, hscaled⟩ : ∃ scaled, app.mapValM (scaleResource a app_cpu_max cpu_max) = .ok scaled := by
    refine Dict.mapValM_ok fun resource r hr => ?_
    obtain ⟨m, hm⟩ := h resource r hr
    obtain ⟨v, hv, -⟩ := bind_eq_ok.1 hm
    exact ⟨v, hv⟩
  obtain ⟨limits, hlimits⟩ : ∃ limits, scaled.mapValM (adjustResource a n) = .ok limits := by
    refine Dict.mapValM_ok fun resource v hv => ?_
    obtain ⟨r, hr⟩ := Dict.mem_keys_iff.1 (Dict.keys_of_mapValM hscaled ▸ Dict.mem_keys_of_get? hv)
    obtain ⟨v', hv', hget⟩ := Dict.get?_of_mapValM hscaled hr
    obtain rfl : v = v' := Option.some.inj (hv.symm.trans hget)
    obtain ⟨m, hm⟩ := h resource r hr
    obtain ⟨v', hv'', hm⟩ := bind_eq_ok.1 hm
    obtain rfl : v = v' := Except.ok.inj (hv'.symm.trans hv'')
    exact ⟨m, hm⟩
  exact ⟨limits, bind_eq_ok.2 ⟨scaled, hscaled, hlimits⟩⟩

theorem splitCpu_of_sizing (hcpu : app.get? "cpu" = some cpu)
    (hcr : getContainerResourcesForApp a n app app_limits benevolence is_hadoop_app = .ok cr) :
    ∃ s, splitCpu a n cpu is_hadoop_app = .ok s := by
  simp only [getContainerResourcesForApp, getItem_of_get? hcpu, bind_eq_ok, Except.ok.injEq,
    exists_eq_left'] at hcr
  obtain ⟨s, hs, -⟩ := hcr
  exact ⟨s, hs⟩

/-- **Sizing with an irregular container.** -/
theorem sizing_uneven (hcpu : app.get? "cpu" = some cpu) {regular irregular : F} {t : IrregularType}
    (hs : splitCpu a n cpu is_hadoop_app = .ok ⟨regular, some (t, irregular)⟩)
    (hcr : getContainerResourcesForApp a n app app_limits benevolence is_hadoop_app = .ok cr) :
    ∃ other, cr.irregular = some (t, other) ∧ ∀ resource r, app.get? resource = some r →
      ∃ m, unevenLimits a n cpu.limits.max ⟨regular, irregular⟩ resource r = .ok m ∧
        (∃ s, cr.regular.get? resource = some s ∧
          Finished a app_limits benevolence resource r (m.map Split.regular) s) ∧
        ∃ s, other.get? resource = some s ∧
          Finished a app_limits benevolence resource r (m.map Split.irregular) s := by
  simp only [getContainerResourcesForApp, getItem_of_get? hcpu, hs, bind_eq_ok, Except.ok.injEq,
    exists_eq_left', pure_eq_ok] at hcr
  obtain ⟨limits, hlimits, c, hc, c', hc', rfl⟩ := hcr
  refine ⟨c', rfl, fun resource r hr => ?_⟩
  obtain ⟨m, hm, hget⟩ := allocateIrregular_spec hlimits hr
  exact ⟨m, hm, finishContainer_spec hc hr (by rw [Dict.get?_mapVal, hget, Option.map_some]),
    finishContainer_spec hc' hr (by rw [Dict.get?_mapVal, hget, Option.map_some])⟩

/-- **Sizing without an irregular container.** -/
theorem sizing_even (hcpu : app.get? "cpu" = some cpu) {regular : F}
    (hs : splitCpu a n cpu is_hadoop_app = .ok ⟨regular, none⟩)
    (hcr : getContainerResourcesForApp a n app app_limits benevolence is_hadoop_app = .ok cr) :
    cr.irregular = none ∧ ∀ resource r, app.get? resource = some r →
      ∃ m, divideResource a n regular resource r = .ok m ∧ ∃ s, cr.regular.get? resource = some s ∧
        Finished a app_limits benevolence resource r m s := by
  simp only [getContainerResourcesForApp, getItem_of_get? hcpu, hs, bind_eq_ok, Except.ok.injEq,
    exists_eq_left', pure_eq_ok] at hcr
  obtain ⟨limits, hlimits, c, hc, rfl⟩ := hcr
  refine ⟨rfl, fun resource r hr => ?_⟩
  obtain ⟨m, hm, hget⟩ := Dict.get?_of_mapValM hlimits hr
  exact ⟨m, hm, finishContainer_spec hc hr hget⟩

/-- The sizing returns once its parts do, for every resource. -/
theorem sizing_uneven_ok (hcpu : app.get? "cpu" = some cpu) {regular irregular : F} {t : IrregularType}
    (hs : splitCpu a n cpu is_hadoop_app = .ok ⟨regular, some (t, irregular)⟩)
    (h : ∀ resource r, app.get? resource = some r →
      ∃ m, unevenLimits a n cpu.limits.max ⟨regular, irregular⟩ resource r = .ok m ∧
        Finishes a app_limits benevolence resource (m.map Split.regular) ∧
        Finishes a app_limits benevolence resource (m.map Split.irregular)) :
    ∃ cr, getContainerResourcesForApp a n app app_limits benevolence is_hadoop_app = .ok cr := by
  obtain ⟨limits, hlimits⟩ := allocateIrregular_ok fun resource r hr =>
    (h resource r hr).imp fun m hm => hm.1
  have hkeys := keys_of_allocateIrregular hlimits
  have hget {resource : String} {m : MaxMin (Split (Number F))} (hm : limits.get? resource = some m) :
      Finishes a app_limits benevolence resource (m.map Split.regular) ∧
        Finishes a app_limits benevolence resource (m.map Split.irregular) := by
    obtain ⟨r, hr⟩ := Dict.mem_keys_iff.1 (hkeys ▸ Dict.mem_keys_of_get? hm)
    obtain ⟨m', hm', hfin⟩ := h resource r hr
    obtain ⟨m'', hm'', hget⟩ := allocateIrregular_spec hlimits hr
    obtain rfl : m' = m'' := Except.ok.inj (hm'.symm.trans hm'')
    obtain rfl : m = m' := Option.some.inj (hm.symm.trans hget)
    exact hfin
  obtain ⟨c, hc⟩ : ∃ c, finishContainer a app app_limits benevolence
      (limits.mapVal fun _ m => m.map Split.regular) = .ok c := by
    refine finishContainer_ok (by rw [Dict.keys_mapVal, hkeys]) fun resource m hm => ?_
    rw [Dict.get?_mapVal, Option.map_eq_some_iff] at hm
    obtain ⟨m, hm, rfl⟩ := hm
    exact (hget hm).1
  obtain ⟨c', hc'⟩ : ∃ c, finishContainer a app app_limits benevolence
      (limits.mapVal fun _ m => m.map Split.irregular) = .ok c := by
    refine finishContainer_ok (by rw [Dict.keys_mapVal, hkeys]) fun resource m hm => ?_
    rw [Dict.get?_mapVal, Option.map_eq_some_iff] at hm
    obtain ⟨m, hm, rfl⟩ := hm
    exact (hget hm).2
  refine ⟨⟨c, some (t, c')⟩, ?_⟩
  simp only [getContainerResourcesForApp, getItem_of_get? hcpu, hs, bind_eq_ok, Except.ok.injEq,
    exists_eq_left', pure_eq_ok]
  exact ⟨limits, hlimits, c, hc, c', hc', rfl⟩

theorem sizing_even_ok (hcpu : app.get? "cpu" = some cpu) {regular : F}
    (hs : splitCpu a n cpu is_hadoop_app = .ok ⟨regular, none⟩)
    (h : ∀ resource r, app.get? resource = some r → ∃ m, divideResource a n regular resource r = .ok m ∧
      Finishes a app_limits benevolence resource m) :
    ∃ cr, getContainerResourcesForApp a n app app_limits benevolence is_hadoop_app = .ok cr := by
  obtain ⟨limits, hlimits⟩ := Dict.mapValM_ok fun resource r hr => (h resource r hr).imp fun m hm => hm.1
  obtain ⟨c, hc⟩ : ∃ c, finishContainer a app app_limits benevolence limits = .ok c := by
    refine finishContainer_ok (Dict.keys_of_mapValM hlimits) fun resource m hm => ?_
    obtain ⟨r, hr⟩ := Dict.mem_keys_iff.1 (Dict.keys_of_mapValM hlimits ▸ Dict.mem_keys_of_get? hm)
    obtain ⟨m', hm', hfin⟩ := h resource r hr
    obtain ⟨m'', hm'', hget⟩ := Dict.get?_of_mapValM hlimits hr
    obtain rfl : m' = m'' := Except.ok.inj (hm'.symm.trans hm'')
    obtain rfl : m = m' := Option.some.inj (hm.symm.trans hget)
    exact hfin
  refine ⟨⟨c, none⟩, ?_⟩
  simp only [getContainerResourcesForApp, getItem_of_get? hcpu, hs, bind_eq_ok, Except.ok.injEq,
    exists_eq_left', pure_eq_ok]
  exact ⟨limits, hlimits, c, hc, rfl⟩

/-- The container types of the application. -/
def Sizing.containers (cr : Sizing F) : List (SizedContainer F) :=
  cr.regular :: (cr.irregular.map Prod.snd).toList

theorem Sizing.containers_of_none (h : cr.irregular = none) : cr.containers = [cr.regular] := by
  rw [containers, h]
  rfl

theorem Sizing.containers_of_some {t : IrregularType} {irregular : SizedContainer F}
    (h : cr.irregular = some (t, irregular)) : cr.containers = [cr.regular, irregular] := by
  rw [containers, h]
  rfl

/-- Every container has the resources of the application. -/
theorem containers_keys
    (hcr : getContainerResourcesForApp a n app app_limits benevolence is_hadoop_app = .ok cr)
    {c : SizedContainer F} (hc : c ∈ cr.containers) : c.keys = app.keys := by
  simp only [getContainerResourcesForApp, bind_eq_ok] at hcr
  obtain ⟨cpu, -, cpu_max, -, hcr⟩ := hcr
  rcases cpu_max with ⟨regular_max, _ | ⟨irregular_type, irregular_max⟩⟩
  · simp only [bind_eq_ok, pure_eq_ok] at hcr
    obtain ⟨limits, -, regular, hr, rfl⟩ := hcr
    rw [Sizing.containers_of_none rfl, List.mem_singleton] at hc
    rw [hc]
    exact keys_of_finishContainer hr
  · simp only [bind_eq_ok, pure_eq_ok] at hcr
    obtain ⟨limits, -, regular, hr, irregular, hi, rfl⟩ := hcr
    rw [Sizing.containers_of_some rfl, List.mem_cons, List.mem_singleton] at hc
    rcases hc with rfl | rfl
    · exact keys_of_finishContainer hr
    · exact keys_of_finishContainer hi

/-- The resources of a container are the application's. -/
theorem owned_of_get?
    (hcr : getContainerResourcesForApp a n app app_limits benevolence is_hadoop_app = .ok cr)
    {c : SizedContainer F} (hc : c ∈ cr.containers) {resource : String} {s : SizedResource F}
    (hs : c.get? resource = some s) : ∃ r, app.get? resource = some r := by
  rw [← Dict.mem_keys_iff, ← containers_keys hcr hc]
  exact Dict.mem_keys_of_get? hs

/-- What holds of every resource of both types of containers, resource by resource. -/
theorem forall_sized_uneven (hcpu : app.get? "cpu" = some cpu) {regular irregular : F} {t : IrregularType}
    (hs : splitCpu a n cpu is_hadoop_app = .ok ⟨regular, some (t, irregular)⟩)
    (hcr : getContainerResourcesForApp a n app app_limits benevolence is_hadoop_app = .ok cr)
    {P : String → SizedResource F → Prop} {Q : String → OwnedResource → Prop}
    (h : ∀ resource r m s s', app.get? resource = some r →
      unevenLimits a n cpu.limits.max ⟨regular, irregular⟩ resource r = .ok m →
      Finished a app_limits benevolence resource r (m.map Split.regular) s →
      Finished a app_limits benevolence resource r (m.map Split.irregular) s' →
      ((P resource s ∧ P resource s') ↔ Q resource r)) :
    (∀ c ∈ cr.containers, ∀ resource s, c.get? resource = some s → P resource s) ↔
      ∀ resource r, app.get? resource = some r → Q resource r := by
  obtain ⟨other, hirr, hget⟩ := sizing_uneven hcpu hs hcr
  have hcontainers := Sizing.containers_of_some hirr
  constructor
  · intro hall resource r hr
    obtain ⟨m, hm, ⟨s, hs, hfin⟩, s', hs', hfin'⟩ := hget resource r hr
    exact (h resource r m s s' hr hm hfin hfin').1
      ⟨hall _ List.mem_cons_self resource s hs, hall other (by simp [hcontainers]) resource s' hs'⟩
  · intro hall c hc resource s hs
    obtain ⟨r, hr⟩ := owned_of_get? hcr hc hs
    obtain ⟨m, hm, ⟨s₁, hs₁, hfin₁⟩, s₂, hs₂, hfin₂⟩ := hget resource r hr
    obtain ⟨hreg, hother⟩ := (h resource r m s₁ s₂ hr hm hfin₁ hfin₂).2 (hall resource r hr)
    rw [hcontainers, List.mem_cons, List.mem_singleton] at hc
    rcases hc with rfl | rfl
    · rwa [Option.some.inj (hs.symm.trans hs₁)]
    · rwa [Option.some.inj (hs.symm.trans hs₂)]

theorem forall_sized_even (hcpu : app.get? "cpu" = some cpu) {regular : F}
    (hs : splitCpu a n cpu is_hadoop_app = .ok ⟨regular, none⟩)
    (hcr : getContainerResourcesForApp a n app app_limits benevolence is_hadoop_app = .ok cr)
    {P : String → SizedResource F → Prop} {Q : String → OwnedResource → Prop}
    (h : ∀ resource r m s, app.get? resource = some r → divideResource a n regular resource r = .ok m →
      Finished a app_limits benevolence resource r m s → (P resource s ↔ Q resource r)) :
    (∀ c ∈ cr.containers, ∀ resource s, c.get? resource = some s → P resource s) ↔
      ∀ resource r, app.get? resource = some r → Q resource r := by
  obtain ⟨hirr, hget⟩ := sizing_even hcpu hs hcr
  rw [Sizing.containers_of_none hirr, List.forall_mem_singleton]
  constructor
  · intro hall resource r hr
    obtain ⟨m, hm, s, hs, hfin⟩ := hget resource r hr
    exact (h resource r m s hr hm hfin).1 (hall resource s hs)
  · intro hall resource s hs
    obtain ⟨r, hr⟩ := owned_of_get? hcr List.mem_cons_self hs
    obtain ⟨m, hm, s₁, hs₁, hfin⟩ := hget resource r hr
    rw [Option.some.inj (hs.symm.trans hs₁)]
    exact (h resource r m s₁ hr hm hfin).2 (hall resource r hr)

end

end ServerlessYarn
