/-
  ServerlessYARN model — hosts, disks, container requests and exceptions.

  The records that the placement of an application reads: the hosts of the
  state database with their free resources and disks, the resource limits of
  each container type of an application, and the platform configuration.
  Numbers are exact rationals; a host list is a dictionary from host names, so
  its names are distinct.  A request holds every limit the code reads under its
  configuration; `KeyError`s are modelled where a host lacks `disks` or a
  container type is absent.
-/
import Mathlib.Algebra.Order.Ring.Rat
import Mathlib.Data.Fintype.Basic
import ServerlessYarn.Lib.Dict

namespace ServerlessYarn

/-! ## Exceptions -/

/-- The exceptions raised by the modelled code. -/
inductive PyError where
  | keyError (key : String)
  | indexError
  | typeError
  | valueError
  | zeroDivisionError
  | overflowError
  | attributeError
  | exception (message : String)
deriving DecidableEq

/-- A computation that may raise. -/
abbrev Py (α : Type) := Except PyError α

instance {α : Type} [DecidableEq α] : DecidableEq (Py α)
  | .ok a, .ok b => decidable_of_iff (a = b) (by simp)
  | .error e, .error e' => decidable_of_iff (e = e') (by simp)
  | .ok _, .error _ => isFalse (by simp)
  | .error _, .ok _ => isFalse (by simp)

theorem bind_eq_ok {α β : Type} {x : Py α} {f : α → Py β} {b : β} :
    (x >>= f) = .ok b ↔ ∃ a, x = .ok a ∧ f a = .ok b := by
  cases x <;> simp [bind, Except.bind]

@[simp] theorem pure_eq_ok {α : Type} {a b : α} : (pure a : Py α) = .ok b ↔ a = b := by
  simp [pure, Except.pure]

/-- What every step of a loop preserves holds at its end, if it does not raise. -/
theorem foldlM_inv_of_mem {α β : Type} {f : β → α → Py β} {I : β → Prop} {l : List α} {b b' : β}
    (hstep : ∀ a ∈ l, ∀ b₁ b₂, I b₁ → f b₁ a = .ok b₂ → I b₂) (hb : I b) (h : l.foldlM f b = .ok b') :
    I b' := by
  induction l generalizing b with
  | nil =>
    cases h
    exact hb
  | cons a l ih =>
    rw [List.foldlM_cons, bind_eq_ok] at h
    obtain ⟨b₁, h₁, h⟩ := h
    exact ih (fun a' ha' => hstep a' (List.mem_cons_of_mem _ ha')) (hstep a List.mem_cons_self b b₁ hb h₁) h

theorem foldlM_inv {α β : Type} {f : β → α → Py β} {I : β → Prop} {l : List α} {b b' : β}
    (hstep : ∀ b₁ a b₂, I b₁ → f b₁ a = .ok b₂ → I b₂) (hb : I b) (h : l.foldlM f b = .ok b') : I b' :=
  foldlM_inv_of_mem (fun a _ b₁ b₂ => hstep b₁ a b₂) hb h

/-- A loop that collects its results returns if no step raises. -/
theorem mapM_ok {α β : Type} {f : α → Py β} {l : List α} (h : ∀ a ∈ l, ∃ b, f a = .ok b) :
    ∃ bs, l.mapM f = .ok bs := by
  induction l with
  | nil => exact ⟨[], rfl⟩
  | cons a l ih =>
    obtain ⟨b, hb⟩ := h a List.mem_cons_self
    obtain ⟨bs, hbs⟩ := ih fun a' ha' => h a' (List.mem_cons_of_mem _ ha')
    refine ⟨b :: bs, ?_⟩
    rw [List.mapM_cons, hb, hbs]
    rfl

/-- The results of a loop that returned are those of its steps. -/
theorem mem_of_mapM {α β : Type} {f : α → Py β} {l : List α} {bs : List β} (h : l.mapM f = .ok bs)
    {a : α} (ha : a ∈ l) : ∃ b ∈ bs, f a = .ok b := by
  induction l generalizing bs with
  | nil => exact absurd ha List.not_mem_nil
  | cons a' l ih =>
    simp only [List.mapM_cons, bind_eq_ok, pure_eq_ok] at h
    obtain ⟨b, hb, bs', hbs', rfl⟩ := h
    rcases List.mem_cons.1 ha with rfl | ha
    · exact ⟨b, List.mem_cons_self, hb⟩
    · obtain ⟨b', hb', hf⟩ := ih hbs' ha
      exact ⟨b', List.mem_cons_of_mem _ hb', hf⟩

theorem exists_eq_ok {α : Type} {x : Py α} (h : x.isOk = true) : ∃ a, x = .ok a := by
  cases x with
  | ok a => exact ⟨a, rfl⟩
  | error e => cases h

theorem toOption_eq_some {ε α : Type} {x : Except ε α} {a : α} :
    x.toOption = some a ↔ x = .ok a := by
  cases x <;> simp [Except.toOption]

/-- `d[k]`, for a dictionary with string keys. -/
def getItem {α : Type} (d : Dict String α) (k : String) : Py α :=
  match d.get? k with
  | some v => .ok v
  | none => .error (.keyError k)

@[simp] theorem getItem_eq_ok {α : Type} {d : Dict String α} {k : String} {v : α} :
    getItem d k = .ok v ↔ d.get? k = some v := by
  unfold getItem; split <;> simp_all

/-- `s.split(",")`. -/
def splitComma (s : String) : List String := (s.toList.splitOn ',').map String.ofList

/-- `int(s)` of a string of ASCII digits; other strings raise. -/
def pyInt (s : List Char) : Py ℕ :=
  if s ≠ [] ∧ s.all Char.isDigit then .ok (Nat.ofDigitChars 10 s 0) else .error .valueError

theorem pyInt_toDigits (n : ℕ) : pyInt (Nat.toDigits 10 n) = .ok n := by
  have hdigits : ∀ c ∈ Nat.toDigits 10 n, c.isDigit = true :=
    fun c hc => Nat.isDigit_of_mem_toDigits (by decide) (by decide) hc
  rw [pyInt, if_pos ⟨Nat.toDigits_ne_nil, List.all_eq_true.2 hdigits⟩, Nat.ofDigitChars_ten_toDigits]

/-! ## Requests -/

/-- The limit checked by the placement: `"min"` under oversubscription, else
    `"max"`. -/
inductive LimitKey where
  | max | min
deriving DecidableEq

/-- The resources of which a host has one free amount. -/
inductive Resource where
  | cpu | mem | energy
deriving DecidableEq

instance : Fintype Resource :=
  ⟨{.cpu, .mem, .energy}, fun t => by cases t <;> simp⟩

/-- `<res>_max`, `<res>_min`, `<res>_weight`, `<res>_boundary` and
    `<res>_boundary_type` of a container. -/
structure Limits where
  max : ℚ
  min : ℚ
  weight : ℚ
  boundary : ℚ
  boundary_type : String
deriving DecidableEq

def Limits.at (l : Limits) : LimitKey → ℚ
  | .max => l.max
  | .min => l.min

/-- The resources of one container type: an entry of `container_resources`. -/
structure Request where
  res : Resource → Limits
  disk_read : Limits
  disk_write : Limits
deriving DecidableEq

/-- `container[f'{res}_{key}']`. -/
def Request.get (c : Request) (r : Resource) (k : LimitKey) : ℚ := (c.res r).at k

/-- `container[f'disk_read_{key}']`. -/
def Request.read (c : Request) (k : LimitKey) : ℚ := c.disk_read.at k

/-- `container[f'disk_write_{key}']`. -/
def Request.write (c : Request) (k : LimitKey) : ℚ := c.disk_write.at k

/-- A request that asks for the same amounts in every limit. -/
def Request.of (cpu mem energy read write : ℚ) : Request :=
  let limits (x : ℚ) : Limits := ⟨x, x, 1, 0, "percentage_of_max"⟩
  { res := fun
      | .cpu => limits cpu
      | .mem => limits mem
      | .energy => limits energy
    disk_read := limits read
    disk_write := limits write }

/-- The container types of the planner. -/
inductive ContainerType where
  | bigger | regular | smaller | rm_nn
deriving DecidableEq

instance : Fintype ContainerType :=
  ⟨{.bigger, .regular, .smaller, .rm_nn}, fun t => by cases t <;> simp⟩

/-- The key of a container type in `container_resources`. -/
def ContainerType.key : ContainerType → String
  | .bigger => "bigger"
  | .regular => "regular"
  | .smaller => "smaller"
  | .rm_nn => "rm-nn"

/-- The container types of the deployment, which no longer tells `bigger` from
    `smaller`. -/
inductive DeployType where
  | rm_nn | irregular | regular
deriving DecidableEq

instance : Fintype DeployType :=
  ⟨{.rm_nn, .irregular, .regular}, fun t => by cases t <;> simp⟩

def DeployType.key : DeployType → String
  | .rm_nn => "rm-nn"
  | .irregular => "irregular"
  | .regular => "regular"

/-- The deployment type of a container planned with type `t`. -/
def ContainerType.deployed : ContainerType → DeployType
  | .bigger | .smaller => .irregular
  | .regular => .regular
  | .rm_nn => .rm_nn

/-- `container_resources`: an application has regular containers, at most one
    irregular (bigger or smaller) type and, for Hadoop, a master (`rm-nn`). -/
structure ContainerResources where
  regular : Request
  bigger : Option Request
  smaller : Option Request
  rm_nn : Option Request
  one_irregular : bigger = none ∨ smaller = none

/-- An application without an irregular container. -/
theorem no_irregular : (none : Option Request) = none ∨ (none : Option Request) = none := Or.inl rfl

/-- `container_resources.get(container_type)`. -/
def ContainerResources.get? (cr : ContainerResources) : ContainerType → Option Request
  | .bigger => cr.bigger
  | .regular => some cr.regular
  | .smaller => cr.smaller
  | .rm_nn => cr.rm_nn

/-- `container_resources[container_type]`. -/
def ContainerResources.getItem (cr : ContainerResources) (t : ContainerType) : Py Request :=
  match cr.get? t with
  | some c => .ok c
  | none => .error (.keyError t.key)

@[simp] theorem ContainerResources.getItem_eq_ok {cr : ContainerResources} {t : ContainerType}
    {c : Request} : cr.getItem t = .ok c ↔ cr.get? t = some c := by
  unfold getItem; split <;> simp_all

/-- The entries `rm-nn`, `irregular` and `regular` that the deployment reads;
    `irregular` is the copy of `bigger` or `smaller` made by `processStartApp`. -/
def ContainerResources.deploy? (cr : ContainerResources) : DeployType → Option Request
  | .rm_nn => cr.rm_nn
  | .irregular => cr.smaller.or cr.bigger
  | .regular => some cr.regular

theorem ContainerResources.deploy?_deployed {cr : ContainerResources} {t : ContainerType}
    {c : Request} (h : cr.get? t = some c) : cr.deploy? t.deployed = some c := by
  rcases cr.one_irregular with h' | h' <;> cases t <;>
    simp_all [get?, deploy?, ContainerType.deployed]

/-- No amount requested under the limit is negative. -/
def ContainerResources.Nonneg (cr : ContainerResources) (k : LimitKey) : Prop :=
  ∀ t c, cr.get? t = some c → (∀ r, 0 ≤ c.get r k) ∧ 0 ≤ c.read k ∧ 0 ≤ c.write k

/-! ## Hosts -/

/-- A disk of a host. -/
structure Disk where
  path : String
  max_read : ℚ
  free_read : ℚ
  max_write : ℚ
  free_write : ℚ
deriving DecidableEq

/-- `max(disk["max_read"], disk["max_write"])`. -/
def Disk.total_max (d : Disk) : ℚ := max d.max_read d.max_write

/-- `total_max - consumed_read - consumed_write`. -/
def Disk.total_free (d : Disk) : ℚ :=
  d.total_max - (d.max_read - d.free_read) - (d.max_write - d.free_write)

/-- A host of the state database: `free r` is `host['resources'][r]['free']`. -/
structure Host where
  free : Resource → ℚ
  energy_max : ℚ
  disks : Option (Dict String Disk)
deriving DecidableEq

/-- The hosts, by name, in the order of the host list. -/
abbrev Hosts := Dict String Host

/-- `host['resources'][r]['free'] -= amount`. -/
def Host.charge (h : Host) (r : Resource) (amount : ℚ) : Host :=
  { h with free := Function.update h.free r (h.free r - amount) }

/-- Subtract the bandwidth of a container from a disk of the host. -/
def Disk.charge (d : Disk) (c : Request) (k : LimitKey) : Disk :=
  { d with free_read := d.free_read - c.read k, free_write := d.free_write - c.write k }

def Host.chargeDisk (h : Host) (disk : String) (c : Request) (k : LimitKey) : Host :=
  { h with disks := h.disks.map fun ds => ds.modify disk fun d => d.charge c k }

@[simp] theorem Disk.total_free_charge (d : Disk) (c : Request) (k : LimitKey) :
    (d.charge c k).total_free = d.total_free - (c.read k + c.write k) := by
  simp only [charge, total_free, total_max]; ring

@[simp] theorem Host.charge_disks (h : Host) (r : Resource) (a : ℚ) :
    (h.charge r a).disks = h.disks := rfl

@[simp] theorem Host.charge_energy_max (h : Host) (r : Resource) (a : ℚ) :
    (h.charge r a).energy_max = h.energy_max := rfl

theorem Host.charge_free (h : Host) (r : Resource) (a : ℚ) (r' : Resource) :
    (h.charge r a).free r' = if r' = r then h.free r - a else h.free r' := by
  simp [charge, Function.update_apply]

@[simp] theorem Host.chargeDisk_free (h : Host) (d : String) (c : Request) (k : LimitKey) :
    (h.chargeDisk d c k).free = h.free := rfl

/-! ## Configuration -/

/-- The entries of the platform configuration read by the placement. -/
structure PlatformConfig where
  disk_capabilities : Bool
  disk_scaling : Bool
  power_budgeting : Bool
  server_as_host : Bool
  reserve_server_for_master : Bool
deriving DecidableEq

/-- Disks are checked and scaled. -/
def PlatformConfig.check_disks (cfg : PlatformConfig) : Bool :=
  cfg.disk_capabilities && cfg.disk_scaling

end ServerlessYarn
