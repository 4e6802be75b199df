/-
  ServerlessYARN model — the limits of new containers on the node rescaler
  (`scripts/hosts/init_host_node_rescaler.py`).

  A run visits every host and every container of it, and sends what is not initialised.
  The mapping of the cores is fetched anew for every container, and the count of
  allocated shares starts from 0 for each: a container's shares do not depend on those of
  the others.  `hosts` is the script's first argument, a text, so the loop over it goes
  through its characters.

  What the node rescaler answers is a parameter, by the visited host and container.

  * `visit_shares`: the shares of a new container;
  * `initHostNodeRescaler_shares`: the shares of all, over a run;
  * `noOverlap_iff`: when they do not overlap.
-/
import ServerlessYarn.CoreAllocation
import Mathlib.Data.List.ReduceOption

namespace ServerlessYarn

open Finset Filling

/-! ## Data -/

/-- The limits of a container's disk. -/
structure DiskLimits where
  disk_read_max : ℤ
  disk_write_max : ℤ
deriving DecidableEq

/-- An entry of `containers_info`. -/
structure RescaledContainer where
  container_name : String
  host : String
  cpu_max : ℤ
  mem_max : ℤ
  disk : Option DiskLimits
deriving DecidableEq

/-- A resource of a stored container. -/
structure StoredResource where
  current : ℤ
  max : ℤ
deriving DecidableEq

/-- What a document of the database holds: the mapping of a host, the resources of a
    container. -/
structure StructureInfo where
  core_usage_mapping : Option CoreMapping
  mem : Option StoredResource
  disk_read : Option StoredResource
  disk_write : Option StoredResource

/-- The database `structures`, if it exists. -/
abbrev StructuresDb := Option (Dict String StructureInfo)

/-- What the node rescaler answers about a container; an empty list for a disk is
    no limit. -/
structure RequestedData where
  cpu_allowance_limit : ℤ
  mem_limit : ℤ
  disk_read : Option ℤ
  disk_write : Option ℤ
deriving DecidableEq

structure CpuField where
  cpu_allowance_limit : ℤ
  cpu_num : String
deriving DecidableEq

/-- `put_field_data` -/
structure PutFieldData where
  cpu : Option CpuField
  mem : Option ℤ
  disk_read : Option ℤ
  disk_write : Option ℤ
deriving DecidableEq

/-- The shares behind `cpu_num`: those of the container in a mapping, or an amount of
    consecutive ones. -/
inductive CoreShares where
  | allocated (core_mapping : CoreMapping)
  | consecutive (first amount : ℤ)

/-- What is sent for a container, and the shares that it means. -/
structure RescalerPut where
  container : RescaledContainer
  put_field_data : PutFieldData
  core_shares : Option CoreShares

/-- The shares of a container on a core. -/
def CoreShares.on (container_name : String) (core : ℕ) : CoreShares → ℤ
  | .allocated core_mapping => coreShare core_mapping core container_name
  | .consecutive first amount =>
    max 0 (min (first + amount) (100 * (core + 1)) - max first (100 * core))

def RescalerPut.on (core : ℕ) (p : RescalerPut) : ℤ :=
  (p.core_shares.map (CoreShares.on p.container.container_name core)).getD 0

/-! ## The run -/

/-- `get_integer_list_range` -/
def integerListRange (list_num : List ℕ) : String :=
  let groups := (list_num.zipIdx.splitBy fun x y => (x.1 : ℤ) - x.2 == (y.1 : ℤ) - y.2).map
    fun group => group.map Prod.fst
  String.intercalate "," (groups.map fun item =>
    String.intercalate "-" (([item.headD 0, item.getLastD 0].take item.length).map toString))

/-- The containers that are not stored yet, all of them without a database. -/
def newContainers (db : StructuresDb) (containers : List RescaledContainer) : List RescaledContainer :=
  match db with
  | none => containers
  | some structures => containers.filter fun c => (structures.get? c.container_name).isNone

/-- `handler.get_structure(name)` -/
def getStructure (db : StructuresDb) (name : String) : Py StructureInfo :=
  match db.bind (·.get? name) with
  | some info => .ok info
  | none => .error .valueError

/-- The mapping of a host that is stored with one. -/
def hostMapping (db : StructuresDb) (host : String) : Option CoreMapping :=
  (db.bind (·.get? host)).bind (·.core_usage_mapping)

/-- What a container that is stored already has of a mapping. -/
def storedCores (core_mapping : CoreMapping) (container_name : String) : Py (ℤ × List ℕ) :=
  (List.range core_mapping.entries.length).foldlM (fun (acc : ℤ × List ℕ) (core : ℕ) => do
    let usage ← getItem core_mapping (toString core)
    let share := (usage.get? container_name).getD 0
    return if 0 < share then (acc.1 + share, acc.2 ++ [core]) else acc) (0, [])

/-- The part of the CPU. -/
def cpuPart (host_mapping : Option CoreMapping) (is_new not_initialized : Bool) (c : RescaledContainer) :
    Py (Option (CpuField × CoreShares)) :=
  match host_mapping with
  | some core_mapping =>
    if not_initialized then
      if is_new then do
        let (core_mapping, cpu_core_list) ← allocateCores core_mapping c.container_name c.cpu_max
        return some (⟨c.cpu_max, integerListRange cpu_core_list⟩, .allocated core_mapping)
      else do
        let _ ← readFree core_mapping 0
        let (allocated, cpu_core_list) ← storedCores core_mapping c.container_name
        return some (⟨allocated, integerListRange cpu_core_list⟩, .allocated core_mapping)
    else return none
  | none =>
    -- `total_allowance_allocated` starts from 0 for every container
    let total_allowance_allocated : ℤ := 0
    let initial_core := total_allowance_allocated / 100
    let last_core := (total_allowance_allocated + c.cpu_max - 1) / 100
    let cpu_num := if initial_core < last_core
      then String.join [toString initial_core, "-", toString last_core] else toString initial_core
    return some (⟨c.cpu_max, cpu_num⟩, .consecutive total_allowance_allocated c.cpu_max)

/-- The limit of a stored resource. -/
def StoredResource.limit (r : StoredResource) : ℤ := if r.current = -1 then r.max else r.current

/-- The part of the memory or of a disk, for the resource's entry in the database. -/
def limitPart (db : StructuresDb) (is_new not_initialized : Bool) (container_name resource : String)
    (limit_max : ℤ) (stored : StructureInfo → Option StoredResource) : Py (Option ℤ) :=
  if not_initialized then
    if is_new then .ok (some limit_max)
    else do
      let cont_info ← getStructure db container_name
      match stored cont_info with
      | some r => .ok (some r.limit)
      | none => .error (.keyError resource)
  else .ok none

/-- A disk's limit is not initialised. -/
def diskNotInitialized : Option ℤ → Bool
  | none => true
  | some limit => limit = -1

/-- The part of the disk: its read and its write limit. -/
def diskPart (resources : List String) (db : StructuresDb) (is_new : Bool) (requested : RequestedData)
    (c : RescaledContainer) : Py (Option ℤ × Option ℤ) :=
  match c.disk with
  | some disk =>
    if "disk" ∈ resources then do
      let disk_read ← limitPart db is_new (diskNotInitialized requested.disk_read) c.container_name
        "disk_read" disk.disk_read_max (·.disk_read)
      let disk_write ← limitPart db is_new (diskNotInitialized requested.disk_write) c.container_name
        "disk_write" disk.disk_write_max (·.disk_write)
      return (disk_read, disk_write)
    else return (none, none)
  | none => return (none, none)

/-- A part that a run only has for the resources it is called with. -/
def resourcePart {α : Type} (resources : List String) (resource : String) (part : Py (Option α)) :
    Py (Option α) :=
  if resource ∈ resources then part else .ok none

/-- `not_initialized_resources` -/
def notInitializedResources (resources : List String) (requested : RequestedData) (c : RescaledContainer) :
    ℕ :=
  (if "cpu" ∈ resources ∧ requested.cpu_allowance_limit = -1 then 1 else 0) +
    (if "mem" ∈ resources ∧ requested.mem_limit = -1 then 1 else 0) +
    (if "disk" ∈ resources ∧ c.disk.isSome ∧ diskNotInitialized requested.disk_read then 1 else 0) +
    (if "disk" ∈ resources ∧ c.disk.isSome ∧ diskNotInitialized requested.disk_write then 1 else 0)

/-- One turn of the loop over the containers of a host. -/
def visit (resources : List String) (db : StructuresDb) (containers : List RescaledContainer)
    (requested : RequestedData) (c : RescaledContainer) : Py (Option RescalerPut) := do
  let is_new := decide (c ∈ newContainers db containers)
  let cpu ← resourcePart resources "cpu"
    (cpuPart (hostMapping db c.host) is_new (requested.cpu_allowance_limit = -1) c)
  let mem ← resourcePart resources "mem"
    (limitPart db is_new (requested.mem_limit = -1) c.container_name "mem" c.mem_max (·.mem))
  let disks ← diskPart resources db is_new requested c
  return if 0 < notInitializedResources resources requested c then
      some ⟨c, ⟨cpu.map Prod.fst, mem, disks.1, disks.2⟩, cpu.map Prod.snd⟩
    else none

/-- The turns of the two loops, over the characters of the first argument and over the
    containers, each with its position. -/
def turns (hosts : String) (containers : List RescaledContainer) :
    List ((Char × ℕ) × (RescaledContainer × ℕ)) :=
  hosts.toList.zipIdx.product containers.zipIdx

/-- `init_host_node_rescaler.py hosts containers resources`: what it sends.  The answers
    of the node rescaler are by the positions of the host and of the container. -/
def initHostNodeRescaler (hosts : String) (containers : List RescaledContainer) (resources : List String)
    (db : StructuresDb) (answers : ℕ → ℕ → RequestedData) : Py (List RescalerPut) := do
  let puts ← (turns hosts containers).mapM fun turn =>
    if String.singleton turn.1.1 ≠ turn.2.1.host then .ok none
    else visit resources db containers (answers turn.1.2 turn.2.2) turn.2.1
  return puts.reduceOption

/-! ## The shares of a new container -/

/-- A host and the containers of it that a run adds: `m` cores with the free shares `f`,
    which the limits together do not exceed. -/
structure AddsTo (host : String) (m : ℕ) (f : ℕ → ℤ) (db : StructuresDb)
    (containers : List RescaledContainer) : Prop where
  cores : 1 ≤ m
  on_host : ∀ c ∈ containers, c.host = host
  new : ∀ c ∈ containers, c ∈ newContainers db containers
  nonneg : ∀ c ∈ containers, 0 ≤ c.cpu_max
  stored : ∀ core_mapping, hostMapping db host = some core_mapping →
    NumberedCores core_mapping m ∧ (∀ i, f i = freeShares core_mapping i) ∧
      ∀ c ∈ containers, ∀ i < m, coreEntry core_mapping i c.container_name = none
  empty : hostMapping db host = none → ∀ i, f i = 100
  fits : (containers.map (·.cpu_max)).sum ≤ ∑ i ∈ range m, f i

/-- The turn gives the container cores: with a mapping its CPU is not initialised,
    without one anything is not. -/
def AssignsCores (resources : List String) (db : StructuresDb) (requested : RequestedData)
    (c : RescaledContainer) : Prop :=
  "cpu" ∈ resources ∧ if (hostMapping db c.host).isSome then requested.cpu_allowance_limit = -1
    else 0 < notInitializedResources resources requested c

instance (resources : List String) (db : StructuresDb) (requested : RequestedData)
    (c : RescaledContainer) : Decidable (AssignsCores resources db requested c) :=
  inferInstanceAs (Decidable ("cpu" ∈ resources ∧
    if (hostMapping db c.host).isSome then requested.cpu_allowance_limit = -1
    else 0 < notInitializedResources resources requested c))

section
variable {host : String} {m : ℕ} {f : ℕ → ℤ} {db : StructuresDb}
  {containers : List RescaledContainer} {resources : List String} {requested : RequestedData}
  {c : RescaledContainer}

/-- Without a mapping the shares are filled into empty cores. -/
theorem consecutive_eq_filled (container_name : String) {a : ℤ} (i : ℕ) :
    CoreShares.on container_name i (.consecutive 0 a) = filled (fun _ => (100 : ℤ)) a i := by
  rw [CoreShares.on, filled, sum_const, card_range, nsmul_eq_mul]
  omega

theorem AddsTo.cpuPart (h : AddsTo host m f db containers) (hc : c ∈ containers)
    (not_initialized : Bool) :
    ∃ cpu, cpuPart (hostMapping db host) true not_initialized c = .ok cpu ∧
      ∀ i < m, ((cpu.map Prod.snd).map (CoreShares.on c.container_name i)).getD 0 =
        if (hostMapping db host).isSome ∧ not_initialized = false then 0
        else filled f c.cpu_max i := by
  cases hmapping : hostMapping db host with
  | none =>
    refine ⟨_, rfl, fun i _ => ?_⟩
    have hf : f = fun _ => 100 := funext (h.empty hmapping)
    rw [hf]
    exact consecutive_eq_filled c.container_name i
  | some core_mapping =>
    obtain ⟨hcores, hf, hnew⟩ := h.stored core_mapping hmapping
    cases not_initialized with
    | false => exact ⟨none, rfl, fun i _ => rfl⟩
    | true =>
      obtain ⟨s, hs, hallocated⟩ := allocateCores_allocated h.cores hcores (hnew c hc) (h.nonneg c hc)
      refine ⟨some (⟨c.cpu_max, integerListRange s.cpu_core_list⟩, .allocated s.core_mapping), ?_, ?_⟩
      · simp only [ServerlessYarn.cpuPart, hs, if_true, bind, Except.bind]
        rfl
      · intro i hi
        have hfree : f = freeShares core_mapping := funext hf
        rw [hfree]
        exact hallocated.shared.share i hi

theorem limitPart_new (db : StructuresDb) (not_initialized : Bool)
    (container_name resource : String) (limit_max : ℤ)
    (stored : StructureInfo → Option StoredResource) :
    ∃ limit, limitPart db true not_initialized container_name resource limit_max stored = .ok limit := by
  cases not_initialized with
  | false => exact ⟨none, rfl⟩
  | true => exact ⟨some limit_max, rfl⟩

theorem notInitializedResources_pos (hcpu : "cpu" ∈ resources)
    (h : requested.cpu_allowance_limit = -1) : 0 < notInitializedResources resources requested c := by
  rw [notInitializedResources, if_pos ⟨hcpu, h⟩]
  omega

theorem diskPart_new (resources : List String) (db : StructuresDb) (requested : RequestedData)
    (c : RescaledContainer) : ∃ disks, diskPart resources db true requested c = .ok disks := by
  rw [diskPart]
  split
  · next disk _ =>
    split_ifs
    · obtain ⟨disk_read, hread⟩ := limitPart_new db (diskNotInitialized requested.disk_read)
        c.container_name "disk_read" disk.disk_read_max (·.disk_read)
      obtain ⟨disk_write, hwrite⟩ := limitPart_new db (diskNotInitialized requested.disk_write)
        c.container_name "disk_write" disk.disk_write_max (·.disk_write)
      rw [hread, hwrite]
      exact ⟨_, rfl⟩
    · exact ⟨_, rfl⟩
  · exact ⟨_, rfl⟩

theorem AssignsCores.pos (h : AssignsCores resources db requested c) :
    0 < notInitializedResources resources requested c := by
  obtain ⟨hcpu, hassigns⟩ := h
  split_ifs at hassigns
  · exact notInitializedResources_pos hcpu hassigns
  · exact hassigns

/-- The CPU of a new container, when something of it is sent. -/
theorem AddsTo.cpu_shares (h : AddsTo host m f db containers) (resources : List String)
    (requested : RequestedData) (hc : c ∈ containers) :
    ∃ cpu, resourcePart resources "cpu"
        (ServerlessYarn.cpuPart (hostMapping db c.host) true (requested.cpu_allowance_limit = -1) c) =
          .ok cpu ∧
      ∀ i < m, 0 < notInitializedResources resources requested c →
        ((cpu.map Prod.snd).map (CoreShares.on c.container_name i)).getD 0 =
          if AssignsCores resources db requested c then filled f c.cpu_max i else 0 := by
  by_cases hres : "cpu" ∈ resources
  · obtain ⟨cpu, hcpu, hshares⟩ := h.cpuPart hc (decide (requested.cpu_allowance_limit = -1))
    rw [← h.on_host c hc] at hcpu hshares
    refine ⟨cpu, by rw [resourcePart, if_pos hres, hcpu], fun i hi hpos => ?_⟩
    rw [hshares i hi]
    by_cases hassigns : AssignsCores resources db requested c
    · rw [if_pos hassigns, if_neg]
      rintro ⟨hsome, hlimit⟩
      have hlimit' := hassigns.2
      rw [if_pos hsome] at hlimit'
      exact of_decide_eq_false hlimit hlimit'
    · rw [if_neg hassigns, if_pos]
      have hnot : ¬ (if (hostMapping db c.host).isSome then requested.cpu_allowance_limit = -1
          else 0 < notInitializedResources resources requested c) := fun h' => hassigns ⟨hres, h'⟩
      split_ifs at hnot with hsome
      · exact ⟨hsome, decide_eq_false hnot⟩
      · exact absurd hpos hnot
  · refine ⟨none, if_neg hres, fun i _ _ => ?_⟩
    rw [if_neg fun hassigns : AssignsCores resources db requested c => hres hassigns.1]
    rfl

/-- **The shares of a new container** do not depend on the other containers. -/
theorem visit_shares (h : AddsTo host m f db containers) (resources : List String)
    (requested : RequestedData) (hc : c ∈ containers) :
    ∃ put, visit resources db containers requested c = .ok put ∧
      ∀ i < m, (put.map (RescalerPut.on i)).getD 0 =
        if AssignsCores resources db requested c then filled f c.cpu_max i else 0 := by
  have hnew : decide (c ∈ newContainers db containers) = true := decide_eq_true (h.new c hc)
  obtain ⟨cpu, hcpu, hshares⟩ := h.cpu_shares resources requested hc
  obtain ⟨mem, hmem⟩ : ∃ mem, resourcePart resources "mem" (limitPart db true
      (requested.mem_limit = -1) c.container_name "mem" c.mem_max (·.mem)) = .ok mem := by
    rw [resourcePart]
    split_ifs
    · exact limitPart_new _ _ _ _ _ _
    · exact ⟨none, rfl⟩
  obtain ⟨disks, hdisks⟩ := diskPart_new resources db requested c
  refine ⟨if 0 < notInitializedResources resources requested c then
      some ⟨c, ⟨cpu.map Prod.fst, mem, disks.1, disks.2⟩, cpu.map Prod.snd⟩ else none, ?_, ?_⟩
  · simp only [visit, hnew, hcpu, hmem, hdisks, bind, Except.bind]
    rfl
  · intro i hi
    by_cases hpos : 0 < notInitializedResources resources requested c
    · rw [if_pos hpos]
      exact hshares i hi hpos
    · rw [if_neg hpos, if_neg fun hassigns : AssignsCores resources db requested c =>
        hpos hassigns.pos]
      rfl

/-! ## The shares of a run -/

/-- A loop whose turns all return collects what they return. -/
theorem mapM_forall₂ {α β : Type} {g : α → Py β} {P : α → β → Prop} : ∀ {l : List α},
    (∀ a ∈ l, ∃ b, g a = .ok b ∧ P a b) → ∃ bs, l.mapM g = .ok bs ∧ List.Forall₂ P l bs := by
  intro l
  induction l with
  | nil =>
    intro _
    exact ⟨[], rfl, List.Forall₂.nil⟩
  | cons a l ih =>
    intro h
    obtain ⟨b, hb, hP⟩ := h a List.mem_cons_self
    obtain ⟨bs, hbs, hall⟩ := ih fun a' ha' => h a' (List.mem_cons_of_mem a ha')
    refine ⟨b :: bs, ?_, List.Forall₂.cons hP hall⟩
    rw [List.mapM_cons, hb, hbs]
    rfl

theorem map_eq_of_forall₂ {α β γ : Type} {P : α → β → Prop} {g : β → γ} {k : α → γ}
    (hP : ∀ a b, P a b → g b = k a) {l : List α} {bs : List β} (h : List.Forall₂ P l bs) :
    bs.map g = l.map k := by
  induction h with
  | nil => rfl
  | cons hab _ ih => rw [List.map_cons, List.map_cons, hP _ _ hab, ih]

theorem sum_map_reduceOption {α : Type} (g : α → ℤ) (l : List (Option α)) :
    (l.reduceOption.map g).sum = (l.map fun x => (x.map g).getD 0).sum := by
  induction l with
  | nil => rfl
  | cons x l ih =>
    cases x with
    | none =>
      rw [List.reduceOption_cons_of_none, ih, List.map_cons, List.sum_cons]
      exact (zero_add _).symm
    | some a =>
      rw [List.reduceOption_cons_of_some, List.map_cons, List.sum_cons, ih]
      rfl

theorem sum_map_ite {α : Type} (p : α → Prop) [DecidablePred p] (g : α → ℤ) (l : List α) :
    (l.map fun a => if p a then g a else 0).sum = ((l.filter fun a => p a).map g).sum := by
  induction l with
  | nil => rfl
  | cons a l ih =>
    by_cases h : p a
    · rw [List.map_cons, List.sum_cons, if_pos h, List.filter_cons_of_pos (by simpa using h),
        List.map_cons, List.sum_cons, ih]
    · rw [List.map_cons, List.sum_cons, if_neg h, List.filter_cons_of_neg (by simpa using h),
        zero_add, ih]

end

/-- The limits that a run gives cores for: of the containers on a host that is a
    character of the first argument, as far as they are not initialised. -/
def assignedLimits (hosts : String) (containers : List RescaledContainer) (resources : List String)
    (db : StructuresDb) (answers : ℕ → ℕ → RequestedData) : List ℤ :=
  ((turns hosts containers).filter fun turn => String.singleton turn.1.1 = turn.2.1.host ∧
    AssignsCores resources db (answers turn.1.2 turn.2.2) turn.2.1).map fun turn => turn.2.1.cpu_max

section
variable {host : String} {m : ℕ} {f : ℕ → ℤ} {db : StructuresDb}
  {containers : List RescaledContainer}

theorem mem_of_mem_turns {hosts : String} {turn : (Char × ℕ) × (RescaledContainer × ℕ)}
    (h : turn ∈ turns hosts containers) : turn.2.1 ∈ containers := by
  have hmem := (List.mem_product.1 h).2
  exact List.fst_mem_of_mem_zipIdx hmem

/-- **The shares of a run**: every limit is filled into the same free shares. -/
theorem initHostNodeRescaler_shares (h : AddsTo host m f db containers) (hosts : String)
    (resources : List String) (answers : ℕ → ℕ → RequestedData) :
    ∃ puts, initHostNodeRescaler hosts containers resources db answers = .ok puts ∧
      ∀ i < m, (puts.map (RescalerPut.on i)).sum =
        ((assignedLimits hosts containers resources db answers).map fun a => filled f a i).sum := by
  obtain ⟨puts, hputs, hall⟩ := mapM_forall₂ (l := turns hosts containers)
    (g := fun turn => if String.singleton turn.1.1 ≠ turn.2.1.host then .ok none
      else visit resources db containers (answers turn.1.2 turn.2.2) turn.2.1)
    (P := fun turn put => ∀ i < m, (put.map (RescalerPut.on i)).getD 0 =
      if String.singleton turn.1.1 = turn.2.1.host ∧
        AssignsCores resources db (answers turn.1.2 turn.2.2) turn.2.1
      then filled f turn.2.1.cpu_max i else 0) (by
    intro turn hturn
    by_cases hhost : String.singleton turn.1.1 = turn.2.1.host
    · obtain ⟨put, hput, hshares⟩ := visit_shares h resources (answers turn.1.2 turn.2.2)
        (mem_of_mem_turns hturn)
      refine ⟨put, by rw [if_neg (not_not.2 hhost), hput], fun i hi => ?_⟩
      rw [hshares i hi]
      simp only [hhost, true_and]
    · refine ⟨none, if_pos hhost, fun i _ => ?_⟩
      rw [if_neg fun h' => hhost h'.1]
      rfl)
  refine ⟨puts.reduceOption, ?_, fun i hi => ?_⟩
  · simp only [initHostNodeRescaler, hputs, bind, Except.bind]
    rfl
  · rw [sum_map_reduceOption, map_eq_of_forall₂ (fun turn put hP => hP i hi) hall, sum_map_ite,
      assignedLimits, List.map_map]
    rfl

/-! ## Overlap -/

theorem mem_assignedLimits {hosts : String} {resources : List String}
    {answers : ℕ → ℕ → RequestedData} {a : ℤ}
    (h : a ∈ assignedLimits hosts containers resources db answers) :
    ∃ c ∈ containers, c.cpu_max = a := by
  obtain ⟨turn, hturn, rfl⟩ := List.mem_map.1 h
  exact ⟨turn.2.1, mem_of_mem_turns (List.mem_of_mem_filter hturn), rfl⟩

/-- The shares that a run gives to the containers fit in the free ones, on every
    core. -/
def NoOverlap (hosts : String) (m : ℕ) (f : ℕ → ℤ) (containers : List RescaledContainer)
    (resources : List String) (db : StructuresDb) (answers : ℕ → ℕ → RequestedData) : Prop :=
  ∃ puts, initHostNodeRescaler hosts containers resources db answers = .ok puts ∧
    ∀ i < m, (puts.map (RescalerPut.on i)).sum ≤ f i

/-- **The containers of a run do not overlap** iff at most one of them is given cores
    or all their limits fit in the first core with free shares. -/
theorem noOverlap_iff (h : AddsTo host m f db containers) (hosts : String) (resources : List String)
    (answers : ℕ → ℕ → RequestedData) :
    NoOverlap hosts m f containers resources db answers ↔
      AtMostOne (assignedLimits hosts containers resources db answers) ∨
        ∃ k < m, (∀ i < k, f i = 0) ∧
          (assignedLimits hosts containers resources db answers).sum ≤ f k := by
  have hf : ∀ i, 0 ≤ f i := by
    intro i
    cases hmapping : hostMapping db host with
    | none =>
      rw [h.empty hmapping i]
      norm_num
    | some core_mapping =>
      obtain ⟨hcores, hfree, -⟩ := h.stored core_mapping hmapping
      rw [hfree i]
      exact (hcores.freeShares_bounds i).1
  have hnonneg : ∀ a ∈ assignedLimits hosts containers resources db answers, 0 ≤ a := by
    intro a ha
    obtain ⟨c, hc, rfl⟩ := mem_assignedLimits ha
    exact h.nonneg c hc
  have htotal : ∀ a ∈ assignedLimits hosts containers resources db answers,
      a ≤ ∑ i ∈ range m, f i := by
    intro a ha
    obtain ⟨c, hc, rfl⟩ := mem_assignedLimits ha
    refine le_trans ?_ h.fits
    refine List.single_le_sum (fun x hx => ?_) _ (List.mem_map_of_mem hc)
    obtain ⟨c', hc', rfl⟩ := List.mem_map.1 hx
    exact h.nonneg c' hc'
  obtain ⟨puts, hputs, hshares⟩ := initHostNodeRescaler_shares h hosts resources answers
  rw [← sum_filled_le_iff (fun i _ => hf i) hnonneg htotal]
  constructor
  · rintro ⟨puts', hputs', hfit⟩ i hi
    obtain rfl : puts = puts' := Except.ok.inj (hputs.symm.trans hputs')
    rw [← hshares i hi]
    exact hfit i hi
  · intro hfit
    refine ⟨puts, hputs, fun i hi => ?_⟩
    rw [hshares i hi]
    exact hfit i hi

end

/-! ## Runs on one host -/

/-- The answer about a container that is not initialised. -/
def notInitialized : RequestedData := ⟨-1, -1, none, none⟩

/-- A container of host `a` with this limit. -/
def onHostA (container_name : String) (cpu_max : ℤ) : RescaledContainer :=
  ⟨container_name, "a", cpu_max, 1024, none⟩

/-- Two new containers on an empty host of two cores. -/
theorem addsTo_two {x y : ℤ} (hx : 0 ≤ x) (hy : 0 ≤ y) (hsum : x + y ≤ 200) :
    AddsTo "a" 2 (fun _ => 100) none [onHostA "a-cont0" x, onHostA "a-cont1" y] := by
  refine ⟨by decide, ?_, ?_, ?_, ?_, fun _ _ => rfl, ?_⟩
  · intro c hc
    rcases List.mem_cons.1 hc with rfl | hc
    · rfl
    · rw [List.mem_singleton.1 hc]
      rfl
  · exact fun c hc => hc
  · intro c hc
    rcases List.mem_cons.1 hc with rfl | hc
    · exact hx
    · rw [List.mem_singleton.1 hc]
      exact hy
  · intro core_mapping hmapping
    cases hmapping
  · rw [sum_range_succ, sum_range_one]
    simp only [List.map_cons, List.map_nil, List.sum_cons, List.sum_nil, onHostA]
    omega

/-- Two containers of 40 fit in the first core. -/
theorem noOverlap_iff_example : NoOverlap "a" 2 (fun _ => 100)
    [onHostA "a-cont0" 40, onHostA "a-cont1" 40] ["cpu"] none (fun _ _ => notInitialized) := by
  refine (noOverlap_iff (addsTo_two (by decide) (by decide) (by decide)) "a" ["cpu"]
    (fun _ _ => notInitialized)).2 (Or.inr ⟨0, by decide, ?_, ?_⟩)
  · intro i hi
    exact absurd hi (Nat.not_lt_zero i)
  · have hlimits : assignedLimits "a" [onHostA "a-cont0" 40, onHostA "a-cont1" 40] ["cpu"] none
        (fun _ _ => notInitialized) = [40, 40] := by decide +kernel
    rw [hlimits]
    decide

/-- **Two containers of a core each** on an empty host of two cores get the same core. -/
theorem overlap_on_first_core :
    AddsTo "a" 2 (fun _ => 100) none [onHostA "a-cont0" 100, onHostA "a-cont1" 100] ∧
      ¬ NoOverlap "a" 2 (fun _ => 100) [onHostA "a-cont0" 100, onHostA "a-cont1" 100] ["cpu"] none
        (fun _ _ => notInitialized) := by
  have hadds : AddsTo "a" 2 (fun _ => 100) none [onHostA "a-cont0" 100, onHostA "a-cont1" 100] :=
    addsTo_two (by decide) (by decide) (by decide)
  refine ⟨hadds, ?_⟩
  rintro ⟨puts, hputs, hfit⟩
  obtain ⟨puts', hputs', hshares⟩ := initHostNodeRescaler_shares hadds "a" ["cpu"]
    (fun _ _ => notInitialized)
  obtain rfl : puts' = puts := Except.ok.inj (hputs'.symm.trans hputs)
  have hlimits : assignedLimits "a" [onHostA "a-cont0" 100, onHostA "a-cont1" 100] ["cpu"] none
      (fun _ _ => notInitialized) = [100, 100] := by decide +kernel
  have hcore : _ ≤ (100 : ℤ) := hfit 0 (by decide)
  rw [hshares 0 (by decide), hlimits] at hcore
  have htwice : ([100, 100].map fun a => filled (fun _ => (100 : ℤ)) a 0).sum = 200 := by
    simp [filled]
  rw [htwice] at hcore
  omega

/-- **A host with a longer name** is never visited: no character equals its name. -/
theorem initHostNodeRescaler_of_long_names {hosts : String} {containers : List RescaledContainer}
    (h : ∀ c ∈ containers, c.host.length ≠ 1) (resources : List String) (db : StructuresDb)
    (answers : ℕ → ℕ → RequestedData) :
    initHostNodeRescaler hosts containers resources db answers = .ok [] := by
  obtain ⟨puts, hputs, hall⟩ := mapM_forall₂ (l := turns hosts containers)
    (g := fun turn => if String.singleton turn.1.1 ≠ turn.2.1.host then .ok none
      else visit resources db containers (answers turn.1.2 turn.2.2) turn.2.1)
    (P := fun _ put => put = none) (by
    intro turn hturn
    refine ⟨none, if_pos ?_, rfl⟩
    intro heq
    refine h _ (mem_of_mem_turns hturn) ?_
    rw [← heq]
    exact String.length_singleton)
  have hsame : puts.map id = (turns hosts containers).map fun _ => none :=
    map_eq_of_forall₂ (fun _ _ hput => hput) hall
  have hnone : puts.reduceOption = [] := by
    rw [List.map_id, List.map_const'] at hsame
    exact (List.reduceOption_eq_nil_iff puts).2 ⟨_, hsame⟩
  simp only [initHostNodeRescaler, hputs, hnone, bind, Except.bind]
  rfl

end ServerlessYarn
