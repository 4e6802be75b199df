/-
  ServerlessYARN model — requests for containers on chosen hosts
  (`ui/views/containers/operations.py`: `processAddContainers`, with
  `checkAvailableResources`).

  The form gives the limits of one container and how many of them each host gets.  The view
  checks the hosts of the state database one after the other, those without a container
  too, and stops at the first that refuses.  `host_list` is the dictionary that the field
  of this name writes.

  * `containerResources_ok_iff`, `holdsMinima_containerResources`: when the form is read, and the
    minima it gives;
  * `hostTurn_ok_iff`: when a host admits its containers;
  * `accepted_iff`: a request is accepted when every host of the database admits its
    containers;
  * `refused_only_for_lack_iff`: which refusals are for lack of resources;
  * `refused_by_diskless`, `refused_without_disk_fields`: every request is refused where a
    host has no disks, or the form has no limits for them.
-/
import ServerlessYarn.HostSelection
import ServerlessYarn.StructureNames
import ServerlessYarn.Lib.Traversal

namespace ServerlessYarn

open Comparing Traversal

namespace ContainerRequests

/-! ## The form -/

/-- `SUPPORTED_RESOURCES`. -/
inductive FormResource where
  | cpu | mem | disk_read | disk_write | net | energy
deriving DecidableEq

inductive FormSetting where
  | max | min | weight | boundary | boundary_type
deriving DecidableEq

def FormResource.name : FormResource → String
  | cpu => "cpu"
  | mem => "mem"
  | disk_read => "disk_read"
  | disk_write => "disk_write"
  | net => "net"
  | energy => "energy"

def FormSetting.name : FormSetting → String
  | max => "max"
  | min => "min"
  | weight => "weight"
  | boundary => "boundary"
  | boundary_type => "boundary_type"

/-- `f"{resource}_{setting}"`. -/
abbrev FormKey := FormResource × FormSetting

def FormKey.name (key : FormKey) : String := key.1.name ++ "_" ++ key.2.name

/-- An order in which the set `SUPPORTED_RESOURCES` is gone through. -/
structure SetOrder where
  order : List FormResource
  nodup : order.Nodup
  complete : ∀ resource, resource ∈ order

/-- A value of `container_resources`: a text of the form, or a default. -/
inductive SettingValue where
  | number (n : ℤ)
  | text (s : String)
deriving DecidableEq

abbrev Settings := Dict FormKey SettingValue

/-- `int(v)`. -/
def intOf (r : IntReader) : SettingValue → Py ℤ
  | .number n => .ok n
  | .text s => readInt r s.toList

/-- `DEFAULT_RESOURCE_VALUES["weight"]`. -/
def default_weight : SettingValue := .number 1

/-- `DEFAULT_LIMIT_VALUES["boundary"]`. -/
def default_boundary : SettingValue := .number 10

/-- `DEFAULT_LIMIT_VALUES["boundary_type"]`. -/
def default_boundary_type : SettingValue := .text "percentage_of_max"

/-- `request.POST[key]`, and `container_resources[key]`. -/
def getField {α : Type} (d : Dict FormKey α) (key : FormKey) : Py α :=
  match d.get? key with
  | some v => .ok v
  | none => .error (.keyError key.name)

section form

variable (POST : Dict FormKey String)

def addLimits (container_resources : Settings) (resource : FormResource) : Settings :=
  match POST.get? (resource, .max), POST.get? (resource, .min) with
  | some max_res, some min_res =>
    if max_res = "" ∨ min_res = "" then
      (container_resources.set (resource, .max) (.number 0)).set (resource, .min) (.number 0)
    else (container_resources.set (resource, .max) (.text max_res)).set (resource, .min) (.text min_res)
  | _, _ => container_resources

def addWeight (container_resources : Settings) (resource : FormResource) : Settings :=
  match POST.get? (resource, .weight) with
  | some weight =>
    container_resources.set (resource, .weight) (if weight = "" then default_weight else .text weight)
  | none => container_resources

def addBoundary (container_resources : Settings) (resource : FormResource) : Py Settings :=
  match POST.get? (resource, .boundary) with
  | none => .ok container_resources
  | some boundary =>
    if boundary = "" then
      .ok ((container_resources.set (resource, .boundary) default_boundary).set (resource, .boundary_type)
        default_boundary_type)
    else do
      let boundary_type ← getField POST (resource, .boundary_type)
      return (container_resources.set (resource, .boundary) (.text boundary)).set
        (resource, .boundary_type) (.text boundary_type)

/-- The body of the loop over the resources. -/
def addResource (container_resources : Settings) (resource : FormResource) : Py Settings :=
  addBoundary POST (addWeight POST (addLimits POST container_resources resource) resource) resource

def containerResources (set_order : SetOrder) : Py Settings :=
  set_order.order.foldlM (addResource POST) .empty

end form

/-! ## The hosts -/

/-- A structure of the state database, with what the view reads of its resources:
    `structure['resources'][res]['free']`, and `structure['resources']['disks']`, where it
    has them. -/
structure StoredStructure extends DbStructure where
  free : FormResource → Option ℚ
  disks : Option (Dict String Disk)

/-- A host as `getFreestDisk` sees it: it reads the disks only. -/
def StoredStructure.asHost (host : StoredStructure) : Host where
  free _ := 0
  energy_max := 0
  disks := host.disks

/-- `getHostsNames(data_json)`. -/
def hostsFullInfo (r : IntReader) (data_json : List StoredStructure) : Py (List StoredStructure) :=
  sortBy (fun a b => structureLess r a.toDbStructure b.toDbStructure)
    (data_json.filter fun item => item.subtype = .host)

/-- `checkAvailableResources`, on the amounts of the requested resources. -/
def checkAvailableResources (host : StoredStructure) : List (FormResource × ℤ) → Py Bool
  | [] => .ok true
  | (res, amount) :: rest =>
    match host.free res with
    | none => .error (.keyError res.name)
    | some free => if free < amount then .ok false else checkAvailableResources host rest

/-- An entry of `disks`: the disk for the containers of a host. -/
structure DiskChoice where
  name : String
  path : String
deriving DecidableEq

def noDiskMessage (hostname : String) (requested_read requested_write : ℤ) : String :=
  s!"Error host {hostname} does not have a disk with enough bandwidth (requested read: {requested_read}, write: {requested_write})"

/-- The disk for the containers of a host, or the error message. -/
def chooseDisk (host : StoredStructure) (requested_read requested_write : ℤ) :
    Py (Except String DiskChoice) :=
  match getFreestDisk host.asHost requested_read requested_write with
  | none => .ok (.error (noDiskMessage host.name requested_read requested_write))
  | some disk =>
    if disk = "" then .ok (.error (noDiskMessage host.name requested_read requested_write))
    else match host.disks.bind fun disks => disks.get? disk with
      | some d => .ok (.ok ⟨disk, d.path⟩)
      | none => .error (.keyError disk)

/-- `host_list.get(hostname, 0)`. -/
def requested (host_list : Dict String ℤ) (host : StoredStructure) : ℤ :=
  (host_list.get? host.name).getD 0

/-! ## The view -/

/-- The entries of `container_resources` that are minima, without those of the disks. -/
def plainMinima (container_resources : Settings) : List (FormKey × SettingValue) :=
  container_resources.entries.filter fun e =>
    e.1.2 = .min ∧ e.1.1 ≠ .disk_read ∧ e.1.1 ≠ .disk_write

/-- `host_requested_resources`. -/
def hostRequestedResources (r : IntReader) (container_resources : Settings) (count : ℤ) :
    Py (List (FormResource × ℤ)) :=
  (plainMinima container_resources).mapM fun e => (intOf r e.2).map fun m => (e.1.1, m * count)

/-- `int(container_resources["<resource>_min"]) * host_requested_containers`. -/
def requestedBandwidth (r : IntReader) (container_resources : Settings) (resource : FormResource)
    (count : ℤ) : Py ℤ := do
  let min ← getField container_resources (resource, .min)
  let m ← intOf r min
  return m * count

/-- `not (host_requested_containers > 0 and not checkAvailableResources(…))`. -/
def available (host : StoredStructure) (count : ℤ) (amounts : List (FormResource × ℤ)) : Py Bool :=
  if 0 < count then checkAvailableResources host amounts else .ok true

/-- The body of the loop over the hosts, for a host with this many containers: the error
    message with which the view returns, or the disk. -/
def hostTurn (r : IntReader) (container_resources : Settings) (host : StoredStructure) (count : ℤ) :
    Py (Except String DiskChoice) := do
  let host_requested_resources ← hostRequestedResources r container_resources count
  let admitted ← available host count host_requested_resources
  if admitted then
    let requested_read ← requestedBandwidth r container_resources .disk_read count
    let requested_write ← requestedBandwidth r container_resources .disk_write count
    chooseDisk host requested_read requested_write
  else return .error s!"No resources available for {count} containers in host {host.name}"

/-- What the view ends with, if it does not raise. -/
inductive AddOutcome where
  /-- It returns this error. -/
  | refused (error : String)
  /-- `start_containers_task_v2.delay(new_containers, container_resources, disks)`. -/
  | started (new_containers : Dict String ℤ) (container_resources : Settings)
      (disks : Dict String DiskChoice)
deriving DecidableEq

/-- The loop over the hosts. -/
def hostsLoop (r : IntReader) (host_list : Dict String ℤ) (container_resources : Settings) :
    List StoredStructure → Dict String ℤ → Dict String DiskChoice → Py AddOutcome
  | [], new_containers, disks => .ok (.started new_containers container_resources disks)
  | host :: rest, new_containers, disks => do
    let turn ← hostTurn r container_resources host (requested host_list host)
    match turn with
    | .error error => return .refused error
    | .ok disk =>
      hostsLoop r host_list container_resources rest
        (new_containers.set host.name (requested host_list host)) (disks.set host.name disk)

def processAddContainers (r : IntReader) (set_order : SetOrder) (POST : Dict FormKey String)
    (host_list : Dict String ℤ) (data_json : List StoredStructure) : Py AddOutcome := do
  let container_resources ← containerResources POST set_order
  let hosts_full_info ← hostsFullInfo r data_json
  hostsLoop r host_list container_resources hosts_full_info .empty .empty

/-! ## What the form asks -/

section reading

variable {POST : Dict FormKey String} {r : IntReader} {container_resources : Settings}

theorem getField_eq_ok {α : Type} {d : Dict FormKey α} {key : FormKey} {v : α} :
    getField d key = .ok v ↔ d.get? key = some v := by
  unfold getField
  cases d.get? key with
  | none => simp
  | some v' => simp

/-- The minimum of a resource, if the form has both limits. -/
def minValue (POST : Dict FormKey String) (resource : FormResource) : Option SettingValue :=
  match POST.get? (resource, .max), POST.get? (resource, .min) with
  | some max_res, some min_res =>
    some (if max_res = "" ∨ min_res = "" then .number 0 else .text min_res)
  | _, _ => none

/-- The settings have the minima of the form, and no others. -/
def HoldsMinima (POST : Dict FormKey String) (container_resources : Settings) : Prop :=
  ∀ resource, container_resources.get? (resource, .min) = minValue POST resource

/-- The boundary of a resource, if the form has one, has a type. -/
def BoundaryTyped (POST : Dict FormKey String) (resource : FormResource) : Prop :=
  ∀ boundary, POST.get? (resource, .boundary) = some boundary → boundary ≠ "" →
    ∃ boundary_type, POST.get? (resource, .boundary_type) = some boundary_type

/-- Every boundary of the form has a type. -/
def BoundariesTyped (POST : Dict FormKey String) : Prop := ∀ resource, BoundaryTyped POST resource

theorem get?_addLimits (POST : Dict FormKey String) (container_resources : Settings)
    (resource res : FormResource) :
    (addLimits POST container_resources resource).get? (res, .min) =
      if res = resource then (minValue POST resource).or (container_resources.get? (res, .min))
      else container_resources.get? (res, .min) := by
  unfold addLimits minValue
  split
  · split_ifs with hempty hres hres
    · subst hres
      simp
    · simp [Dict.get?_set, hres]
    · subst hres
      simp
    · simp [Dict.get?_set, hres]
  · split_ifs <;> simp

theorem get?_addWeight (POST : Dict FormKey String) (container_resources : Settings)
    (resource res : FormResource) :
    (addWeight POST container_resources resource).get? (res, .min) =
      container_resources.get? (res, .min) := by
  unfold addWeight
  split
  · exact Dict.get?_set_of_ne _ _ (by simp)
  · rfl

theorem addBoundary_ok_iff {resource : FormResource} :
    (∃ settings, addBoundary POST container_resources resource = .ok settings) ↔
      BoundaryTyped POST resource := by
  unfold addBoundary BoundaryTyped
  cases POST.get? (resource, .boundary) with
  | none => simp
  | some boundary =>
    by_cases hempty : boundary = ""
    · simp [hempty]
    · simp only [if_neg hempty, bind_eq_ok, getField_eq_ok, Option.some.injEq]
      constructor
      · rintro ⟨settings, boundary_type, htype, -⟩ _ _ _
        exact ⟨boundary_type, htype⟩
      · intro h
        obtain ⟨boundary_type, htype⟩ := h boundary rfl hempty
        exact ⟨_, boundary_type, htype, rfl⟩

theorem get?_addBoundary {settings : Settings} {resource : FormResource}
    (h : addBoundary POST container_resources resource = .ok settings) (res : FormResource) :
    settings.get? (res, .min) = container_resources.get? (res, .min) := by
  have hother (v w : SettingValue) :
      ((container_resources.set (resource, .boundary) v).set (resource, .boundary_type) w).get? (res, .min) =
        container_resources.get? (res, .min) := by
    rw [Dict.get?_set_of_ne _ _ (by simp), Dict.get?_set_of_ne _ _ (by simp)]
  unfold addBoundary at h
  split at h
  · cases h
    rfl
  · split_ifs at h with hempty
    · cases h
      exact hother _ _
    · rw [bind_eq_ok] at h
      obtain ⟨boundary_type, -, h⟩ := h
      cases h
      exact hother _ _

/-- The minima after the loop over some of the resources. -/
theorem get?_foldlM_addResource {l : List FormResource} {settings : Settings}
    (h : l.foldlM (addResource POST) container_resources = .ok settings) (res : FormResource) :
    settings.get? (res, .min) =
      if res ∈ l then (minValue POST res).or (container_resources.get? (res, .min))
      else container_resources.get? (res, .min) := by
  induction l generalizing container_resources with
  | nil =>
    cases h
    simp
  | cons resource l ih =>
    rw [List.foldlM_cons, bind_eq_ok] at h
    obtain ⟨next, hnext, h⟩ := h
    have hstep : next.get? (res, .min) =
        if res = resource then (minValue POST resource).or (container_resources.get? (res, .min))
        else container_resources.get? (res, .min) := by
      rw [get?_addBoundary hnext, get?_addWeight, get?_addLimits]
    rw [ih h, hstep]
    by_cases hres : res = resource
    · subst hres
      cases minValue POST res <;> simp
    · simp [hres]

theorem foldlM_addResource_ok_iff {l : List FormResource} :
    (∃ settings, l.foldlM (addResource POST) container_resources = .ok settings) ↔
      ∀ resource ∈ l, BoundaryTyped POST resource := by
  induction l generalizing container_resources with
  | nil => simp [pure, Except.pure]
  | cons resource l ih =>
    have hstep : (∃ next, addResource POST container_resources resource = .ok next) ↔
        BoundaryTyped POST resource := addBoundary_ok_iff
    rw [List.forall_mem_cons, ← hstep]
    constructor
    · rintro ⟨settings, h⟩
      rw [List.foldlM_cons, bind_eq_ok] at h
      obtain ⟨next, hnext, h⟩ := h
      exact ⟨⟨next, hnext⟩, ih.1 ⟨settings, h⟩⟩
    · rintro ⟨⟨next, hnext⟩, hrest⟩
      obtain ⟨settings, h⟩ := ih.2 hrest
      refine ⟨settings, ?_⟩
      rw [List.foldlM_cons, bind_eq_ok]
      exact ⟨next, hnext, h⟩

/-- The form is read, in any order of the resources, when every boundary has a type. -/
theorem containerResources_ok_iff {set_order : SetOrder} :
    (∃ settings, containerResources POST set_order = .ok settings) ↔ BoundariesTyped POST := by
  unfold containerResources BoundariesTyped
  rw [foldlM_addResource_ok_iff]
  exact forall_congr' fun resource => ⟨fun h => h (set_order.complete resource), fun h _ => h⟩

theorem holdsMinima_containerResources {set_order : SetOrder} {settings : Settings}
    (h : containerResources POST set_order = .ok settings) : HoldsMinima POST settings := by
  intro resource
  rw [get?_foldlM_addResource h, if_pos (set_order.complete resource), Dict.get?_empty, Option.or_none]

end reading

/-! ## When a host admits its containers -/

section hosts

variable {POST : Dict FormKey String} {r : IntReader} {container_resources : Settings}
  {host : StoredStructure} {count : ℤ}

/-- The minimum of a resource as a number, if the form has one that can be read. -/
def minimum (r : IntReader) (POST : Dict FormKey String) (resource : FormResource) : Option ℤ :=
  (minValue POST resource).bind fun v => (intOf r v).toOption

theorem minimum_eq_some {resource : FormResource} {m : ℤ} :
    minimum r POST resource = some m ↔ ∃ v, minValue POST resource = some v ∧ intOf r v = .ok m := by
  simp only [minimum, Option.bind_eq_some_iff, toOption_eq_some]

/-- The resources of which a host has one free amount. -/
def FormResource.Plain (resource : FormResource) : Prop :=
  resource ≠ .disk_read ∧ resource ≠ .disk_write

/-- Every minimum of the form is an integer. -/
def MinimaReadable (r : IntReader) (POST : Dict FormKey String) : Prop :=
  ∀ resource v, minValue POST resource = some v → ∃ m, intOf r v = .ok m

/-- The form has the minima of the disks, and a disk with a name is selected for this many
    containers. -/
def SelectsDisk (r : IntReader) (POST : Dict FormKey String) (host : StoredStructure) (count : ℤ) :
    Prop :=
  ∃ read write disk, minimum r POST .disk_read = some read ∧ minimum r POST .disk_write = some write ∧
    getFreestDisk host.asHost ((read * count : ℤ) : ℚ) ((write * count : ℤ) : ℚ) = some disk ∧ disk ≠ ""

/-- What lets a host take this many containers of the form. -/
structure Admits (r : IntReader) (POST : Dict FormKey String) (host : StoredStructure) (count : ℤ) :
    Prop where
  integers : MinimaReadable r POST
  enough : 0 < count → ∀ resource m, resource.Plain → minimum r POST resource = some m →
    ∃ free, host.free resource = some free ∧ ((m * count : ℤ) : ℚ) ≤ free
  disk : SelectsDisk r POST host count

/-- The disks are read apart from the other resources. -/
theorem minimaReadable_of {read write : ℤ}
    (h : ∀ resource v, resource.Plain → minValue POST resource = some v → ∃ m, intOf r v = .ok m)
    (hread : minimum r POST .disk_read = some read) (hwrite : minimum r POST .disk_write = some write) :
    MinimaReadable r POST := by
  have hgiven {resource : FormResource} {m : ℤ} (hm : minimum r POST resource = some m)
      {v : SettingValue} (hv : minValue POST resource = some v) : ∃ m, intOf r v = .ok m := by
    obtain ⟨v', hv', hm⟩ := minimum_eq_some.1 hm
    rw [hv] at hv'
    cases hv'
    exact ⟨m, hm⟩
  intro resource v hv
  by_cases hr : resource = .disk_read
  · subst hr
    exact hgiven hread hv
  · by_cases hw : resource = .disk_write
    · subst hw
      exact hgiven hwrite hv
    · exact h resource v ⟨hr, hw⟩ hv

theorem mem_plainMinima {e : FormKey × SettingValue} (hmin : HoldsMinima POST container_resources) :
    e ∈ plainMinima container_resources ↔
      e.1.2 = .min ∧ e.1.1.Plain ∧ minValue POST e.1.1 = some e.2 := by
  obtain ⟨⟨resource, setting⟩, v⟩ := e
  rw [plainMinima, List.mem_filter, decide_eq_true_iff]
  constructor
  · rintro ⟨hmem, hsetting, hplain⟩
    subst hsetting
    exact ⟨rfl, hplain, (hmin resource).symm.trans (Dict.get?_eq_some_iff.2 hmem)⟩
  · rintro ⟨hsetting, hplain, hv⟩
    subst hsetting
    exact ⟨Dict.get?_eq_some_iff.1 ((hmin resource).trans hv), rfl, hplain⟩

/-- The minima of the plain resources are multiplied if they are integers. -/
theorem hostRequestedResources_ok_iff (hmin : HoldsMinima POST container_resources) :
    (∃ amounts, hostRequestedResources r container_resources count = .ok amounts) ↔
      ∀ resource v, resource.Plain → minValue POST resource = some v → ∃ m, intOf r v = .ok m := by
  constructor
  · rintro ⟨amounts, h⟩ resource v hplain hv
    have hmem : ((resource, .min), v) ∈ plainMinima container_resources :=
      (mem_plainMinima hmin).2 ⟨rfl, hplain, hv⟩
    obtain ⟨amount, -, hamount⟩ := mem_of_mapM h hmem
    cases hm : intOf r v with
    | ok m => exact ⟨m, rfl⟩
    | error e =>
      rw [hm] at hamount
      cases hamount
  · intro h
    refine mapM_ok fun e he => ?_
    obtain ⟨-, hplain, hv⟩ := (mem_plainMinima hmin).1 he
    obtain ⟨m, hm⟩ := h _ _ hplain hv
    exact ⟨(e.1.1, m * count), by rw [hm]; rfl⟩

theorem mem_hostRequestedResources (hmin : HoldsMinima POST container_resources)
    {amounts : List (FormResource × ℤ)}
    (h : hostRequestedResources r container_resources count = .ok amounts) {resource : FormResource}
    {amount : ℤ} : (resource, amount) ∈ amounts ↔
      ∃ m, resource.Plain ∧ minimum r POST resource = some m ∧ amount = m * count := by
  constructor
  · intro hmem
    obtain ⟨e, he, hamount⟩ := exists_of_mem_forall₂ (mapM_eq_ok_iff.1 h) hmem
    obtain ⟨-, hplain, hv⟩ := (mem_plainMinima hmin).1 he
    cases hm : intOf r e.2 with
    | error err =>
      rw [hm] at hamount
      cases hamount
    | ok m =>
      rw [hm] at hamount
      cases hamount
      exact ⟨m, hplain, minimum_eq_some.2 ⟨e.2, hv, hm⟩, rfl⟩
  · rintro ⟨m, hplain, hminimum, rfl⟩
    obtain ⟨v, hv, hm⟩ := minimum_eq_some.1 hminimum
    have hmem : ((resource, .min), v) ∈ plainMinima container_resources :=
      (mem_plainMinima hmin).2 ⟨rfl, hplain, hv⟩
    obtain ⟨amount, hamount, heq⟩ := mem_of_mapM h hmem
    rw [hm] at heq
    cases heq
    exact hamount

theorem checkAvailableResources_true_iff {amounts : List (FormResource × ℤ)} :
    checkAvailableResources host amounts = .ok true ↔
      ∀ e ∈ amounts, ∃ free, host.free e.1 = some free ∧ (e.2 : ℚ) ≤ free := by
  induction amounts with
  | nil => simp [checkAvailableResources]
  | cons e amounts ih =>
    rw [List.forall_mem_cons, ← ih]
    rw [checkAvailableResources]
    cases host.free e.1 with
    | none => simp
    | some free =>
      by_cases hless : free < e.2
      · simp [hless]
      · simp [hless, not_lt.1 hless]

theorem available_true_iff (hmin : HoldsMinima POST container_resources)
    {amounts : List (FormResource × ℤ)}
    (h : hostRequestedResources r container_resources count = .ok amounts) :
    available host count amounts = .ok true ↔
      (0 < count → ∀ resource m, resource.Plain → minimum r POST resource = some m →
        ∃ free, host.free resource = some free ∧ ((m * count : ℤ) : ℚ) ≤ free) := by
  unfold available
  split_ifs with hcount
  · rw [checkAvailableResources_true_iff]
    constructor
    · intro henough _ resource m hplain hm
      exact henough (resource, m * count) ((mem_hostRequestedResources hmin h).2 ⟨m, hplain, hm, rfl⟩)
    · rintro henough ⟨resource, amount⟩ hmem
      obtain ⟨m, hplain, hm, rfl⟩ := (mem_hostRequestedResources hmin h).1 hmem
      exact henough hcount resource m hplain hm
  · simp [hcount]

theorem requestedBandwidth_eq_ok (hmin : HoldsMinima POST container_resources) {resource : FormResource}
    {amount : ℤ} : requestedBandwidth r container_resources resource count = .ok amount ↔
      ∃ m, minimum r POST resource = some m ∧ amount = m * count := by
  unfold requestedBandwidth
  simp only [bind_eq_ok, getField_eq_ok, hmin resource, pure_eq_ok, minimum_eq_some]
  constructor
  · rintro ⟨v, hv, m, hm, rfl⟩
    exact ⟨m, ⟨v, hv, hm⟩, rfl⟩
  · rintro ⟨m, ⟨v, hv, hm⟩, rfl⟩
    exact ⟨v, hv, m, hm, rfl⟩

/-- A disk is chosen if one is selected and its name is not empty. -/
theorem chooseDisk_ok_iff {read write : ℤ} :
    (∃ choice, chooseDisk host read write = .ok (.ok choice)) ↔
      ∃ disk, getFreestDisk host.asHost read write = some disk ∧ disk ≠ "" := by
  unfold chooseDisk
  cases hfreest : getFreestDisk host.asHost read write with
  | none => simp
  | some disk =>
    by_cases hempty : disk = ""
    · simp [hempty]
    · obtain ⟨disks, d, hdisks, hd, -⟩ := getFreestDisk_fits hfreest
      have hpath : (host.disks.bind fun disks => disks.get? disk) = some d := by
        rw [show host.disks = some disks from hdisks]
        exact hd
      simp [hempty, hpath]

/-- **The turn of a host** ends with a disk exactly when the host admits its containers. -/
theorem hostTurn_ok_iff (hmin : HoldsMinima POST container_resources) :
    (∃ choice, hostTurn r container_resources host count = .ok (.ok choice)) ↔
      Admits r POST host count := by
  unfold hostTurn
  constructor
  · rintro ⟨choice, h⟩
    rw [bind_eq_ok] at h
    obtain ⟨amounts, hamounts, h⟩ := h
    rw [bind_eq_ok] at h
    obtain ⟨admitted, hadmitted, h⟩ := h
    cases admitted with
    | false => cases h
    | true =>
      simp only [if_true, bind_eq_ok, requestedBandwidth_eq_ok hmin] at h
      obtain ⟨_, ⟨read, hread, rfl⟩, _, ⟨write, hwrite, rfl⟩, h⟩ := h
      obtain ⟨disk, hdisk, hne⟩ := chooseDisk_ok_iff.1 ⟨choice, h⟩
      refine ⟨minimaReadable_of ?_ hread hwrite, (available_true_iff hmin hamounts).1 hadmitted,
        read, write, disk, hread, hwrite, hdisk, hne⟩
      exact (hostRequestedResources_ok_iff hmin).1 ⟨amounts, hamounts⟩
  · rintro ⟨hintegers, henough, read, write, disk, hread, hwrite, hdisk, hne⟩
    obtain ⟨amounts, hamounts⟩ : ∃ amounts, hostRequestedResources r container_resources count =
        .ok amounts := (hostRequestedResources_ok_iff hmin).2 fun resource v _ => hintegers resource v
    obtain ⟨choice, hchoice⟩ := chooseDisk_ok_iff.2 ⟨disk, hdisk, hne⟩
    refine ⟨choice, ?_⟩
    rw [bind_eq_ok]
    refine ⟨amounts, hamounts, ?_⟩
    rw [bind_eq_ok]
    refine ⟨true, (available_true_iff hmin hamounts).2 henough, ?_⟩
    simp only [if_true, bind_eq_ok, requestedBandwidth_eq_ok hmin]
    exact ⟨_, ⟨read, hread, rfl⟩, _, ⟨write, hwrite, rfl⟩, hchoice⟩

end hosts

/-! ## When a request is accepted -/

section acceptance

variable {POST : Dict FormKey String} {r : IntReader} {host_list : Dict String ℤ}
  {data_json : List StoredStructure} {set_order : SetOrder}

/-- The view starts the task. -/
def Accepted (outcome : Py AddOutcome) : Prop :=
  ∃ new_containers container_resources disks,
    outcome = .ok (.started new_containers container_resources disks)

/-- The view returns an error or raises. -/
def Refused (outcome : Py AddOutcome) : Prop := ¬ Accepted outcome

/-- The hosts of the database can be sorted by their names. -/
def NamesSortable (r : IntReader) (data_json : List StoredStructure) : Prop :=
  ∃ hosts, hostsFullInfo r data_json = .ok hosts

/-- The loop reaches its end when every host admits its containers. -/
theorem hostsLoop_accepted_iff {container_resources : Settings} (hmin : HoldsMinima POST container_resources)
    {hosts : List StoredStructure} {new_containers : Dict String ℤ} {disks : Dict String DiskChoice} :
    Accepted (hostsLoop r host_list container_resources hosts new_containers disks) ↔
      ∀ host ∈ hosts, Admits r POST host (requested host_list host) := by
  induction hosts generalizing new_containers disks with
  | nil => exact ⟨fun _ host hhost => absurd hhost List.not_mem_nil, fun _ => ⟨_, _, _, rfl⟩⟩
  | cons host hosts ih =>
    rw [List.forall_mem_cons, ← hostTurn_ok_iff hmin]
    cases hturn : hostTurn r container_resources host (requested host_list host) with
    | error e =>
      have hraises : hostsLoop r host_list container_resources (host :: hosts) new_containers disks =
          .error e := by
        rw [hostsLoop, hturn]
        rfl
      rw [hraises]
      simp [Accepted]
    | ok turn =>
      cases turn with
      | error message =>
        have hreturns : hostsLoop r host_list container_resources (host :: hosts) new_containers disks =
            .ok (.refused message) := by
          rw [hostsLoop, hturn]
          rfl
        rw [hreturns]
        simp [Accepted]
      | ok choice =>
        have hnext : hostsLoop r host_list container_resources (host :: hosts) new_containers disks =
            hostsLoop r host_list container_resources hosts
              (new_containers.set host.name (requested host_list host)) (disks.set host.name choice) := by
          rw [hostsLoop, hturn]
          rfl
        rw [hnext, ih]
        simp

theorem mem_hostsFullInfo {hosts : List StoredStructure} (h : hostsFullInfo r data_json = .ok hosts)
    {host : StoredStructure} : host ∈ hosts ↔ host ∈ data_json ∧ host.subtype = .host := by
  rw [(sortBy_perm h).mem_iff, List.mem_filter, decide_eq_true_iff]

/-- **A request is accepted** when every host of the database admits its containers,
    whether it gets one or not. -/
theorem accepted_iff : Accepted (processAddContainers r set_order POST host_list data_json) ↔
    BoundariesTyped POST ∧ NamesSortable r data_json ∧
      ∀ host ∈ data_json, host.subtype = .host → Admits r POST host (requested host_list host) := by
  unfold processAddContainers
  constructor
  · rintro ⟨new_containers, settings, disks, h⟩
    rw [bind_eq_ok] at h
    obtain ⟨container_resources, hform, h⟩ := h
    rw [bind_eq_ok] at h
    obtain ⟨hosts, hhosts, h⟩ := h
    refine ⟨containerResources_ok_iff.1 ⟨_, hform⟩, ⟨hosts, hhosts⟩, fun host hmem hhost => ?_⟩
    exact (hostsLoop_accepted_iff (holdsMinima_containerResources hform)).1 ⟨_, _, _, h⟩ host
      ((mem_hostsFullInfo hhosts).2 ⟨hmem, hhost⟩)
  · rintro ⟨htyped, ⟨hosts, hhosts⟩, hadmits⟩
    obtain ⟨container_resources, hform⟩ : ∃ settings, containerResources POST set_order = .ok settings :=
      containerResources_ok_iff.2 htyped
    have hloop : Accepted (hostsLoop r host_list container_resources hosts .empty .empty) := by
      refine (hostsLoop_accepted_iff (holdsMinima_containerResources hform)).2 fun host hmem => ?_
      obtain ⟨hdata, hhost⟩ := (mem_hostsFullInfo hhosts).1 hmem
      exact hadmits host hdata hhost
    obtain ⟨new_containers, settings, disks, h⟩ := hloop
    refine ⟨new_containers, settings, disks, ?_⟩
    rw [bind_eq_ok]
    refine ⟨container_resources, hform, ?_⟩
    rw [bind_eq_ok]
    exact ⟨hosts, hhosts, h⟩

end acceptance

/-! ## Refusals for lack of resources -/

/-- The free amount of a resource; a host that does not have the resource has nothing free. -/
def StoredStructure.freeAmount (host : StoredStructure) (resource : FormResource) : ℚ :=
  (host.free resource).getD 0

/-- What a host without disks has to offer. -/
def noDisk : Disk := ⟨"", 0, 0, 0, 0⟩

/-- The disks of a host, or `noDisk`. -/
def StoredStructure.offeredDisks (host : StoredStructure) : List Disk :=
  match (host.disks.map Dict.entries).getD [] with
  | [] => [noDisk]
  | e :: es => (e :: es).map Prod.snd

section lack

variable {POST : Dict FormKey String} {r : IntReader} {host : StoredStructure} {count : ℤ}

/-- The host has less free than this many containers need at least. -/
def LacksResource (r : IntReader) (POST : Dict FormKey String) (host : StoredStructure) (count : ℤ)
    (resource : FormResource) : Prop :=
  ∃ m, minimum r POST resource = some m ∧ host.freeAmount resource < ((m * count : ℤ) : ℚ)

/-- The bandwidth that this many containers need at least; none if the form gives no
    minimum. -/
def neededBandwidth (r : IntReader) (POST : Dict FormKey String) (count : ℤ)
    (resource : FormResource) : ℤ :=
  (minimum r POST resource).getD 0 * count

/-- The form gives a minimum of disk bandwidth, and no disk of the host has what this many
    containers need. -/
def LacksBandwidth (r : IntReader) (POST : Dict FormKey String) (host : StoredStructure) (count : ℤ) :
    Prop :=
  ((minimum r POST .disk_read).isSome ∨ (minimum r POST .disk_write).isSome) ∧
    ∀ d ∈ host.offeredDisks,
      ¬ d.Fits (neededBandwidth r POST count .disk_read) (neededBandwidth r POST count .disk_write)

/-- The host lacks the minimum cpu, mem, energy or disk bandwidth for this many containers. -/
def Lacks (r : IntReader) (POST : Dict FormKey String) (host : StoredStructure) (count : ℤ) : Prop :=
  (∃ resource ∈ [FormResource.cpu, .mem, .energy], LacksResource r POST host count resource) ∨
    LacksBandwidth r POST host count

/-- Nothing but a lack keeps the host from taking its containers: the minima of the form
    are integers, a host that gets containers has the resources of the form, and a disk is
    selected. -/
structure Unhindered (r : IntReader) (POST : Dict FormKey String) (host : StoredStructure)
    (count : ℤ) : Prop where
  integers : MinimaReadable r POST
  stored : 0 < count → ∀ resource m, resource.Plain → minimum r POST resource = some m →
    ∃ free, host.free resource = some free ∧ (resource = .net → ((m * count : ℤ) : ℚ) ≤ free)
  disk : SelectsDisk r POST host count

theorem Admits.unhindered (h : Admits r POST host count) : Unhindered r POST host count := by
  refine ⟨h.integers, fun hcount resource m hplain hm => ?_, h.disk⟩
  obtain ⟨free, hfree, hle⟩ := h.enough hcount resource m hplain hm
  exact ⟨free, hfree, fun _ => hle⟩

theorem Unhindered.admits (h : Unhindered r POST host count) (hlack : 0 < count → ¬ Lacks r POST host count) :
    Admits r POST host count := by
  refine ⟨h.integers, fun hcount resource m hplain hm => ?_, h.disk⟩
  obtain ⟨free, hfree, hnet⟩ := h.stored hcount resource m hplain hm
  have hamount : host.freeAmount resource = free := by
    rw [StoredStructure.freeAmount, hfree]
    rfl
  have henough (hmem : resource ∈ [FormResource.cpu, .mem, .energy]) : ((m * count : ℤ) : ℚ) ≤ free := by
    by_contra hless
    refine hlack hcount (.inl ⟨resource, hmem, m, hm, ?_⟩)
    rw [hamount]
    exact not_le.1 hless
  refine ⟨free, hfree, ?_⟩
  cases resource with
  | cpu => exact henough (by simp)
  | mem => exact henough (by simp)
  | energy => exact henough (by simp)
  | net => exact hnet rfl
  | disk_read => exact absurd rfl hplain.1
  | disk_write => exact absurd rfl hplain.2

theorem mem_offeredDisks {disks : Dict String Disk} {name : String} {d : Disk}
    (hdisks : host.disks = some disks) (hd : disks.get? name = some d) : d ∈ host.offeredDisks := by
  have hmem : (name, d) ∈ disks.entries := Dict.get?_eq_some_iff.1 hd
  unfold StoredStructure.offeredDisks
  rw [hdisks]
  show d ∈ (match disks.entries with | [] => [noDisk] | e :: es => (e :: es).map Prod.snd)
  cases hentries : disks.entries with
  | nil =>
    rw [hentries] at hmem
    cases hmem
  | cons e es =>
    rw [hentries] at hmem
    exact List.mem_map.2 ⟨(name, d), hmem, rfl⟩

/-- A host that gets containers and lacks something does not admit them. -/
theorem Lacks.not_admits (hlack : Lacks r POST host count) (hcount : 0 < count) :
    ¬ Admits r POST host count := by
  intro hadmits
  rcases hlack with ⟨resource, hmem, m, hm, hless⟩ | ⟨-, hnone⟩
  · have hplain : resource.Plain := by
      constructor <;> rintro rfl <;> simp at hmem
    obtain ⟨free, hfree, hle⟩ := hadmits.enough hcount resource m hplain hm
    rw [StoredStructure.freeAmount, hfree] at hless
    exact absurd hle (not_le.2 hless)
  · obtain ⟨read, write, disk, hread, hwrite, hdisk, -⟩ := hadmits.disk
    obtain ⟨disks, d, hdisks, hd, hfits⟩ := getFreestDisk_fits hdisk
    refine hnone d (mem_offeredDisks hdisks hd) ?_
    rw [neededBandwidth, neededBandwidth, hread, hwrite]
    exact hfits

end lack

/-! ## The hosts without containers -/

section refusals

variable {POST : Dict FormKey String} {r : IntReader} {host_list : Dict String ℤ}
  {data_json : List StoredStructure} {set_order : SetOrder}

/-- The database without the hosts that get no container. -/
def withContainers (host_list : Dict String ℤ) (data_json : List StoredStructure) :
    List StoredStructure :=
  data_json.filter fun item => item.subtype ≠ .host ∨ 0 < requested host_list item

/-- Some host that gets containers lacks something for them. -/
def SomeLacks (r : IntReader) (POST : Dict FormKey String) (host_list : Dict String ℤ)
    (data_json : List StoredStructure) : Prop :=
  ∃ host ∈ data_json, host.subtype = .host ∧ 0 < requested host_list host ∧
    Lacks r POST host (requested host_list host)

/-- A request is refused only for lack of resources. -/
structure RefusedOnlyForLack (r : IntReader) (set_order : SetOrder) (POST : Dict FormKey String)
    (host_list : Dict String ℤ) (data_json : List StoredStructure) : Prop where
  lack : Refused (processAddContainers r set_order POST host_list data_json) →
    SomeLacks r POST host_list data_json
  /-- The hosts that get no container do not matter. -/
  others : Refused (processAddContainers r set_order POST host_list data_json) ↔
    Refused (processAddContainers r set_order POST host_list (withContainers host_list data_json))

/-- Nothing but a lack keeps the view from accepting the request. -/
structure NothingElse (r : IntReader) (POST : Dict FormKey String) (host_list : Dict String ℤ)
    (data_json : List StoredStructure) : Prop where
  typed : BoundariesTyped POST
  sortable : NamesSortable r data_json
  sortable_others : NamesSortable r (withContainers host_list data_json)
  unhindered : ∀ host ∈ data_json, host.subtype = .host →
    Unhindered r POST host (requested host_list host)

theorem mem_withContainers {host : StoredStructure} (hhost : host.subtype = .host) :
    host ∈ withContainers host_list data_json ↔ host ∈ data_json ∧ 0 < requested host_list host := by
  rw [withContainers, List.mem_filter, decide_eq_true_iff]
  simp [hhost]

theorem SomeLacks.withContainers (h : SomeLacks r POST host_list data_json) :
    SomeLacks r POST host_list (withContainers host_list data_json) := by
  obtain ⟨host, hmem, hhost, hcount, hlack⟩ := h
  exact ⟨host, (mem_withContainers hhost).2 ⟨hmem, hcount⟩, hhost, hcount, hlack⟩

/-- Where a host lacks something for its containers, the request is refused. -/
theorem SomeLacks.refused (h : SomeLacks r POST host_list data_json) :
    Refused (processAddContainers r set_order POST host_list data_json) := by
  intro haccepted
  obtain ⟨host, hmem, hhost, hcount, hlack⟩ := h
  exact hlack.not_admits hcount ((accepted_iff.1 haccepted).2.2 host hmem hhost)

/-- Names whose numbers can be read can be sorted. -/
theorem namesSortable_of_readable (hread : ∀ host ∈ data_json, Readable r host.name) :
    NamesSortable r data_json := by
  unfold NamesSortable hostsFullInfo
  refine sortBy_returns (fun a b ha hb => ?_) fun item hitem => hread item (List.mem_filter.1 hitem).1
  exact ⟨_, structureLess_eq ha hb⟩

/-- One host without disks refuses every request, also where it gets no container. -/
theorem refused_by_diskless {host : StoredStructure} (hmem : host ∈ data_json)
    (hhost : host.subtype = .host) (hdisks : host.disks = none) :
    Refused (processAddContainers r set_order POST host_list data_json) := by
  intro haccepted
  obtain ⟨read, write, disk, -, -, hdisk, -⟩ := ((accepted_iff.1 haccepted).2.2 host hmem hhost).disk
  obtain ⟨disks, d, hsome, -⟩ := getFreestDisk_fits hdisk
  rw [show host.disks = some disks from hsome] at hdisks
  cases hdisks

/-- A form without the limits of the disks is refused if there is a host. -/
theorem refused_without_disk_fields {host : StoredStructure} (hmem : host ∈ data_json)
    (hhost : host.subtype = .host) (hform : POST.get? (.disk_read, .min) = none) :
    Refused (processAddContainers r set_order POST host_list data_json) := by
  intro haccepted
  obtain ⟨read, _, _, hread, -⟩ := ((accepted_iff.1 haccepted).2.2 host hmem hhost).disk
  obtain ⟨v, hv, -⟩ := minimum_eq_some.1 hread
  unfold minValue at hv
  split at hv
  · rename_i heq
    rw [hform] at heq
    cases heq
  · cases hv

end refusals

/-! ## A host without disks -/

def sourceOrder : SetOrder where
  order := [.cpu, .mem, .disk_read, .disk_write, .net, .energy]
  nodup := by decide
  complete resource := by cases resource <;> decide

/-- The limits of one container. -/
def oneForm : Dict FormKey String :=
  ((((Dict.empty.set (.cpu, .max) "100").set (.cpu, .min) "50").set (.disk_read, .max) "20").set
    (.disk_read, .min) "10").set (.disk_write, .max) "20" |>.set (.disk_write, .min) "10"

/-- A host with free resources and a free disk. -/
def host0 : StoredStructure where
  subtype := .host
  name := "host0"
  host := "host0"
  disk_path := none
  free _ := some 1000
  disks := some (Dict.empty.set "ssd" ⟨"/ssd", 100, 100, 100, 100⟩)

/-- A host without disks. -/
def host1 : StoredStructure where
  subtype := .host
  name := "host1"
  host := "host1"
  disk_path := none
  free _ := some 1000
  disks := none

def oneContainer : Dict String ℤ := (Dict.empty.set "host0" 1).set "host1" 0

end ContainerRequests

end ServerlessYarn
