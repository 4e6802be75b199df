/-
  ServerlessYARN model — the assignation policies
  (`ui/views/apps/utils.py`: `assign_fill_up`, `assign_cyclic`,
  `assign_best_effort` and their helpers).

  The three functions mutate the host records, `containers_to_allocate`,
  `assignation` and `disk_assignation`; here they pass a `Plan` along.  A host
  is referred to by its name.  The `while` loops recurse on a bound for their
  number of iterations: every iteration but the last allocates a container, so
  the number of containers still to allocate bounds them (`LoopBounds.lean`).
-/
import Mathlib.Algebra.BigOperators.Group.Finset.Basic
import ServerlessYarn.HostSelection

namespace ServerlessYarn

/-! ## The state of a placement -/

/-- An entry of `disk_assignation[host]`. -/
structure DiskPlan where
  new_containers : ℕ
  disk_path : String
  free_read : ℚ
  free_write : ℚ
  free_total : ℚ
deriving DecidableEq

/-- `disk_assignation`: per host, per disk. -/
abbrev DiskAssignation := Dict String (Dict String DiskPlan)

/-- An entry of `assignation`: the number of containers of each type present. -/
abbrev HostAssignation := ContainerType → Option ℕ

/-- The arguments that the assignation policies share. -/
structure Env where
  container_resources : ContainerResources
  check_disks : Bool
  check_energy : Bool
  limit_key : LimitKey

/-- What the assignation policies mutate. -/
structure Plan where
  hosts : Hosts
  containers_to_allocate : ContainerType → ℤ
  assignation : Dict String HostAssignation
  disk_assignation : DiskAssignation

def checkAvailableDisk (available_disk : DiskPlan) (requested_disk : Request) (key : LimitKey) :
    Bool :=
  let total := requested_disk.read key + requested_disk.write key
  decide (requested_disk.read key ≤ available_disk.free_read) &&
    decide (requested_disk.write key ≤ available_disk.free_write) &&
    decide (total ≤ available_disk.free_total)

def checkAvailableResources (host : Host) (container : Request) (resources : List Resource)
    (key : LimitKey) : Bool :=
  resources.all fun res => !decide (host.free res < container.get res key)

def containersNotAllocated (containers_to_allocate : ContainerType → ℤ) : ℤ :=
  ∑ t, containers_to_allocate t

/-- `["cpu", "mem"] + (["energy"] if check_energy else [])`. -/
def Env.resources_to_check (e : Env) : List Resource :=
  [.cpu, .mem] ++ if e.check_energy then [.energy] else []

/-- `container_type != "rm-nn" and check_disks`. -/
def Env.needsDisk (e : Env) (t : ContainerType) : Bool := decide (t ≠ .rm_nn) && e.check_disks

/-- The order in which the policies consider the container types. -/
def allocationOrder : List ContainerType := [.bigger, .regular, .smaller, .rm_nn]

theorem mem_allocationOrder (t : ContainerType) : t ∈ allocationOrder := by
  cases t <;> simp [allocationOrder]

def DiskPlan.charge (p : DiskPlan) (c : Request) (k : LimitKey) : DiskPlan :=
  { p with
    new_containers := p.new_containers + 1
    free_read := p.free_read - c.read k
    free_write := p.free_write - c.write k
    free_total := p.free_total - (c.read k + c.write k) }

namespace Plan

/-- `containers_to_allocate[t] -= 1` and
    `assignation[name][t] = assignation[name].get(t, 0) + 1`. -/
def assign (s : Plan) (name : String) (t : ContainerType) : Py Plan := do
  let _ ← getItem s.assignation name
  return { s with
    containers_to_allocate :=
      Function.update s.containers_to_allocate t (s.containers_to_allocate t - 1)
    assignation := s.assignation.modify name fun a =>
      Function.update a t (some ((a t).getD 0 + 1)) }

/-- `host['resources'][r]['free'] -= amount`. -/
def consume (s : Plan) (name : String) (r : Resource) (amount : ℚ) : Plan :=
  { s with hosts := s.hosts.modify name fun h => h.charge r amount }

/-- Charge a container to a disk of `disk_assignation`. -/
def chargeDisk (s : Plan) (name disk : String) (c : Request) (k : LimitKey) : Plan :=
  { s with
    disk_assignation := s.disk_assignation.modify name fun ds =>
      ds.modify disk fun p => p.charge c k }

end Plan

/-- `assign_freest_disk`; `none` stands for the result `False`. -/
def assignFreestDisk (s : Plan) (name : String) (container : Request) (limit_key : LimitKey) :
    Py (Option Plan) := do
  let host ← getItem s.hosts name
  match getFreestDisk host (container.read limit_key) (container.write limit_key) with
  | none => return none
  | some host_disk =>
    let disks ← getItem s.disk_assignation name
    let _ ← getItem disks host_disk
    let s := s.chargeDisk name host_disk container limit_key
    return some { s with
      hosts := s.hosts.modify name fun h => h.chargeDisk host_disk container limit_key }

/-- `available_resources` of the policies Fill-up and Cyclic: the disks are only
    looked at when the other resources are available. -/
def availableResources (e : Env) (s : Plan) (name : String) (host : Host) (t : ContainerType)
    (c : Request) : Py Bool :=
  if checkAvailableResources host c e.resources_to_check e.limit_key then
    if e.needsDisk t then do
      let disks ← getItem s.disk_assignation name
      return disks.entries.any fun d => checkAvailableDisk d.2 c e.limit_key
    else return true
  else return false

/-! ## Fill-up -/

/-- One iteration of the inner `while` of `assign_fill_up` on a host and a
    container type; `none` is its `break`. -/
def fillUpStep (e : Env) (name : String) (t : ContainerType) (s : Plan) : Py (Option Plan) := do
  let c ← e.container_resources.getItem t
  let host ← getItem s.hosts name
  let available_resources ← availableResources e s name host t c
  if available_resources then
    let s ← s.assign name t
    let s := s.consume name .cpu (c.get .cpu e.limit_key)
    let s := s.consume name .mem (c.get .mem e.limit_key)
    if e.needsDisk t then
      let disks ← getItem s.disk_assignation name
      match disks.entries.find? fun d => checkAvailableDisk d.2 c e.limit_key with
      | some (disk, _) => return some (s.chargeDisk name disk c e.limit_key)
      | none => return some s
    else return some s
  else return none

/-- `while containers_to_allocate[container_type] > 0`. -/
def fillUpWhile (e : Env) (name : String) (t : ContainerType) : ℕ → Plan → Py Plan
  | 0, s => return s
  | fuel + 1, s =>
    if 0 < s.containers_to_allocate t then do
      match ← fillUpStep e name t s with
      | some s' => fillUpWhile e name t fuel s'
      | none => return s
    else return s

/-- `for container_type in ["bigger", "regular", "smaller", "rm-nn"]`. -/
def fillUpTypes (e : Env) (name : String) : List ContainerType → Plan → Py Plan
  | [], s => return s
  | t :: ts, s => do
    let s' ← fillUpWhile e name t (s.containers_to_allocate t).toNat s
    fillUpTypes e name ts s'

/-- `for host in hosts`. -/
def fillUpHosts (e : Env) : List String → Plan → Py Plan
  | [], s => return s
  | name :: rest, s =>
    if containersNotAllocated s.containers_to_allocate ≤ 0 then return s
    else do
      let s' ← fillUpTypes e name allocationOrder s
      fillUpHosts e rest s'

def assignFillUp (e : Env) (s : Plan) : Py Plan := fillUpHosts e s.hosts.keys s

/-! ## Cyclic -/

/-- The visit of a host in a round of `assign_cyclic`: the types in order until
    one is allocated; `none` if no container is allocated on the host.  (The
    free bandwidth of the host, which the source also computes, is not used.) -/
def cyclicVisit (e : Env) (name : String) : List ContainerType → Plan → Py (Option Plan)
  | [], _ => return none
  | t :: ts, s =>
    if 0 < s.containers_to_allocate t then do
      let c ← e.container_resources.getItem t
      let host ← getItem s.hosts name
      let available_resources ← availableResources e s name host t c
      if available_resources then
        if e.needsDisk t then
          match ← assignFreestDisk s name c e.limit_key with
          | none => return none
          | some s =>
            let s := s.consume name .cpu (c.get .cpu e.limit_key)
            let s := s.consume name .mem (c.get .mem e.limit_key)
            return some (← s.assign name t)
        else
          let s := s.consume name .cpu (c.get .cpu e.limit_key)
          let s := s.consume name .mem (c.get .mem e.limit_key)
          return some (← s.assign name t)
      else cyclicVisit e name ts s
    else cyclicVisit e name ts s

/-- A round of `assign_cyclic`, with the hosts saved for the next round. -/
def cyclicRound (e : Env) : List String → Plan → List String → Py (Plan × List String)
  | [], s, next_round_hosts => return (s, next_round_hosts)
  | name :: rest, s, next_round_hosts =>
    if containersNotAllocated s.containers_to_allocate ≤ 0 then return (s, next_round_hosts)
    else do
      match ← cyclicVisit e name allocationOrder s with
      | some s' => cyclicRound e rest s' (next_round_hosts ++ [name])
      | none => cyclicRound e rest s next_round_hosts

/-- `while containersNotAllocated(...) > 0 and len(available_hosts) > 0`. -/
def cyclicWhile (e : Env) : ℕ → List String → Plan → Py Plan
  | 0, _, s => return s
  | fuel + 1, available_hosts, s =>
    if 0 < containersNotAllocated s.containers_to_allocate ∧ available_hosts ≠ [] then do
      let (s', next_round_hosts) ← cyclicRound e available_hosts s []
      cyclicWhile e fuel next_round_hosts s'
    else return s

def assignCyclic (e : Env) (hosts : List String) (s : Plan) : Py Plan :=
  cyclicWhile e ((containersNotAllocated s.containers_to_allocate).toNat + 1) hosts s

/-! ## Best-effort -/

/-- The subtractions and the assignation at the end of an iteration of
    `assign_best_effort`. -/
def bestEffortAssign (e : Env) (name : String) (t : ContainerType) (c : Request) (s : Plan) :
    Py Plan :=
  let s := if e.check_energy then s.consume name .energy (c.get .energy e.limit_key) else s
  let s := s.consume name .cpu (c.get .cpu e.limit_key)
  let s := s.consume name .mem (c.get .mem e.limit_key)
  s.assign name t

/-- The `for` loop of an iteration of `assign_best_effort`: only the first type
    with containers to allocate is tried; `none` if nothing is allocated. -/
def bestEffortStep (e : Env) : List ContainerType → Plan → Py (Option Plan)
  | [], _ => return none
  | t :: ts, s =>
    if 0 < s.containers_to_allocate t then do
      let c ← e.container_resources.getItem t
      match ← getFreestHost s.hosts c (e.needsDisk t) e.check_energy e.limit_key with
      | none => return none
      | some name =>
        if e.needsDisk t then
          match ← assignFreestDisk s name c e.limit_key with
          | none => return none
          | some s => return some (← bestEffortAssign e name t c s)
        else return some (← bestEffortAssign e name t c s)
    else bestEffortStep e ts s

/-- `while containersNotAllocated(containers_to_allocate) > 0`. -/
def bestEffortWhile (e : Env) : ℕ → Plan → Py Plan
  | 0, s => return s
  | fuel + 1, s =>
    if 0 < containersNotAllocated s.containers_to_allocate then do
      match ← bestEffortStep e allocationOrder s with
      | some s' => bestEffortWhile e fuel s'
      | none => return s
    else return s

def assignBestEffort (e : Env) (s : Plan) : Py Plan :=
  bestEffortWhile e (containersNotAllocated s.containers_to_allocate).toNat s

end ServerlessYarn
