/-
  ServerlessYARN model — the assignation of an application's containers to
  hosts (`ui/views/apps/utils.py`: `getContainerAssignationForApp`).

  The function initialises the state of the placement, runs the policy and
  formats its result: `bigger` and `smaller` become `irregular`, and hosts
  without containers are left out.  `planContainers` is its part before the
  final checks, which also gives access to the state the policy ends in.
-/
import ServerlessYarn.Policies

namespace ServerlessYarn

/-- An entry of `new_containers`. -/
abbrev NewContainers := DeployType → Option ℕ

/-! ## Errors -/

/-- The free resources of a host, as the error reports them. -/
structure HostFree where
  cpu : ℚ
  mem : ℚ
  energy : Option ℚ
  disks : Option (List (String × ℚ × ℚ))
deriving DecidableEq

/-- The report of a host; with disk checks it reads `host['resources']['disks']`. -/
def Host.report (h : Host) (check_energy check_disks : Bool) : Py HostFree := do
  let disks ← if check_disks then
      match h.disks with
      | some ds => pure (some (ds.entries.map fun d => (d.1, d.2.free_read, d.2.free_write)))
      | none => .error (.keyError "disks")
    else pure none
  return ⟨h.free .cpu, h.free .mem, if check_energy then some (h.free .energy) else none, disks⟩

/-- The errors returned by `getContainerAssignationForApp`. -/
inductive AssignationError where
  | notSupported (assignation_policy : String)
  | couldNotAllocate (app_name : String) (container_resources : ContainerResources)
      (limit_key : LimitKey) (hosts : List (String × HostFree))

/-- The text of an error, given how the dictionaries of the requested and of
    the free resources are printed. -/
def AssignationError.text (requested : ContainerResources → LimitKey → String)
    (free : List (String × HostFree) → String) : AssignationError → String
  | .notSupported policy => String.join ["Assignation policy ", policy, " not supported. ",
      "Try one of [Fill-up, Cyclic, Best-effort] or a comma-separated list of hosts"]
  | .couldNotAllocate app_name cr k hosts => String.join [
      "Could not allocate containers for app ", app_name,
      ". Container requested resources: ", requested cr k,
      ". Hosts free resources: ", free hosts]

/-- No error has the text `""`, which stands for success. -/
theorem AssignationError.text_ne_empty (requested : ContainerResources → LimitKey → String)
    (free : List (String × HostFree) → String) (err : AssignationError) :
    err.text requested free ≠ "" := by
  cases err <;> simp [text]

/-! ## The initial state -/

/-- `containers_to_allocate`. -/
def toAllocate (cr : ContainerResources) (number_of_containers : ℤ) : ContainerType → ℤ
  | .bigger => if cr.bigger.isSome then 1 else 0
  | .smaller => if cr.smaller.isSome then 1 else 0
  | .rm_nn => if cr.rm_nn.isSome then 1 else 0
  | .regular => number_of_containers - (if cr.bigger.isSome then 1 else 0) -
      (if cr.smaller.isSome then 1 else 0) - (if cr.rm_nn.isSome then 1 else 0)

/-- The server is reserved for the master container. -/
def reservesServer (cfg : PlatformConfig) (cr : ContainerResources) : Bool :=
  cr.rm_nn.isSome && cfg.server_as_host && cfg.reserve_server_for_master

/-- The entry of a disk in `disk_assignation` before the placement. -/
def Disk.plan (d : Disk) : DiskPlan where
  new_containers := 0
  disk_path := d.path
  free_read := d.free_read
  free_write := d.free_write
  free_total := d.total_free

/-- `{t: n}` as the assignation of a host. -/
def HostAssignation.single (t : ContainerType) (n : ℕ) : HostAssignation :=
  Function.update (fun _ => none) t (some n)

/-- The state before the policy runs. -/
def initialPlan (cfg : PlatformConfig) (server_name : String) (hosts : Hosts)
    (number_of_containers : ℤ) (cr : ContainerResources) : Plan :=
  let available := if reservesServer cfg cr then hosts.erase server_name else hosts
  { hosts := available
    containers_to_allocate :=
      if reservesServer cfg cr then Function.update (toAllocate cr number_of_containers) .rm_nn 0
      else toAllocate cr number_of_containers
    assignation :=
      (if reservesServer cfg cr then Dict.empty.set server_name (.single .rm_nn 1)
        else Dict.empty).setAll (fun _ => HostAssignation.single .regular 0) available.keys
    disk_assignation := available.filterMap fun _ h =>
      if cfg.check_disks then h.disks.map (·.mapVal fun _ d => d.plan) else none }

/-- `"min" if allow_oversubscription else "max"`. -/
def limitKey (allow_oversubscription : Bool) : LimitKey :=
  if allow_oversubscription then .min else .max

def PlatformConfig.env (cfg : PlatformConfig) (allow_oversubscription : Bool)
    (cr : ContainerResources) : Env where
  container_resources := cr
  check_disks := cfg.check_disks
  check_energy := cfg.power_budgeting
  limit_key := limitKey allow_oversubscription

/-! ## The assignation -/

/-- Run the policy; `none` if it is not supported. -/
def applyPolicy (e : Env) (assignation_policy : String) (s : Plan) : Py (Option Plan) :=
  if assignation_policy = "Fill-up" then some <$> assignFillUp e s
  else if assignation_policy = "Cyclic" then some <$> assignCyclic e s.hosts.keys s
  else if assignation_policy = "Best-effort" then some <$> assignBestEffort e s
  else if ∀ name ∈ splitComma assignation_policy, name ∈ s.hosts.keys then
    some <$> assignCyclic e (splitComma assignation_policy) s
  else return none

/-- The arguments of `getContainerAssignationForApp`, with the platform
    configuration and the server name it looks up. -/
structure AppRequest where
  cfg : PlatformConfig
  server_name : String
  assignation_policy : String
  allow_oversubscription : Bool
  hosts : Hosts
  number_of_containers : ℤ
  container_resources : ContainerResources
  app_name : String

namespace AppRequest

def env (q : AppRequest) : Env := q.cfg.env q.allow_oversubscription q.container_resources

/-- `limit_key`. -/
def key (q : AppRequest) : LimitKey := limitKey q.allow_oversubscription

def reserved (q : AppRequest) : Bool := reservesServer q.cfg q.container_resources

def initial (q : AppRequest) : Plan :=
  initialPlan q.cfg q.server_name q.hosts q.number_of_containers q.container_resources

end AppRequest

/-- The state in which the policy ends; `none` if the policy is not supported. -/
def planContainers (q : AppRequest) : Py (Option Plan) :=
  applyPolicy q.env q.assignation_policy q.initial

/-- The entry of a host in `new_containers`, key by key. -/
def formatHost (a : HostAssignation) : NewContainers
  | .regular => if 0 < (a .regular).getD 0 then a .regular else none
  | .irregular =>
    if (a .smaller).isSome ∨ (a .bigger).isSome then
      some ((a .bigger).getD 0 + (a .smaller).getD 0)
    else none
  | .rm_nn => a .rm_nn

/-- `new_containers`: a host has an entry if one of its keys is set. -/
def formatAssignation (assignation : Dict String HostAssignation) : Dict String NewContainers :=
  assignation.filterMap fun _ a =>
    if ∃ dt, (formatHost a dt).isSome then some (formatHost a) else none

/-- What `getContainerAssignationForApp` returns; `none` is the error `""`. -/
structure AssignationResult where
  new_containers : Dict String NewContainers
  disk_assignation : DiskAssignation
  error : Option AssignationError

def getContainerAssignationForApp (q : AppRequest) : Py AssignationResult := do
  match ← planContainers q with
  | none => return ⟨.empty, q.initial.disk_assignation, some (.notSupported q.assignation_policy)⟩
  | some s =>
    if 0 < containersNotAllocated s.containers_to_allocate then
      let free ← s.hosts.entries.mapM fun h => do
        return (h.1, ← h.2.report q.cfg.power_budgeting q.cfg.check_disks)
      return ⟨.empty, s.disk_assignation,
        some (.couldNotAllocate q.app_name q.container_resources q.key free)⟩
    else return ⟨formatAssignation s.assignation, s.disk_assignation, none⟩

/-- A successful call formats the assignation in which the policy ended, with
    nothing left to allocate. -/
theorem getContainerAssignationForApp_ok {q : AppRequest} {r : AssignationResult}
    (h : getContainerAssignationForApp q = .ok r) (herr : r.error = none) :
    ∃ s, planContainers q = .ok (some s) ∧ containersNotAllocated s.containers_to_allocate ≤ 0 ∧
      r = ⟨formatAssignation s.assignation, s.disk_assignation, none⟩ := by
  unfold getContainerAssignationForApp at h
  obtain ⟨o, ho, h⟩ := bind_eq_ok.1 h
  cases o with
  | none => cases pure_eq_ok.1 h; cases herr
  | some s =>
    simp only at h
    split_ifs at h with hleft
    · obtain ⟨free, -, h⟩ := bind_eq_ok.1 h
      cases pure_eq_ok.1 h; cases herr
    · exact ⟨s, ho, not_lt.1 hleft, (pure_eq_ok.1 h).symm⟩

/-- If the policy leaves nothing to allocate, the call succeeds. -/
theorem getContainerAssignationForApp_of_plan {q : AppRequest} {s : Plan}
    (hs : planContainers q = .ok (some s))
    (hleft : containersNotAllocated s.containers_to_allocate ≤ 0) :
    getContainerAssignationForApp q =
      .ok ⟨formatAssignation s.assignation, s.disk_assignation, none⟩ := by
  unfold getContainerAssignationForApp
  simp only [hs, bind, Except.bind, if_neg (not_lt.2 hleft)]
  rfl

/-- A call that returns an error assigns no container. -/
theorem getContainerAssignationForApp_error {q : AppRequest} {r : AssignationResult}
    (h : getContainerAssignationForApp q = .ok r) (herr : r.error.isSome) :
    r.new_containers = .empty := by
  unfold getContainerAssignationForApp at h
  obtain ⟨o, ho, h⟩ := bind_eq_ok.1 h
  cases o with
  | none => cases pure_eq_ok.1 h; rfl
  | some s =>
    simp only at h
    split_ifs at h with hleft
    · obtain ⟨free, -, h⟩ := bind_eq_ok.1 h
      cases pure_eq_ok.1 h; rfl
    · cases pure_eq_ok.1 h; cases herr

/-- The result of a call that returns the error `""`. -/
def AppRequest.result? (q : AppRequest) : Option AssignationResult :=
  match getContainerAssignationForApp q with
  | .ok r => if r.error.isNone then some r else none
  | .error _ => none

theorem AppRequest.result?_eq_some {q : AppRequest} {r : AssignationResult} :
    q.result? = some r ↔ getContainerAssignationForApp q = .ok r ∧ r.error = none := by
  unfold result?
  rcases getContainerAssignationForApp q with err | r'
  · simp
  · simp only [Option.isNone_iff_eq_none, Option.ite_none_right_eq_some, Option.some.injEq,
      Except.ok.injEq]
    constructor
    · rintro ⟨h, rfl⟩; exact ⟨rfl, h⟩
    · rintro ⟨rfl, h⟩; exact ⟨h, rfl⟩

end ServerlessYarn
