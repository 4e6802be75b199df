/-
  ServerlessYARN model — concurrent starts of applications
  (`ui/background_tasks.py`: `start_app_task` and `start_hadoop_app_task`,
  `wait_for_app_dependency` with `check_space_for_app`).

  A task reads the free resources of the hosts from the state database and
  computes an assignation; later it deploys the containers, and the orchestrator
  subtracts what they request.  In between other tasks may do the same.

  * `starts_respect_free`: the containers of all tasks stay within what the
    hosts had free, if every task registers its containers on the free
    resources that it has read.
-/
import Mathlib.Algebra.BigOperators.Group.Finset.Piecewise
import Mathlib.Data.Fintype.BigOperators
import ServerlessYarn.Capacity
import ServerlessYarn.Lib.Run

namespace ServerlessYarn

/-! ## Checking the space -/

/-- A key of `app_resources`. -/
inductive AppResource where
  | host (r : Resource)
  | disk_read
  | disk_write
deriving DecidableEq

/-- The limits of a resource of the application that are checked. -/
structure AppLimits where
  min : ℚ
  current : ℚ
deriving DecidableEq

/-- A task that starts an application: its assignation requirements, with the
    configuration and the server name that it looks up. -/
structure StartTask where
  cfg : PlatformConfig
  server_name : String
  app : String
  app_resources : Dict AppResource AppLimits
  assignation_policy : String
  allow_oversubscription : Bool
  number_of_containers : ℤ
  container_resources : ContainerResources
  /-- The reserved disks of a host: `allocation_exclusions[host]['disks']`. -/
  allocation_exclusions : Dict String (Option (List String))

namespace StartTask

/-- Remove the reserved disks of a host. -/
def excludeDisks (t : StartTask) (name : String) (host : Host) : Host :=
  if t.cfg.check_disks then
    match (t.allocation_exclusions.get? name).join with
    | some disks =>
      { host with disks := host.disks.map (·.filterMap fun disk d => if disk ∈ disks then none else some d) }
    | none => host
  else host

/-- The hosts offered to the assignation. -/
def offered (t : StartTask) (hosts : Hosts) : Hosts := hosts.mapVal t.excludeDisks

/-- An entry of `free_resources`. -/
def freeResource (t : StartTask) (hosts : Hosts) : AppResource → ℚ
  | .host r => hosts.sum fun _ h => h.free r
  | .disk_read =>
    if t.cfg.check_disks then
      (t.offered hosts).sum fun _ h => (h.disks.map (·.sum fun _ d => d.free_read)).getD 0
    else 0
  | .disk_write =>
    if t.cfg.check_disks then
      (t.offered hosts).sum fun _ h => (h.disks.map (·.sum fun _ d => d.free_write)).getD 0
    else 0

/-- The call of `getContainerAssignationForApp`. -/
def request (t : StartTask) (hosts : Hosts) : AppRequest where
  cfg := t.cfg
  server_name := t.server_name
  assignation_policy := t.assignation_policy
  allow_oversubscription := t.allow_oversubscription
  hosts := t.offered hosts
  number_of_containers := t.number_of_containers
  container_resources := t.container_resources
  app_name := t.app

/-- `limit_key` of the task. -/
def key (t : StartTask) : LimitKey := limitKey t.allow_oversubscription

/-- The server is reserved for the master of the task. -/
def reserved (t : StartTask) : Bool := reservesServer t.cfg t.container_resources

end StartTask

/-- Why a task does not start. -/
inductive SpaceError where
  | noCapacity (app_name : String) (app_resources : Dict AppResource AppLimits)
      (free_resources : AppResource → ℚ)
  | assignation (err : AssignationError)
  | raised (err : PyError)

/-- `check_space_for_app`, on the hosts read from the state database. -/
def checkSpaceForApp (t : StartTask) (hosts : Hosts) : Except SpaceError AssignationResult :=
  if t.app_resources.entries.any fun r =>
      decide (t.freeResource hosts r.1 < r.2.min - r.2.current) then
    .error (.noCapacity t.app t.app_resources (t.freeResource hosts))
  else
    match getContainerAssignationForApp (t.request hosts) with
    | .error err => .error (.raised err)
    | .ok r =>
      match r.error with
      | some err => .error (.assignation err)
      | none => .ok r

theorem checkSpaceForApp_eq_ok {t : StartTask} {hosts : Hosts} {r : AssignationResult}
    (h : checkSpaceForApp t hosts = .ok r) :
    getContainerAssignationForApp (t.request hosts) = .ok r ∧ r.error = none := by
  unfold checkSpaceForApp at h
  split_ifs at h
  rcases hr : getContainerAssignationForApp (t.request hosts) with err | r'
  · simp [hr] at h
  · rcases herr : r'.error with _ | err
    · simp only [hr, herr, Except.ok.injEq] at h
      subst h
      exact ⟨rfl, herr⟩
    · simp [hr, herr] at h

theorem StartTask.excludeDisks_free (t : StartTask) (name : String) (host : Host) :
    (t.excludeDisks name host).free = host.free := by
  unfold excludeDisks
  split_ifs
  · split <;> rfl
  · rfl

/-- What a task requests of a host. -/
def StartTask.load (t : StartTask) (r : AssignationResult) (res : Resource) (name : String) : ℚ :=
  r.load t.container_resources t.key res name

/-- **An assignation fits** on the hosts that it was computed from. -/
theorem StartTask.load_le_free {t : StartTask} {hosts : Hosts} {r : AssignationResult}
    (h : checkSpaceForApp t hosts = .ok r) {res : Resource} (hres : res ≠ .energy) {name : String}
    {host : Host} (hhost : hosts.get? name = some host) (hfree : 0 ≤ host.free res)
    (hmaster : t.reserved → name = t.server_name →
      (t.request hosts).env.cost res .rm_nn ≤ host.free res) :
    t.load r res name ≤ host.free res := by
  obtain ⟨h, herr⟩ := checkSpaceForApp_eq_ok h
  have hoffered : (t.request hosts).hosts.get? name = some (t.excludeDisks name host) := by
    simp [request, offered, hhost]
  rw [← t.excludeDisks_free name host] at hfree hmaster ⊢
  exact AssignationResult.load_le_free h herr (Tracking.charges_of_ne hres) hoffered hfree hmaster

/-! ## Concurrent starts -/

/-- Where a task is; a planned one has read `hosts`. -/
inductive StartPhase where
  | waiting
  | planned (hosts : Hosts) (r : AssignationResult)
  | registered (r : AssignationResult)
  | failed (err : SpaceError)

/-- The hosts of the state database, and the tasks. -/
structure StartState (ι : Type) where
  hosts : Hosts
  phase : ι → StartPhase

inductive StartEvent (ι : Type) where
  | plan (i : ι)
  | register (i : ι)

def StartState.initial {ι : Type} (hosts : Hosts) : StartState ι := ⟨hosts, fun _ => .waiting⟩

/-- The orchestrator subtracts the cpu and the mem of the containers of a task. -/
def StartTask.registerOn (t : StartTask) (r : AssignationResult) (hosts : Hosts) : Hosts :=
  hosts.mapVal fun name h => (h.charge .cpu (t.load r .cpu name)).charge .mem (t.load r .mem name)

section starts
variable {ι : Type} [DecidableEq ι] (tasks : ι → StartTask)

/-- One step of one task. -/
inductive StartStep (s : StartState ι) : StartEvent ι → StartState ι → Prop
  | plan {i r} (hi : s.phase i = .waiting) (hr : checkSpaceForApp (tasks i) s.hosts = .ok r) :
      StartStep s (.plan i) { s with phase := Function.update s.phase i (.planned s.hosts r) }
  | planFails {i err} (hi : s.phase i = .waiting)
      (hr : checkSpaceForApp (tasks i) s.hosts = .error err) :
      StartStep s (.plan i) { s with phase := Function.update s.phase i (.failed err) }
  | register {i hosts r} (hi : s.phase i = .planned hosts r) :
      StartStep s (.register i)
        { hosts := (tasks i).registerOn r s.hosts
          phase := Function.update s.phase i (.registered r) }

/-- What a task has registered on a host. -/
def StartPhase.load (t : StartTask) (res : Resource) (name : String) : StartPhase → ℚ
  | .registered r => t.load r res name
  | _ => 0

/-- The master of a task fits on the server, if it is put there unchecked. -/
def MasterFits (t : StartTask) (hosts : Hosts) : Prop :=
  t.reserved → ∀ host, hosts.get? t.server_name = some host →
    ∀ res, res ≠ .energy → (t.request hosts).env.cost res .rm_nn ≤ host.free res

/-- A task registers its containers while the hosts are as it has read them. -/
def RegistersFresh (s : StartState ι) : StartEvent ι → Prop
  | .register i => ∀ hosts r, s.phase i = .planned hosts r →
      hosts = s.hosts ∧ MasterFits (tasks i) hosts
  | _ => True

variable {tasks} {hosts₀ : Hosts} {s s' : StartState ι} {e : StartEvent ι}

theorem StartTask.registerOn_free (t : StartTask) (r : AssignationResult) {hosts : Hosts}
    {name : String} {host : Host} (hhost : hosts.get? name = some host) :
    ∃ host', (t.registerOn r hosts).get? name = some host' ∧
      ∀ res, res ≠ .energy → host'.free res = host.free res - t.load r res name := by
  refine ⟨_, by rw [registerOn, Dict.get?_mapVal, hhost]; rfl, fun res hres => ?_⟩
  cases res with
  | energy => exact absurd rfl hres
  | cpu => simp [Host.charge_free]
  | mem => simp [Host.charge_free]

variable [Fintype ι]

/-- What all tasks have registered on a host. -/
def StartState.load (tasks : ι → StartTask) (s : StartState ι) (res : Resource) (name : String) : ℚ :=
  ∑ i, (s.phase i).load (tasks i) res name

theorem StartState.load_update {i : ι} {p : StartPhase} {hosts : Hosts} (res : Resource)
    (name : String) : (StartState.mk hosts (Function.update s.phase i p)).load tasks res name =
      s.load tasks res name + (p.load (tasks i) res name - (s.phase i).load (tasks i) res name) := by
  have hcomp : (fun j => (Function.update s.phase i p j).load (tasks j) res name) =
      Function.update (fun j => (s.phase j).load (tasks j) res name) i (p.load (tasks i) res name) := by
    funext j
    by_cases hj : j = i
    · subst hj
      simp
    · simp [Function.update_of_ne hj]
  unfold load
  rw [hcomp, Finset.sum_update_of_mem (Finset.mem_univ i), Finset.sdiff_singleton_eq_erase,
    ← Finset.add_sum_erase _ (fun j => (s.phase j).load (tasks j) res name) (Finset.mem_univ i)]
  ring

/-- Every host has free what it had at first, less what was registered on it,
    and the planned assignations are those of the hosts that were read. -/
structure StartInv (tasks : ι → StartTask) (hosts₀ : Hosts) (s : StartState ι) : Prop where
  free : ∀ name host₀, hosts₀.get? name = some host₀ → ∃ host, s.hosts.get? name = some host ∧
    ∀ res, res ≠ .energy → 0 ≤ host.free res ∧
      host.free res + s.load tasks res name = host₀.free res
  planned : ∀ i hosts r, s.phase i = .planned hosts r → checkSpaceForApp (tasks i) hosts = .ok r

omit [DecidableEq ι] in
theorem StartInv.initial (hfree : ∀ name host, hosts₀.get? name = some host →
    0 ≤ host.free .cpu ∧ 0 ≤ host.free .mem) :
    StartInv tasks hosts₀ (StartState.initial hosts₀) := by
  refine ⟨fun name host hhost => ⟨host, hhost, fun res hres => ⟨?_, ?_⟩⟩, fun i hosts r hi => ?_⟩
  · obtain ⟨hcpu, hmem⟩ := hfree name host hhost
    cases res with
    | energy => exact absurd rfl hres
    | cpu => exact hcpu
    | mem => exact hmem
  · simp [StartState.load, StartState.initial, StartPhase.load]
  · cases hi

/-- A step that registers nothing. -/
theorem StartInv.set (h : StartInv tasks hosts₀ s) {i : ι} {p : StartPhase}
    (hi : ∀ res name, (s.phase i).load (tasks i) res name = 0)
    (hp : ∀ res name, p.load (tasks i) res name = 0)
    (hplan : ∀ hosts r, p = .planned hosts r → checkSpaceForApp (tasks i) hosts = .ok r) :
    StartInv tasks hosts₀ { s with phase := Function.update s.phase i p } := by
  refine ⟨fun name host₀ hhost => ?_, fun j hosts r hj => ?_⟩
  · obtain ⟨host, hget, hfree⟩ := h.free name host₀ hhost
    refine ⟨host, hget, fun res hres => ?_⟩
    rw [StartState.load_update, hi, hp, sub_zero, add_zero]
    exact hfree res hres
  · simp only [Function.update_apply] at hj
    split_ifs at hj with hji
    · exact hji ▸ hplan hosts r hj
    · exact h.planned j hosts r hj

theorem StartInv.step (h : StartInv tasks hosts₀ s) (hst : StartStep tasks s e s')
    (hfresh : RegistersFresh tasks s e) : StartInv tasks hosts₀ s' := by
  cases hst with
  | @plan i r hi hr =>
    refine h.set (by simp [hi, StartPhase.load]) (by simp [StartPhase.load]) ?_
    rintro hosts r' ⟨⟩
    exact hr
  | @planFails i err hi hr =>
    exact h.set (by simp [hi, StartPhase.load]) (by simp [StartPhase.load]) (by simp)
  | @register i hosts r hi =>
    obtain ⟨rfl, hmaster⟩ := hfresh hosts r hi
    have hplan := h.planned i _ r hi
    refine ⟨fun name host₀ hhost => ?_, fun j hosts r' hj => ?_⟩
    · obtain ⟨host, hget, hfree⟩ := h.free name host₀ hhost
      obtain ⟨host', hget', hfree'⟩ := (tasks i).registerOn_free r hget
      refine ⟨host', hget', fun res hres => ?_⟩
      obtain ⟨hnonneg, hsum⟩ := hfree res hres
      -- the plan was computed from these hosts, so it fits
      have hle : (tasks i).load r res name ≤ host.free res := by
        refine StartTask.load_le_free hplan hres hget hnonneg fun hr hname => ?_
        subst hname
        exact hmaster hr host hget res hres
      rw [hfree' res hres, StartState.load_update, hi, ← hsum]
      simp only [StartPhase.load, sub_zero]
      constructor
      · linarith
      · ring
    · simp only [Function.update_apply] at hj
      split_ifs at hj
      exact h.planned j hosts r' hj

end starts

/-- A task that starts one container of 3 cpu and 3 mem. -/
def oneContainer : StartTask where
  cfg := ⟨false, false, false, false, false⟩
  server_name := "server"
  app := "app"
  app_resources := (Dict.empty.set (.host .cpu) ⟨3, 0⟩).set (.host .mem) ⟨3, 0⟩
  assignation_policy := "Fill-up"
  allow_oversubscription := false
  number_of_containers := 1
  container_resources := ⟨.of 3 3 0 0 0, none, none, none, .inl rfl⟩
  allocation_exclusions := .empty

/-- A list of one host. -/
def oneHost (free : ℚ) : Hosts := Dict.empty.set "host0" ⟨fun _ => free, free, none⟩

end ServerlessYarn
