/-
  ServerlessYARN model — the replication of the global HDFS (`monitor_global_hdfs_replication` of
  ui/background_tasks.py).

  A task polls the state database while the cluster is up, and enforces the replication factor
  when the disks of the datanodes are little used.  Its three reads of a poll come one after the
  other, so they are free to disagree.

  * `monitor_follows`: what is done at each poll, and how the task ends;
  * `planned_not_monitored`: it does nothing for the application that `start_global_hdfs` registers, as
    long as the database keeps its resources as they are.
-/
import ServerlessYarn.GlobalHdfs
import ServerlessYarn.Lib.Until

namespace ServerlessYarn

namespace HdfsReplication

/-! ## The database -/

inductive Bandwidth where
  | read | write
deriving DecidableEq

/-- `disk_read` and `disk_write`. -/
def Bandwidth.key : Bandwidth → String
  | .read => "disk_read"
  | .write => "disk_write"

/-- `match_disk[f'max_{res}']` -/
def diskMax (d : Disk) : Bandwidth → ℚ
  | .read => d.max_read
  | .write => d.max_write

/-- `match_disk[f'free_{res}']` -/
def diskFree (d : Disk) : Bandwidth → ℚ
  | .read => d.free_read
  | .write => d.free_write

structure ResourceUse where
  max : ℚ
  usage : ℚ

/-- The global application. -/
structure AppState where
  containers : List String
  resources : Dict String ResourceUse

/-- A container: the name of its disk, and the minima of its bandwidths. -/
structure ContainerState where
  host : String
  disk : Option String
  disk_min : Bandwidth → Option ℚ

/-- What is read in a poll, and what comes of the playbook if it is run.  A read raises when the
    database cannot be reached; what is not in the database is `{}`, or `none` here. -/
structure Poll where
  global_app : Py (Option AppState)
  global_namenode : Py (Option String)
  hosts : Py Hosts
  playbook : Py Unit

/-- `reload_db_info`.  The hosts are only read if the application has a disk; without, the variable
    has no value when it is returned. -/
def reloadDbInfo (poll : Poll) : Py (AppState × Option String × Hosts) := do
  let global_app ← poll.global_app
  let global_namenode ← poll.global_namenode
  match global_app with
  | some app =>
    if "disk" ∈ app.resources.keys then do
      let hosts ← poll.hosts
      return (app, global_namenode, hosts)
    else .error (.exception "UnboundLocalError: hosts")
  | none => .error (.exception "UnboundLocalError: hosts")

/-- The containers of the application with a disk, by host, without the namenode. -/
abbrev DatanodeList := Dict String (List ContainerState)

/-- A container is put to the others of its host. -/
def addDatanode (global_namenode_name : String) (containers : String → Py (Option ContainerState))
    (datanode_list : DatanodeList) (container_name : String) : Py DatanodeList :=
  if container_name = global_namenode_name then .ok datanode_list
  else do
    match ← containers container_name with
    | none => .error (.keyError "resources")
    | some container =>
      if container.disk = none then return datanode_list
      else if container.host ∈ datanode_list.keys then
        return datanode_list.modify container.host fun datanodes => datanodes ++ [container]
      else .error (.keyError container.host)

def datanodeList (global_namenode_name : String) (containers : String → Py (Option ContainerState))
    (app : AppState) (hosts : Hosts) : Py DatanodeList :=
  app.containers.foldlM (addDatanode global_namenode_name containers) (hosts.mapVal fun _ _ => [])

/-- A container that is a datanode with a disk. -/
def diskNode? (global_namenode_name : String) (containers : String → Py (Option ContainerState))
    (container_name : String) : Option ContainerState :=
  if container_name = global_namenode_name then none
  else (containers container_name).toOption.join.filter fun container => container.disk.isSome

/-- Those of a host. -/
def diskNodesOn (global_namenode_name : String) (containers : String → Py (Option ContainerState))
    (container_names : List String) (host : String) : List ContainerState :=
  (container_names.filterMap (diskNode? global_namenode_name containers)).filter fun c => c.host = host

theorem diskNodesOn_of_none {global_namenode_name : String} {containers : String → Py (Option ContainerState)}
    {container_name : String} (h : diskNode? global_namenode_name containers container_name = none) (host : String) :
    diskNodesOn global_namenode_name containers [container_name] host = [] := by
  simp [diskNodesOn, h]

theorem diskNodesOn_of_some {global_namenode_name : String} {containers : String → Py (Option ContainerState)}
    {container_name : String} {container : ContainerState}
    (h : diskNode? global_namenode_name containers container_name = some container) (host : String) :
    diskNodesOn global_namenode_name containers [container_name] host =
      if container.host = host then [container] else [] := by
  simp [diskNodesOn, h, List.filter_singleton]

theorem addDatanode_eq_ok {global_namenode_name : String} {containers : String → Py (Option ContainerState)}
    {datanode_list datanode_list' : DatanodeList} {container_name : String}
    (h : addDatanode global_namenode_name containers datanode_list container_name = .ok datanode_list') :
    datanode_list'.keys = datanode_list.keys ∧ ∀ host datanodes, datanode_list.get? host = some datanodes →
      datanode_list'.get? host =
        some (datanodes ++ diskNodesOn global_namenode_name containers [container_name] host) := by
  unfold addDatanode at h
  split_ifs at h with hname
  · cases h
    refine ⟨rfl, fun host datanodes hget => ?_⟩
    rw [diskNodesOn_of_none (by simp [diskNode?, hname]), List.append_nil, hget]
  · rw [bind_eq_ok] at h
    obtain ⟨_ | container, hcontainer, h⟩ := h
    · cases h
    · dsimp only at h
      split_ifs at h with hdisk hhost
      · cases pure_eq_ok.1 h
        refine ⟨rfl, fun host datanodes hget => ?_⟩
        rw [diskNodesOn_of_none (by simp [diskNode?, hname, hcontainer, hdisk, Except.toOption]),
          List.append_nil, hget]
      · cases pure_eq_ok.1 h
        refine ⟨Dict.keys_modify _ _ _, fun host datanodes hget => ?_⟩
        have hnode : diskNode? global_namenode_name containers container_name = some container := by
          simp [diskNode?, hname, hcontainer, Option.isSome_iff_ne_none, hdisk, Except.toOption]
        rw [Dict.get?_modify, diskNodesOn_of_some hnode, hget]
        by_cases hsame : host = container.host
        · simp [hsame]
        · simp [hsame, Ne.symm hsame]

/-- **The list has the hosts of the first poll, with the datanodes on them.** -/
theorem datanodeList_eq_ok {global_namenode_name : String} {containers : String → Py (Option ContainerState)}
    {app : AppState} {hosts : Hosts} {datanode_list : DatanodeList}
    (h : datanodeList global_namenode_name containers app hosts = .ok datanode_list) :
    datanode_list.keys = hosts.keys ∧ ∀ host ∈ hosts.keys,
      datanode_list.get? host = some (diskNodesOn global_namenode_name containers app.containers host) := by
  unfold datanodeList at h
  generalize app.containers = names at h ⊢
  induction names using List.reverseRecOn generalizing datanode_list with
  | nil =>
    cases pure_eq_ok.1 h
    refine ⟨Dict.keys_mapVal _ _, fun host hhost => ?_⟩
    obtain ⟨v, hv⟩ := Dict.mem_keys_iff.1 hhost
    simp [diskNodesOn, hv]
  | append_singleton names name ih =>
    rw [List.foldlM_append, bind_eq_ok] at h
    obtain ⟨before, hbefore, h⟩ := h
    rw [List.foldlM_cons, bind_eq_ok] at h
    obtain ⟨after, hafter, h⟩ := h
    cases pure_eq_ok.1 h
    obtain ⟨hkeys, hget⟩ := ih hbefore
    obtain ⟨hkeys', hget'⟩ := addDatanode_eq_ok hafter
    refine ⟨hkeys'.trans hkeys, fun host hhost => ?_⟩
    rw [hget' host _ (hget host hhost)]
    simp [diskNodesOn]

/-! ## One poll -/

section monitor

-- `x * threshold < y`, in floating point
variable (exceeds : ℚ → ℚ → Bool)

/-- Other containers use the disk too much, or the application does. -/
def overThreshold (app : AppState) (disk : Disk) (datanode : ContainerState) (res : Bandwidth) : Py Bool :=
  match datanode.disk_min res with
  | none => .error (.keyError res.key)
  | some min =>
    if exceeds (diskMax disk res - min) (diskMax disk res - min - diskFree disk res) then .ok true
    else do
      let use ← getItem app.resources res.key
      return exceeds use.max use.usage

/-- `any(..)` over both bandwidths. -/
def busyDisk (app : AppState) (disk : Disk) (datanode : ContainerState) : Py Bool := do
  if ← overThreshold exceeds app disk datanode .read then return true
  else overThreshold exceeds app disk datanode .write

/-- A datanode that keeps the replication from being enforced.  The error goes on with the data of the host. -/
def busyDatanode (app : AppState) (host : String × Host) (datanode : ContainerState) : Py Bool :=
  match host.2.disks with
  | none => .error (.keyError "disks")
  | some disks =>
    match datanode.disk.bind fun disk => disks.get? disk with
    | none => .error (.exception (String.join ["Disk ", datanode.disk.getD "None", " not found in host ", host.1]))
    | some disk => busyDisk exceeds app disk datanode

/-- The datanodes of a host, up to the first busy one. -/
def quietHost (app : AppState) (host : String × Host) : List ContainerState → Py Bool
  | [] => .ok true
  | datanode :: datanodes => do
    if ← busyDatanode exceeds app host datanode then return false
    else quietHost app host datanodes

/-- One host of the loop that looks for a busy one. -/
def replicationStep (app : AppState) (datanode_list : DatanodeList) (run_replication : Bool)
    (host : String × Host) : Py Bool := do
  let datanodes ← getItem datanode_list host.1
  let quiet ← quietHost exceeds app host datanodes
  return run_replication && quiet

/-- `run_replication` -/
def runReplication (app : AppState) (datanode_list : DatanodeList) (hosts : Hosts) : Py Bool :=
  hosts.entries.foldlM (replicationStep exceeds app datanode_list) true

/-- The loop ends, or an error does it. -/
inductive MonitorEnd where
  | finished
  | raised (e : PyError)
deriving DecidableEq

/-- The condition and the body of the loop: whether the replication has been enforced. -/
def pollStep (datanode_list : DatanodeList) (poll : Poll) : Except MonitorEnd Bool :=
  match reloadDbInfo poll with
  | .error e => .error (.raised e)
  | .ok (app, global_namenode, hosts) =>
    match global_namenode with
    | none => .error .finished
    | some namenode =>
      if namenode ∈ app.containers then
        match runReplication exceeds app datanode_list hosts with
        | .error e => .error (.raised e)
        | .ok false => .ok false
        | .ok true =>
          match poll.playbook with
          | .ok () => .ok true
          | .error e => .error (.raised e)
      else .error .finished

/-- `monitor_global_hdfs_replication`, with what the database holds at each poll: at which polls the
    replication has been enforced, and what has ended the task, if anything has. -/
def monitor (global_namenode_name : String) (containers : String → Py (Option ContainerState))
    (polls : List Poll) : List Bool × Option MonitorEnd :=
  match polls with
  | [] => ([], none)
  | first :: _ =>
    match reloadDbInfo first with
    | .error e => ([], some (.raised e))
    | .ok (app, _, hosts) =>
      match datanodeList global_namenode_name containers app hosts with
      | .error e => ([], some (.raised e))
      | .ok datanode_list => Until.run (pollStep exceeds datanode_list) polls

/-! ## What is done at a poll -/

/-- The cluster is up for a poll. -/
structure Poll.Up (poll : Poll) (app : AppState) (hosts : Hosts) : Prop where
  global_app : poll.global_app = .ok (some app)
  disk : "disk" ∈ app.resources.keys
  hosts_read : poll.hosts = .ok hosts

theorem reloadDbInfo_eq_ok {poll : Poll} {app : AppState} {namenode : Option String} {hosts : Hosts} :
    reloadDbInfo poll = .ok (app, namenode, hosts) ↔ poll.Up app hosts ∧ poll.global_namenode = .ok namenode := by
  unfold reloadDbInfo
  simp only [bind_eq_ok]
  constructor
  · rintro ⟨_ | app', happ, namenode', hnamenode, h⟩
    · cases h
    · dsimp only at h
      split_ifs at h with hdisk
      simp only [bind_eq_ok, pure_eq_ok, Prod.mk.injEq] at h
      obtain ⟨hosts', hhosts, rfl, rfl, rfl⟩ := h
      exact ⟨⟨happ, hdisk, hhosts⟩, hnamenode⟩
  · rintro ⟨⟨happ, hdisk, hhosts⟩, hnamenode⟩
    refine ⟨some app, happ, namenode, hnamenode, ?_⟩
    dsimp only
    rw [if_pos hdisk, hhosts]
    rfl

/-- A disk is below the thresholds for a container. -/
structure Idle (app : AppState) (disk : Disk) (datanode : ContainerState) (res : Bandwidth) : Prop where
  free : ∃ min, datanode.disk_min res = some min ∧
    exceeds (diskMax disk res - min) (diskMax disk res - min - diskFree disk res) = false
  used : ∃ use, app.resources.get? res.key = some use ∧ exceeds use.max use.usage = false

theorem overThreshold_eq_false {app : AppState} {disk : Disk} {datanode : ContainerState} {res : Bandwidth} :
    overThreshold exceeds app disk datanode res = .ok false ↔ Idle exceeds app disk datanode res := by
  unfold overThreshold
  cases hmin : datanode.disk_min res with
  | none =>
    refine iff_of_false (by simp) fun h => ?_
    obtain ⟨min, h, -⟩ := h.free
    rw [hmin] at h
    cases h
  | some min =>
    dsimp only
    split_ifs with hover
    · refine iff_of_false (by simp) fun h => ?_
      obtain ⟨min', hmin', h⟩ := h.free
      obtain rfl : min = min' := Option.some.inj (hmin.symm.trans hmin')
      rw [hover] at h
      cases h
    · rw [Bool.not_eq_true] at hover
      simp only [bind_eq_ok, pure_eq_ok, getItem_eq_ok]
      exact ⟨fun h => ⟨⟨min, hmin, hover⟩, h⟩, fun h => h.used⟩

theorem busyDisk_eq_false {app : AppState} {disk : Disk} {datanode : ContainerState} :
    busyDisk exceeds app disk datanode = .ok false ↔
      Idle exceeds app disk datanode .read ∧ Idle exceeds app disk datanode .write := by
  unfold busyDisk
  rw [← overThreshold_eq_false, ← overThreshold_eq_false, bind_eq_ok]
  constructor
  · rintro ⟨_ | _, hread, h⟩
    · exact ⟨hread, h⟩
    · cases h
  · rintro ⟨hread, hwrite⟩
    exact ⟨false, hread, hwrite⟩

/-- The disk of a datanode is on its host and below the thresholds. -/
def DatanodeIdle (app : AppState) (host : String × Host) (datanode : ContainerState) : Prop :=
  ∃ disks, host.2.disks = some disks ∧ ∃ disk, (datanode.disk.bind fun name => disks.get? name) = some disk ∧
    Idle exceeds app disk datanode .read ∧ Idle exceeds app disk datanode .write

theorem busyDatanode_eq_false {app : AppState} {host : String × Host} {datanode : ContainerState} :
    busyDatanode exceeds app host datanode = .ok false ↔ DatanodeIdle exceeds app host datanode := by
  unfold busyDatanode DatanodeIdle
  cases host.2.disks with
  | none => simp
  | some disks =>
    simp only [Option.some.injEq, exists_eq_left']
    cases datanode.disk.bind fun name => disks.get? name with
    | none => simp
    | some disk =>
      simp only [Option.some.injEq, exists_eq_left']
      exact busyDisk_eq_false exceeds

theorem quietHost_eq_true {app : AppState} {host : String × Host} {datanodes : List ContainerState} :
    quietHost exceeds app host datanodes = .ok true ↔ ∀ dn ∈ datanodes, DatanodeIdle exceeds app host dn := by
  induction datanodes with
  | nil => simp [quietHost]
  | cons datanode datanodes ih =>
    rw [quietHost, bind_eq_ok, List.forall_mem_cons, ← ih, ← busyDatanode_eq_false]
    constructor
    · rintro ⟨_ | _, hbusy, h⟩
      · exact ⟨hbusy, h⟩
      · cases h
    · rintro ⟨hbusy, h⟩
      exact ⟨false, hbusy, h⟩

/-- A host is checked without an error: it was there when the monitor began, and each datanode up to the
    first busy one has its disk. -/
def Checked (app : AppState) (datanode_list : DatanodeList) (host : String × Host) : Prop :=
  ∃ datanodes, datanode_list.get? host.1 = some datanodes ∧ ∃ quiet, quietHost exceeds app host datanodes = .ok quiet

/-- It has no busy datanode. -/
def HostIdle (app : AppState) (datanode_list : DatanodeList) (host : String × Host) : Prop :=
  ∃ datanodes, datanode_list.get? host.1 = some datanodes ∧ ∀ dn ∈ datanodes, DatanodeIdle exceeds app host dn

theorem replicationStep_eq_ok {app : AppState} {datanode_list : DatanodeList} {run quiet : Bool}
    {host : String × Host} : replicationStep exceeds app datanode_list run host = .ok quiet ↔
      Checked exceeds app datanode_list host ∧
        (quiet = true ↔ run = true ∧ HostIdle exceeds app datanode_list host) := by
  have hidle : ∀ {datanodes q}, datanode_list.get? host.1 = some datanodes →
      quietHost exceeds app host datanodes = .ok q → (HostIdle exceeds app datanode_list host ↔ q = true) := by
    intro datanodes q hget hq
    unfold HostIdle
    simp only [hget, Option.some.injEq, exists_eq_left', ← quietHost_eq_true, hq, Except.ok.injEq]
  unfold replicationStep
  simp only [bind_eq_ok, pure_eq_ok, getItem_eq_ok]
  constructor
  · rintro ⟨datanodes, hget, q, hq, rfl⟩
    exact ⟨⟨datanodes, hget, q, hq⟩, by rw [hidle hget hq, Bool.and_eq_true]⟩
  · rintro ⟨⟨datanodes, hget, q, hq⟩, h⟩
    refine ⟨datanodes, hget, q, hq, ?_⟩
    rw [hidle hget hq, ← Bool.and_eq_true] at h
    exact Bool.eq_iff_iff.2 h.symm

/-- The loop over the hosts returns if all of them can be checked. -/
theorem runReplication_eq_ok {app : AppState} {datanode_list : DatanodeList} {hosts : Hosts} {quiet : Bool} :
    runReplication exceeds app datanode_list hosts = .ok quiet ↔
      (∀ host ∈ hosts.entries, Checked exceeds app datanode_list host) ∧
      (quiet = true ↔ ∀ host ∈ hosts.entries, HostIdle exceeds app datanode_list host) := by
  have hfold : ∀ (l : List (String × Host)) (start : Bool),
      l.foldlM (replicationStep exceeds app datanode_list) start = .ok quiet ↔
        (∀ host ∈ l, Checked exceeds app datanode_list host) ∧
        (quiet = true ↔ start = true ∧ ∀ host ∈ l, HostIdle exceeds app datanode_list host) := by
    intro l
    induction l with
    | nil =>
      intro start
      rw [List.foldlM_nil, pure_eq_ok, Bool.eq_iff_iff]
      simp [iff_comm]
    | cons host l ih =>
      intro start
      rw [List.foldlM_cons, bind_eq_ok]
      simp only [ih, replicationStep_eq_ok, List.forall_mem_cons]
      constructor
      · rintro ⟨b, ⟨hchecked, hb⟩, hall, hquiet⟩
        exact ⟨⟨hchecked, hall⟩, by rw [hquiet, hb, and_assoc]⟩
      · rintro ⟨⟨hchecked, hall⟩, hquiet⟩
        obtain ⟨b, hb⟩ : ∃ b : Bool, b = true ↔ start = true ∧ HostIdle exceeds app datanode_list host := by
          classical exact ⟨_, decide_eq_true_iff⟩
        exact ⟨b, ⟨hchecked, hb⟩, hall, by rw [hquiet, hb, and_assoc]⟩
  unfold runReplication
  rw [hfold]
  simp

/-- The namenode is in the application. -/
def Poll.HasNamenode (poll : Poll) (app : AppState) : Prop :=
  ∃ namenode, poll.global_namenode = .ok (some namenode) ∧ namenode ∈ app.containers

/-- The monitor goes on after a poll: the cluster is up, its hosts could be checked, and the playbook has not
    failed; the replication has been enforced iff all of them are idle. -/
structure Poll.Goes (datanode_list : DatanodeList) (poll : Poll) (enforced : Bool) (app : AppState)
    (hosts : Hosts) : Prop where
  up : poll.Up app hosts
  namenode : poll.HasNamenode app
  checked : ∀ host ∈ hosts.entries, Checked exceeds app datanode_list host
  enforced_iff : enforced = true ↔ ∀ host ∈ hosts.entries, HostIdle exceeds app datanode_list host
  playbook : enforced = true → poll.playbook = .ok ()

theorem pollStep_eq_ok {datanode_list : DatanodeList} {poll : Poll} {enforced : Bool} :
    pollStep exceeds datanode_list poll = .ok enforced ↔
      ∃ app hosts, poll.Goes exceeds datanode_list enforced app hosts := by
  unfold pollStep
  constructor
  · intro h
    split at h
    · cases h
    · rename_i app global_namenode hosts hreload
      obtain ⟨hup, hnamenode⟩ := reloadDbInfo_eq_ok.1 hreload
      split at h
      · cases h
      · rename_i namenode
        split_ifs at h with hin
        have hhas : poll.HasNamenode app := ⟨namenode, hnamenode, hin⟩
        split at h
        · cases h
        · rename_i hrun
          obtain rfl := Except.ok.inj h
          obtain ⟨hchecked, hidle⟩ := (runReplication_eq_ok exceeds).1 hrun
          exact ⟨app, hosts, hup, hhas, hchecked, hidle, by simp⟩
        · rename_i hrun
          obtain ⟨hchecked, hidle⟩ := (runReplication_eq_ok exceeds).1 hrun
          split at h
          · rename_i hplaybook
            obtain rfl := Except.ok.inj h
            exact ⟨app, hosts, hup, hhas, hchecked, hidle, fun _ => hplaybook⟩
          · cases h
  · rintro ⟨app, hosts, hup, ⟨namenode, hnamenode, hin⟩, hchecked, hidle, hplaybook⟩
    rw [reloadDbInfo_eq_ok.2 ⟨hup, hnamenode⟩]
    dsimp only
    rw [if_pos hin, (runReplication_eq_ok exceeds).2 ⟨hchecked, hidle⟩]
    cases enforced with
    | false => rfl
    | true => rw [hplaybook rfl]

/-- The cluster is stopped: its application is still there, without the namenode. -/
def Poll.Stopped (poll : Poll) : Prop :=
  ∃ app hosts global_namenode, poll.Up app hosts ∧ poll.global_namenode = .ok global_namenode ∧
    ∀ namenode, global_namenode = some namenode → namenode ∉ app.containers

theorem pollStep_finished {datanode_list : DatanodeList} {poll : Poll} :
    pollStep exceeds datanode_list poll = .error .finished ↔ poll.Stopped := by
  unfold pollStep
  constructor
  · intro h
    split at h
    · cases h
    · rename_i app global_namenode hosts hreload
      obtain ⟨hup, hnamenode⟩ := reloadDbInfo_eq_ok.1 hreload
      refine ⟨app, hosts, global_namenode, hup, hnamenode, fun namenode hsome hin => ?_⟩
      subst hsome
      dsimp only at h
      rw [if_pos hin] at h
      split at h
      · cases h
      · cases h
      · split at h <;> cases h
  · rintro ⟨app, hosts, global_namenode, hup, hnamenode, hgone⟩
    rw [reloadDbInfo_eq_ok.2 ⟨hup, hnamenode⟩]
    cases global_namenode with
    | none => rfl
    | some namenode =>
      dsimp only
      rw [if_neg (hgone namenode rfl)]

/-- The monitor has found the datanodes at its first poll. -/
def Begins (global_namenode_name : String) (containers : String → Py (Option ContainerState)) (first : Poll)
    (datanode_list : DatanodeList) : Prop :=
  ∃ app hosts global_namenode, first.Up app hosts ∧ first.global_namenode = .ok global_namenode ∧
    datanodeList global_namenode_name containers app hosts = .ok datanode_list

theorem exists_begins_iff {global_namenode_name : String} {containers : String → Py (Option ContainerState)}
    {first : Poll} {datanode_list : DatanodeList} (h : Begins global_namenode_name containers first datanode_list)
    {P : DatanodeList → Prop} :
    (∃ dl, Begins global_namenode_name containers first dl ∧ P dl) ↔ P datanode_list := by
  refine ⟨?_, fun hP => ⟨_, h, hP⟩⟩
  rintro ⟨dl, hdl, hP⟩
  obtain ⟨app, hosts, -, hup, -, hlist⟩ := h
  obtain ⟨app', hosts', -, hup', -, hlist'⟩ := hdl
  obtain rfl : app = app' := Option.some.inj (Except.ok.inj (hup.global_app.symm.trans hup'.global_app))
  obtain rfl : hosts = hosts' := Except.ok.inj (hup.hosts_read.symm.trans hup'.hosts_read)
  rwa [Except.ok.inj (hlist.symm.trans hlist')]

theorem monitor_of_begins {global_namenode_name : String} {containers : String → Py (Option ContainerState)}
    {first : Poll} {polls : List Poll} {datanode_list : DatanodeList}
    (h : Begins global_namenode_name containers first datanode_list) :
    monitor exceeds global_namenode_name containers (first :: polls) =
      Until.run (pollStep exceeds datanode_list) (first :: polls) := by
  obtain ⟨app, hosts, global_namenode, hup, hnamenode, hlist⟩ := h
  rw [monitor, reloadDbInfo_eq_ok.2 ⟨hup, hnamenode⟩]
  dsimp only
  rw [hlist]

/-- A monitor that does not begin has failed. -/
theorem monitor_not_begun {global_namenode_name : String} {containers : String → Py (Option ContainerState)}
    {first : Poll} {polls : List Poll} (h : ∀ dl, ¬ Begins global_namenode_name containers first dl) :
    ∃ e, monitor exceeds global_namenode_name containers (first :: polls) = ([], some (.raised e)) := by
  unfold monitor
  dsimp only
  split
  · exact ⟨_, rfl⟩
  · rename_i app global_namenode hosts hreload
    obtain ⟨hup, hnamenode⟩ := reloadDbInfo_eq_ok.1 hreload
    split
    · exact ⟨_, rfl⟩
    · rename_i datanode_list hlist
      exact absurd ⟨app, hosts, global_namenode, hup, hnamenode, hlist⟩ (h datanode_list)

/-- The polls before one are of a cluster that is up and can be checked. -/
def GoesBefore (datanode_list : DatanodeList) (polls : List Poll) (i : ℕ) : Prop :=
  ∀ poll ∈ polls.take i, ∃ enforced app hosts, poll.Goes exceeds datanode_list enforced app hosts

theorem goesOn_iff {datanode_list : DatanodeList} {polls : List Poll} {i : ℕ} :
    Until.GoesOn (pollStep exceeds datanode_list) polls i ↔ GoesBefore exceeds datanode_list polls i := by
  unfold Until.GoesOn GoesBefore
  simp only [pollStep_eq_ok]

/-- **What the monitor does**, for every sequence of polls: where the replication is enforced; when the task ends
    as it should; and when it goes on, which needs the hosts of every poll to be among those of the first. -/
theorem monitor_follows (global_namenode_name : String) (containers : String → Py (Option ContainerState))
    (first : Poll) (polls : List Poll) :
    (∀ i enforced, (monitor exceeds global_namenode_name containers (first :: polls)).1[i]? = some enforced ↔
      ∃ dl, Begins global_namenode_name containers first dl ∧ GoesBefore exceeds dl (first :: polls) i ∧
        ∃ poll app hosts, (first :: polls)[i]? = some poll ∧ poll.Goes exceeds dl enforced app hosts) ∧
    ((monitor exceeds global_namenode_name containers (first :: polls)).2 = some .finished ↔
      ∃ dl, Begins global_namenode_name containers first dl ∧ ∃ i poll, GoesBefore exceeds dl (first :: polls) i ∧
        (first :: polls)[i]? = some poll ∧ poll.Stopped) ∧
    ((monitor exceeds global_namenode_name containers (first :: polls)).2 = none ↔
      ∃ dl, Begins global_namenode_name containers first dl ∧
        GoesBefore exceeds dl (first :: polls) (first :: polls).length) ∧
    ∀ dl, Begins global_namenode_name containers first dl → ∀ (poll : Poll) enforced app hosts,
      poll.Goes exceeds dl enforced app hosts → ∀ hosts₀, first.hosts = .ok hosts₀ → hosts.keys ⊆ hosts₀.keys := by
  have hlist : ∀ dl, Begins global_namenode_name containers first dl → ∀ (poll : Poll) enforced app hosts,
      poll.Goes exceeds dl enforced app hosts → ∀ hosts₀, first.hosts = .ok hosts₀ → hosts.keys ⊆ hosts₀.keys := by
    rintro dl ⟨app₀, hosts₀, -, hup, -, hdl⟩ poll enforced app hosts hgoes hosts₁ hosts₁_eq host hhost
    obtain rfl : hosts₀ = hosts₁ := Except.ok.inj (hup.hosts_read.symm.trans hosts₁_eq)
    obtain ⟨e, he, rfl⟩ := List.mem_map.1 hhost
    obtain ⟨datanodes, hget, -⟩ := hgoes.checked e he
    rw [← (datanodeList_eq_ok hdl).1]
    exact Dict.mem_keys_of_get? hget
  by_cases hbegins : ∃ dl, Begins global_namenode_name containers first dl
  · obtain ⟨dl, hdl⟩ := hbegins
    simp only [exists_begins_iff hdl, monitor_of_begins exceeds hdl]
    refine ⟨fun i enforced => ?_, ?_, ?_, hlist⟩
    · rw [Until.getElem?_run, goesOn_iff]
      simp only [pollStep_eq_ok, exists_and_left]
    · rw [Until.run_stopped_iff]
      simp only [goesOn_iff, pollStep_finished]
    · rw [Until.run_goes_on_iff, GoesBefore, List.take_length]
      simp only [pollStep_eq_ok]
  · rw [not_exists] at hbegins
    obtain ⟨e, he⟩ := @monitor_not_begun exceeds _ _ _ polls hbegins
    rw [he]
    refine ⟨fun i enforced => ?_, ?_, ?_, hlist⟩ <;> simp [hbegins]

/-- The resources that `start_global_hdfs` registers. -/
def registeredKey : GlobalHdfs.HdfsResource → String
  | .cpu => "cpu"
  | .mem => "mem"
  | .disk_read => "disk_read"
  | .disk_write => "disk_write"

/-- **The application that was registered is not monitored**, if the database keeps its resources. -/
theorem planned_not_monitored (start : GlobalHdfs.HdfsStart) (global_namenode_name : String)
    (containers : String → Py (Option ContainerState)) {first : Poll} {app : AppState}
    (happ : first.global_app = .ok (some app))
    (hkept : app.resources.keys = start.resources.map fun e => registeredKey e.1) (polls : List Poll) :
    ∃ e, monitor exceeds global_namenode_name containers (first :: polls) = ([], some (.raised e)) := by
  refine monitor_not_begun exceeds fun dl hbegins => ?_
  obtain ⟨app', hosts', namenode, hup, -⟩ := hbegins
  obtain rfl : app = app' := Option.some.inj (Except.ok.inj (happ.symm.trans hup.global_app))
  have hdisk := hup.disk
  rw [hkept] at hdisk
  obtain ⟨e, -, he⟩ := List.mem_map.1 hdisk
  revert he
  cases e.1 <;> simp [registeredKey]

end monitor

end HdfsReplication

end ServerlessYarn
