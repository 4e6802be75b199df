/-
  ServerlessYARN model — the global HDFS cluster (`start_global_hdfs` and `stop_global_hdfs` of
  ui/views/hdfs/operations.py, `start_global_hdfs_task`, `retrieve_global_hdfs_app`).

  A namenode is planned on the server, or on the first host when the server is none, and a
  datanode on every host; later the web interface and the tasks tell them apart by
  their names.

  * `cluster_planned`: when a start raises, and what it plans if it does not;
  * `roles_recovered`: the namenode is found again, whatever the order of the database, iff no
    datanode is on a host whose name has "namenode" in it.
-/
import ServerlessYarn.DiskRegistration
import ServerlessYarn.Inventory
import ServerlessYarn.Lib.Search
import ServerlessYarn.Lib.Traversal
import ServerlessYarn.Resources

namespace ServerlessYarn

open StateDatabase

namespace GlobalHdfs

/-! ## The containers of the cluster -/

/-- The limits of a resource in `resource_config.yml`.  `max` may be missing, and the others may be
    `default`. -/
structure NodeLimits where
  max : Option ℚ
  min : ℚ
  weight : Option ℚ
  boundary : Option ℚ
  boundary_type : Option String

/-- One type of node in `resource_config.yml`. -/
structure NodeConfig where
  cpu : NodeLimits
  mem : NodeLimits
  disk_read : NodeLimits
  disk_write : NodeLimits

structure Settings where
  platform : PlatformConfig
  global_hdfs_disk_name : String
  bind_dir_name : String
  namenode : NodeConfig
  datanode : NodeConfig

def def_weight : ℚ := 1

def def_boundary : ℚ := 10

def def_boundary_type : String := "percentage_of_max"

namespace NodeLimits

/-- The limits under a maximum, with the defaults. -/
def limits (l : NodeLimits) (max : ℚ) : Limits where
  max := max
  min := l.min
  weight := l.weight.getD def_weight
  boundary := l.boundary.getD def_boundary
  boundary_type := l.boundary_type.getD def_boundary_type

/-- Cpu and memory have a maximum of their own. -/
def fixed (l : NodeLimits) : Py Limits :=
  match l.max with
  | some max => .ok (l.limits max)
  | none => .error (.keyError "max")

/-- The bandwidths of a disk have that of the disk. -/
def ofDisk (l : NodeLimits) (disk_max : ℚ) : Limits := l.limits (l.max.getD disk_max)

theorem fixed_eq_ok {l : NodeLimits} {limits : Limits} :
    l.fixed = .ok limits ↔ ∃ max, l.max = some max ∧ l.limits max = limits := by
  unfold fixed
  cases l.max <;> simp

end NodeLimits

/-- `disk`, `disk_path` and the bandwidths of a container. -/
structure HdfsDisk where
  disk : String
  disk_path : String
  disk_read : Limits
  disk_write : Limits

structure HdfsContainer where
  container_name : String
  host : String
  cpu : Limits
  mem : Limits
  disk : Option HdfsDisk

/-- `nn_container_prefix + HOST_CONTAINER_SEPARATOR + host['name']` -/
def namenodeName (host : String) : String := String.join ["namenode", HOST_CONTAINER_SEPARATOR, host]

def datanodeName (host : String) : String := String.join ["datanode", HOST_CONTAINER_SEPARATOR, host]

/-- The frontend disk, if the host has it. -/
def frontendDisk (s : Settings) (h : Host) : Option Disk :=
  h.disks.bind fun disks => disks.get? s.global_hdfs_disk_name

/-- Create the namenode. -/
def createNameNode (s : Settings) (host : String × Host) : Py HdfsContainer := do
  let cpu ← s.namenode.cpu.fixed
  let mem ← s.namenode.mem.fixed
  let disk :=
    if s.platform.check_disks then
      (frontendDisk s host.2).map fun disk => (⟨s.global_hdfs_disk_name, disk.path,
        s.namenode.disk_read.ofDisk disk.max_read, s.namenode.disk_write.ofDisk disk.max_write⟩ : HdfsDisk)
    else none
  return ⟨namenodeName host.1, host.1, cpu, mem, disk⟩

/-- The disk of a datanode on a host with disks: the first one that is not the frontend's. -/
def dataDisk (s : Settings) (host : String) (disks : Dict String Disk) : Py HdfsDisk :=
  match disks.entries.find? fun disk => disk.1 ≠ s.global_hdfs_disk_name with
  | some (disk, d) => .ok ⟨disk, "/".intercalate [d.path, s.bind_dir_name, datanodeName host],
      s.datanode.disk_read.ofDisk d.max_read, s.datanode.disk_write.ofDisk d.max_write⟩
  | none => .error (.keyError "None")

/-- The disk of a datanode, if disks are scaled and its host has some. -/
def datanodeDisk (s : Settings) (host : String × Host) : Py (Option HdfsDisk) :=
  if s.platform.check_disks then
    match host.2.disks with
    | some disks => if disks.entries = [] then .ok none else do return some (← dataDisk s host.1 disks)
    | none => .ok none
  else .ok none

/-- Create the datanode of a host. -/
def createDataNode (s : Settings) (host : String × Host) : Py HdfsContainer := do
  let cpu ← s.datanode.cpu.fixed
  let mem ← s.datanode.mem.fixed
  let disk ← datanodeDisk s host
  return ⟨datanodeName host.1, host.1, cpu, mem, disk⟩

/-- The host of the namenode: the server, or the first one.  Without the server among the hosts the
    variable `host` has no value. -/
def namenodeHost (s : Settings) (server_name : Py String) (hosts : Hosts) : Py (Option (String × Host)) :=
  match hosts.entries with
  | [] => .ok none
  | first :: _ =>
    if s.platform.server_as_host then do
      let server ← server_name
      match hosts.entries.find? fun h => h.1 = server with
      | some host => return some host
      | none => .error (.exception "UnboundLocalError: host")
    else .ok (some first)

/-- No datanode is created on the server if it is reserved for masters. -/
def Reserved (s : Settings) (namenode : String × Host) (host : String) : Prop :=
  s.platform.server_as_host = true ∧ s.platform.reserve_server_for_master = true ∧ host = namenode.1

instance (s : Settings) (namenode : String × Host) (host : String) : Decidable (Reserved s namenode host) :=
  inferInstanceAs (Decidable (_ ∧ _ ∧ _))

def datanodeHosts (s : Settings) (namenode : String × Host) (hosts : Hosts) : List (String × Host) :=
  hosts.entries.filter fun host => ¬ Reserved s namenode host.1

/-! ## The application -/

inductive HdfsResource where
  | cpu | mem | disk_read | disk_write
deriving DecidableEq

/-- `resources` of `manage_global_hdfs`. -/
def hdfsResources (cfg : PlatformConfig) : List HdfsResource :=
  [.cpu, .mem] ++ if cfg.check_disks then [.disk_read, .disk_write] else []

/-- The limits of a resource that are in a container. -/
def HdfsContainer.limits? (c : HdfsContainer) : HdfsResource → Option Limits
  | .cpu => some c.cpu
  | .mem => some c.mem
  | .disk_read => c.disk.map HdfsDisk.disk_read
  | .disk_write => c.disk.map HdfsDisk.disk_write

structure AppResource where
  max : ℚ
  min : ℚ
  weight : ℚ
  boundary : ℚ
  boundary_type : String

/-- The sums over the containers that have the resource. -/
def appResource (containers : List HdfsContainer) (resource : HdfsResource) : AppResource :=
  let sums := containers.foldl (fun (sums : ℚ × ℚ) c =>
    match c.limits? resource with
    | some l => (sums.1 + l.max, sums.2 + l.min)
    | none => sums) (0, 0)
  ⟨sums.1, sums.2, def_weight, def_boundary, def_boundary_type⟩

/-- What is passed on to `start_global_hdfs_task`. -/
structure HdfsStart where
  containers : List HdfsContainer
  resources : List (HdfsResource × AppResource)

/-- The containers of the cluster; there are none without hosts. -/
def createNodes (s : Settings) (hosts : Hosts) : Option (String × Host) → Py (List HdfsContainer)
  | none => .ok []
  | some namenode => do
    let nn_container ← createNameNode s namenode
    let dn_containers ← (datanodeHosts s namenode hosts).mapM (createDataNode s)
    return nn_container :: dn_containers

/-- `start_global_hdfs` -/
def startGlobalHdfs (s : Settings) (server_name : Py String) (hosts : Hosts) : Py HdfsStart := do
  let host ← namenodeHost s server_name hosts
  let containers ← createNodes s hosts host
  if containers = [] then .error (.exception "Cannot create any containers for HDFS cluster")
  else return ⟨containers, (hdfsResources s.platform).map fun r => (r, appResource containers r)⟩

/-! ## What is planned -/

/-- The host that the namenode is to be on. -/
def IsNamenodeHost (s : Settings) (server_name : Py String) (hosts : Hosts) (namenode : String × Host) : Prop :=
  if s.platform.server_as_host then server_name = .ok namenode.1 ∧ namenode ∈ hosts.entries
  else hosts.entries.head? = some namenode

theorem namenodeHost_eq_ok {s : Settings} {server_name : Py String} {hosts : Hosts} {namenode : String × Host} :
    namenodeHost s server_name hosts = .ok (some namenode) ↔ IsNamenodeHost s server_name hosts namenode := by
  unfold namenodeHost IsNamenodeHost
  cases hhosts : hosts.entries with
  | nil => simp
  | cons first rest =>
    by_cases hserver : s.platform.server_as_host = true
    · dsimp only
      rw [if_pos hserver, if_pos hserver, ← hhosts, bind_eq_ok]
      constructor
      · rintro ⟨server, hname, hfind⟩
        cases hentry : hosts.entries.find? fun h => h.1 = server with
        | none => simp [hentry] at hfind
        | some host =>
          rw [hentry] at hfind
          obtain rfl : host = namenode := Option.some.inj (pure_eq_ok.1 hfind)
          have hkey : host.1 = server := by simpa using List.find?_some hentry
          exact ⟨hkey ▸ hname, List.mem_of_find?_eq_some hentry⟩
      · rintro ⟨hname, hmem⟩
        refine ⟨namenode.1, hname, ?_⟩
        cases hentry : hosts.entries.find? fun h => h.1 = namenode.1 with
        | none =>
          simp only [List.find?_eq_none, decide_eq_true_eq] at hentry
          exact absurd rfl (hentry namenode hmem)
        | some host =>
          have hkey : host.1 = namenode.1 := by simpa using List.find?_some hentry
          have hsame : host = namenode :=
            List.inj_on_of_nodup_map hosts.distinct (List.mem_of_find?_eq_some hentry) hmem hkey
          rw [hsame]
          rfl
    · dsimp only
      rw [if_neg hserver, if_neg hserver]
      simp

theorem IsNamenodeHost.mem {s : Settings} {server_name : Py String} {hosts : Hosts} {namenode : String × Host}
    (h : IsNamenodeHost s server_name hosts namenode) : namenode ∈ hosts.entries := by
  unfold IsNamenodeHost at h
  split_ifs at h
  · exact h.2
  · exact List.mem_of_mem_head? h

/-- Cpu and memory have their maxima. -/
def NodeConfig.HasMaxima (c : NodeConfig) : Prop := c.cpu.max.isSome ∧ c.mem.max.isSome

theorem NodeConfig.hasMaxima_iff {c : NodeConfig} :
    c.HasMaxima ↔ (∃ l, c.cpu.fixed = .ok l) ∧ ∃ l, c.mem.fixed = .ok l := by
  simp [HasMaxima, Option.isSome_iff_exists, NodeLimits.fixed_eq_ok]

/-- A host with disks has one for data. -/
def HasDataDisk (s : Settings) (host : Host) : Prop :=
  ∀ disks, host.disks = some disks → disks.entries ≠ [] → ∃ disk ∈ disks.keys, disk ≠ s.global_hdfs_disk_name

/-- The disk of a container is one of its host, with the bandwidths that the configuration leaves to it. -/
def NodeConfig.OnDisk (c : NodeConfig) (host : Host) (d : HdfsDisk) : Prop :=
  ∃ disks disk, host.disks = some disks ∧ disks.get? d.disk = some disk ∧
    d.disk_read = c.disk_read.ofDisk disk.max_read ∧ d.disk_write = c.disk_write.ofDisk disk.max_write

/-- What is created as a namenode. -/
structure NameNodeOn (s : Settings) (host : String × Host) (c : HdfsContainer) : Prop where
  named : c.container_name = namenodeName host.1
  placed : c.host = host.1
  on_disk : ∀ d, c.disk = some d → d.disk = s.global_hdfs_disk_name ∧ s.namenode.OnDisk host.2 d

/-- What is created as a datanode. -/
structure DataNodeOn (s : Settings) (host : String × Host) (c : HdfsContainer) : Prop where
  named : c.container_name = datanodeName host.1
  placed : c.host = host.1
  on_disk : ∀ d, c.disk = some d → d.disk ≠ s.global_hdfs_disk_name ∧ s.datanode.OnDisk host.2 d
  diskless : c.disk = none ↔
    s.platform.check_disks = false ∨ ∀ disks, host.2.disks = some disks → disks.entries = []

theorem createNameNode_eq_ok {s : Settings} {host : String × Host} {c : HdfsContainer}
    (h : createNameNode s host = .ok c) : NameNodeOn s host c := by
  unfold createNameNode at h
  simp only [bind_eq_ok, pure_eq_ok] at h
  obtain ⟨cpu, -, mem, -, rfl⟩ := h
  refine ⟨rfl, rfl, fun d hd => ?_⟩
  split_ifs at hd
  obtain ⟨disk, hdisk, rfl⟩ := Option.map_eq_some_iff.1 hd
  obtain ⟨disks, hdisks, hget⟩ := Option.bind_eq_some_iff.1 hdisk
  exact ⟨rfl, disks, disk, hdisks, hget, rfl, rfl⟩

theorem createNameNode_ok_iff {s : Settings} {host : String × Host} :
    (∃ c, createNameNode s host = .ok c) ↔ s.namenode.HasMaxima := by
  unfold createNameNode
  rw [NodeConfig.hasMaxima_iff]
  simp only [bind_eq_ok, pure_eq_ok]
  constructor
  · rintro ⟨c, cpu, hcpu, mem, hmem, -⟩
    exact ⟨⟨cpu, hcpu⟩, mem, hmem⟩
  · rintro ⟨⟨cpu, hcpu⟩, mem, hmem⟩
    exact ⟨_, cpu, hcpu, mem, hmem, rfl⟩

theorem dataDisk_eq_ok {s : Settings} {host : String} {disks : Dict String Disk} {d : HdfsDisk}
    (h : dataDisk s host disks = .ok d) : d.disk ≠ s.global_hdfs_disk_name ∧
      ∃ disk, disks.get? d.disk = some disk ∧ d.disk_read = s.datanode.disk_read.ofDisk disk.max_read ∧
        d.disk_write = s.datanode.disk_write.ofDisk disk.max_write := by
  unfold dataDisk at h
  split at h
  · rename_i disk' disk hfind
    cases h
    exact ⟨by simpa using List.find?_some hfind,
      disk, Dict.get?_eq_some_iff.2 (List.mem_of_find?_eq_some hfind), rfl, rfl⟩
  · cases h

theorem dataDisk_ok_iff {s : Settings} {host : String} {disks : Dict String Disk} :
    (∃ d, dataDisk s host disks = .ok d) ↔ ∃ disk ∈ disks.keys, disk ≠ s.global_hdfs_disk_name := by
  constructor
  · rintro ⟨d, hd⟩
    obtain ⟨hne, disk, hget, -⟩ := dataDisk_eq_ok hd
    exact ⟨d.disk, Dict.mem_keys_of_get? hget, hne⟩
  · rintro ⟨disk, hdisk, hne⟩
    obtain ⟨e, he, rfl⟩ := List.mem_map.1 hdisk
    unfold dataDisk
    split
    · exact ⟨_, rfl⟩
    · rename_i hfind
      exact absurd (by simpa using hne) (List.find?_eq_none.1 hfind e he)

/-- Which disk a datanode has. -/
theorem datanodeDisk_eq_ok {s : Settings} {host : String × Host} {disk : Option HdfsDisk}
    (h : datanodeDisk s host = .ok disk) :
    (∀ d, disk = some d → d.disk ≠ s.global_hdfs_disk_name ∧ s.datanode.OnDisk host.2 d) ∧
    (disk = none ↔ s.platform.check_disks = false ∨ ∀ disks, host.2.disks = some disks → disks.entries = []) := by
  unfold datanodeDisk at h
  split_ifs at h with hcheck
  · split at h
    · rename_i disks hdisks
      split_ifs at h with hempty
      · cases h
        simp [hdisks, hempty]
      · simp only [bind_eq_ok, pure_eq_ok] at h
        obtain ⟨d, hd, rfl⟩ := h
        obtain ⟨hne, disk, hget, hread, hwrite⟩ := dataDisk_eq_ok hd
        refine ⟨fun d' hd' => ?_, by simp [hcheck, hdisks, hempty]⟩
        obtain rfl := Option.some.inj hd'
        exact ⟨hne, disks, disk, hdisks, hget, hread, hwrite⟩
    · rename_i hdisks
      cases h
      simp [hdisks]
  · cases h
    simp [hcheck]

theorem datanodeDisk_ok_iff {s : Settings} {host : String × Host} :
    (∃ disk, datanodeDisk s host = .ok disk) ↔ (s.platform.check_disks = true → HasDataDisk s host.2) := by
  unfold datanodeDisk HasDataDisk
  split_ifs with hcheck
  · split
    · rename_i disks hdisks
      split_ifs with hempty
      · simp [hdisks, hempty]
      · have hsome : (∃ disk, (do return some (← dataDisk s host.1 disks) : Py (Option HdfsDisk)) = .ok disk) ↔
            ∃ d, dataDisk s host.1 disks = .ok d := by
          simp only [bind_eq_ok, pure_eq_ok]
          constructor
          · rintro ⟨-, d, hd, -⟩
            exact ⟨d, hd⟩
          · rintro ⟨d, hd⟩
            exact ⟨_, d, hd, rfl⟩
        rw [hsome, dataDisk_ok_iff]
        simp [hcheck, hdisks, hempty]
    · rename_i hdisks
      simp [hdisks]
  · simp [hcheck]

theorem createDataNode_eq_ok {s : Settings} {host : String × Host} {c : HdfsContainer}
    (h : createDataNode s host = .ok c) : DataNodeOn s host c := by
  unfold createDataNode at h
  simp only [bind_eq_ok, pure_eq_ok] at h
  obtain ⟨cpu, -, mem, -, disk, hdisk, rfl⟩ := h
  obtain ⟨hon, hnone⟩ := datanodeDisk_eq_ok hdisk
  exact ⟨rfl, rfl, hon, hnone⟩

theorem createDataNode_ok_iff {s : Settings} {host : String × Host} : (∃ c, createDataNode s host = .ok c) ↔
    s.datanode.HasMaxima ∧ (s.platform.check_disks = true → HasDataDisk s host.2) := by
  unfold createDataNode
  rw [NodeConfig.hasMaxima_iff, ← datanodeDisk_ok_iff]
  simp only [bind_eq_ok, pure_eq_ok]
  constructor
  · rintro ⟨c, cpu, hcpu, mem, hmem, disk, hdisk, -⟩
    exact ⟨⟨⟨cpu, hcpu⟩, mem, hmem⟩, disk, hdisk⟩
  · rintro ⟨⟨⟨cpu, hcpu⟩, mem, hmem⟩, disk, hdisk⟩
    exact ⟨_, cpu, hcpu, mem, hmem, disk, hdisk, rfl⟩

/-! ## Names -/

theorem toList_namenodeName (host : String) :
    (namenodeName host).toList = "namenode".toList ++ '-' :: host.toList := by
  simp [namenodeName, HOST_CONTAINER_SEPARATOR]

theorem toList_datanodeName (host : String) :
    (datanodeName host).toList = "datanode".toList ++ '-' :: host.toList := by
  simp [datanodeName, HOST_CONTAINER_SEPARATOR]

theorem datanodeName_injective : Function.Injective datanodeName := by
  intro host host' h
  have hlist := congrArg String.toList h
  rw [toList_datanodeName, toList_datanodeName] at hlist
  exact String.toList_inj.1 (List.cons.inj (List.append_cancel_left hlist)).2

theorem namenodeName_ne_datanodeName (host host' : String) : namenodeName host ≠ datanodeName host' := by
  intro h
  have hlist := congrArg String.toList h
  rw [toList_namenodeName, toList_datanodeName] at hlist
  simp at hlist

/-- A text without a separator is in the name of a node iff it is in the type or in the host. -/
theorem infix_namenodeName {text : List Char} (hne : text ≠ []) (hsep : '-' ∉ text) (host : String) :
    text <:+: (namenodeName host).toList ↔ text <:+: "namenode".toList ∨ text <:+: host.toList := by
  rw [toList_namenodeName]
  exact Search.infix_separated hne hsep

theorem infix_datanodeName {text : List Char} (hne : text ≠ []) (hsep : '-' ∉ text) (host : String) :
    text <:+: (datanodeName host).toList ↔ text <:+: "datanode".toList ∨ text <:+: host.toList := by
  rw [toList_datanodeName]
  exact Search.infix_separated hne hsep

@[simp] theorem hasText_namenodeName (host : String) : hasText "namenode" (namenodeName host) = true := by
  unfold hasText
  rw [decide_eq_true_eq, infix_namenodeName (by simp) (by simp)]
  exact Or.inl (List.infix_refl _)

@[simp] theorem hasText_datanodeName (host : String) : hasText "datanode" (datanodeName host) = true := by
  unfold hasText
  rw [decide_eq_true_eq, infix_datanodeName (by simp) (by simp)]
  exact Or.inl (List.infix_refl _)

theorem hasText_namenode_datanodeName (host : String) :
    hasText "namenode" (datanodeName host) = hasText "namenode" host := by
  unfold hasText
  rw [decide_eq_decide, infix_datanodeName (by simp) (by simp)]
  exact or_iff_right (by decide)

theorem hasText_datanode_namenodeName (host : String) :
    hasText "datanode" (namenodeName host) = hasText "datanode" host := by
  unfold hasText
  rw [decide_eq_decide, infix_namenodeName (by simp) (by simp)]
  exact or_iff_right (by decide)

/-! ## The plan -/

/-- What a start has planned. -/
structure Plans (s : Settings) (hosts : Hosts) (namenode : String × Host) (start : HdfsStart) : Prop where
  nodes : ∃ nn dns, start.containers = nn :: dns ∧ NameNodeOn s namenode nn ∧
    List.Forall₂ (DataNodeOn s) (datanodeHosts s namenode hosts) dns
  distinct : (start.containers.map HdfsContainer.container_name).Nodup
  resources : start.resources.map Prod.fst = hdfsResources s.platform
  sums : ∀ e ∈ start.resources,
    e.2.max = ((start.containers.filterMap (HdfsContainer.limits? · e.1)).map Limits.max).sum ∧
      e.2.min = ((start.containers.filterMap (HdfsContainer.limits? · e.1)).map Limits.min).sum

theorem appResource_sums (containers : List HdfsContainer) (r : HdfsResource) :
    (appResource containers r).max = ((containers.filterMap (HdfsContainer.limits? · r)).map Limits.max).sum ∧
      (appResource containers r).min = ((containers.filterMap (HdfsContainer.limits? · r)).map Limits.min).sum := by
  induction containers using List.reverseRecOn with
  | nil => exact ⟨rfl, rfl⟩
  | append_singleton containers c ih =>
    unfold appResource at ih ⊢
    rw [List.foldl_append, List.filterMap_append, List.map_append, List.map_append, List.sum_append, List.sum_append]
    dsimp only at ih ⊢
    rw [← ih.1, ← ih.2]
    cases hlimits : c.limits? r <;> simp [hlimits]

/-- The names of the nodes. -/
theorem Plans.names {s : Settings} {namenode : String × Host} {nn : HdfsContainer} {dns : List HdfsContainer}
    {dn_hosts : List (String × Host)} (hnn : NameNodeOn s namenode nn)
    (hdns : List.Forall₂ (DataNodeOn s) dn_hosts dns) :
    (nn :: dns).map HdfsContainer.container_name =
      namenodeName namenode.1 :: dn_hosts.map fun host => datanodeName host.1 := by
  rw [List.map_cons, hnn.named]
  congr 1
  induction hdns with
  | nil => rfl
  | cons h _ ih => rw [List.map_cons, List.map_cons, h.named, ih]

theorem nodup_names (s : Settings) (namenode : String × Host) (hosts : Hosts) :
    (namenodeName namenode.1 :: (datanodeHosts s namenode hosts).map fun host => datanodeName host.1).Nodup := by
  refine List.nodup_cons.2 ⟨fun hmem => ?_, ?_⟩
  · obtain ⟨host, -, hname⟩ := List.mem_map.1 hmem
    exact namenodeName_ne_datanodeName _ _ hname.symm
  · have hkeys : ((datanodeHosts s namenode hosts).map Prod.fst).Nodup :=
      hosts.distinct.sublist (List.filter_sublist.map _)
    have hnodup := hkeys.map datanodeName_injective
    rwa [List.map_map] at hnodup

theorem startGlobalHdfs_eq_ok {s : Settings} {server_name : Py String} {hosts : Hosts} {start : HdfsStart} :
    startGlobalHdfs s server_name hosts = .ok start ↔ ∃ namenode nn dns,
      IsNamenodeHost s server_name hosts namenode ∧ createNameNode s namenode = .ok nn ∧
      (datanodeHosts s namenode hosts).mapM (createDataNode s) = .ok dns ∧
      start = ⟨nn :: dns, (hdfsResources s.platform).map fun r => (r, appResource (nn :: dns) r)⟩ := by
  unfold startGlobalHdfs
  simp only [bind_eq_ok]
  constructor
  · rintro ⟨_ | namenode, hhost, containers, hcontainers, h⟩
    · cases hcontainers
      cases h
    · simp only [createNodes, bind_eq_ok, pure_eq_ok] at hcontainers
      obtain ⟨nn, hnn, dns, hdns, rfl⟩ := hcontainers
      exact ⟨namenode, nn, dns, namenodeHost_eq_ok.1 hhost, hnn, hdns, (pure_eq_ok.1 h).symm⟩
  · rintro ⟨namenode, nn, dns, hhost, hnn, hdns, rfl⟩
    refine ⟨some namenode, namenodeHost_eq_ok.2 hhost, nn :: dns, ?_, rfl⟩
    simp only [createNodes, bind_eq_ok, pure_eq_ok]
    exact ⟨nn, hnn, dns, hdns, rfl⟩

/-- What a start needs: a host for the namenode, the maxima of the nodes, and disks for the data. -/
def Startable (s : Settings) (server_name : Py String) (hosts : Hosts) : Prop :=
  ∃ namenode, IsNamenodeHost s server_name hosts namenode ∧ s.namenode.HasMaxima ∧
    ∀ host ∈ datanodeHosts s namenode hosts,
      s.datanode.HasMaxima ∧ (s.platform.check_disks = true → HasDataDisk s host.2)

theorem startGlobalHdfs_ok_iff {s : Settings} {server_name : Py String} {hosts : Hosts} :
    (∃ start, startGlobalHdfs s server_name hosts = .ok start) ↔ Startable s server_name hosts := by
  constructor
  · rintro ⟨start, h⟩
    obtain ⟨namenode, nn, dns, hhost, hnn, hdns, -⟩ := startGlobalHdfs_eq_ok.1 h
    refine ⟨namenode, hhost, createNameNode_ok_iff.1 ⟨nn, hnn⟩, fun host hmem => createDataNode_ok_iff.1 ?_⟩
    obtain ⟨dn, -, hdn⟩ := mem_of_mapM hdns hmem
    exact ⟨dn, hdn⟩
  · rintro ⟨namenode, hhost, hmaxima, hdatanodes⟩
    obtain ⟨nn, hnn⟩ := createNameNode_ok_iff.2 hmaxima
    obtain ⟨dns, hdns⟩ := mapM_ok fun host hmem => createDataNode_ok_iff.2 (hdatanodes host hmem)
    exact ⟨_, startGlobalHdfs_eq_ok.2 ⟨namenode, nn, dns, hhost, hnn, hdns, rfl⟩⟩

theorem plans_of_startGlobalHdfs {s : Settings} {server_name : Py String} {hosts : Hosts} {start : HdfsStart}
    (h : startGlobalHdfs s server_name hosts = .ok start) :
    ∃ namenode, IsNamenodeHost s server_name hosts namenode ∧ Plans s hosts namenode start := by
  obtain ⟨namenode, nn, dns, hhost, hnn, hdns, rfl⟩ := startGlobalHdfs_eq_ok.1 h
  have hon := createNameNode_eq_ok hnn
  have hons := (Traversal.mapM_eq_ok_iff.1 hdns).imp fun _ _ => createDataNode_eq_ok
  refine ⟨namenode, hhost, ⟨nn, dns, rfl, hon, hons⟩, ?_, ?_, fun e he => ?_⟩
  · dsimp only
    rw [Plans.names hon hons]
    exact nodup_names s namenode hosts
  · simp [Function.comp_def]
  · obtain ⟨r, -, rfl⟩ := List.mem_map.1 he
    exact appResource_sums _ r

/-- **A start plans the whole cluster, or raises**: when it does the one and when the other. -/
theorem cluster_planned (s : Settings) (server_name : Py String) (hosts : Hosts) :
    ((∃ start, startGlobalHdfs s server_name hosts = .ok start) ↔ Startable s server_name hosts) ∧
    ∀ start, startGlobalHdfs s server_name hosts = .ok start →
      ∃ namenode, IsNamenodeHost s server_name hosts namenode ∧ Plans s hosts namenode start :=
  ⟨startGlobalHdfs_ok_iff, fun _ => plans_of_startGlobalHdfs⟩

/-! ## The roles of the nodes -/

/-- What `start_global_hdfs_task` sizes Hadoop by: the first container that is called a datanode.  The error goes on
    with the containers. -/
def workerResources (containers : List HdfsContainer) : Py HdfsContainer :=
  match containers.find? fun c => hasText "datanode" c.container_name with
  | some container => .ok container
  | none => .error (.exception "Worker container not found when starting global hdfs")

/-- The namenode for `stop_global_hdfs`: the first container of the database that is called so. -/
def stopNamenode (names : List String) : Option String := names.find? (hasText "namenode")

/-- `retrieve_global_hdfs_app`: the last container that is called a namenode, and those that are called
    datanodes and not namenodes. -/
def retrieveGlobalHdfs (names : List String) : Option String × List String :=
  names.foldl (fun found name =>
    if hasText "namenode" name then (some name, found.2)
    else if hasText "datanode" name then (found.1, found.2 ++ [name])
    else found) (none, [])

theorem retrieveGlobalHdfs_eq (names : List String) : retrieveGlobalHdfs names =
    ((names.filter (hasText "namenode")).getLast?,
      names.filter fun name => !hasText "namenode" name && hasText "datanode" name) := by
  induction names using List.reverseRecOn with
  | nil => rfl
  | append_singleton names name ih =>
    unfold retrieveGlobalHdfs at ih ⊢
    rw [List.foldl_append, ih, List.filter_append, List.filter_append]
    by_cases hnn : hasText "namenode" name = true
    · simp [hnn]
    · by_cases hdn : hasText "datanode" name = true <;> simp [hnn, hdn]

/-- The namenode and the datanodes are found again under the names of the plan, in this order. -/
def Recovered (namenode : String) (names : List String) : Prop :=
  retrieveGlobalHdfs names = (some namenode, names.filter (· ≠ namenode)) ∧ stopNamenode names = some namenode

/-- Names of which only the namenode is called so are told apart in every order. -/
theorem recovered_of_perm {namenode : String} {datanodes names : List String}
    (hperm : names.Perm (namenode :: datanodes)) (hnamenode : hasText "namenode" namenode = true)
    (hdatanodes : ∀ name ∈ datanodes, hasText "namenode" name = false ∧ hasText "datanode" name = true) :
    Recovered namenode names := by
  have hmem : ∀ name ∈ names, name = namenode ∨
      hasText "namenode" name = false ∧ hasText "datanode" name = true := fun name hname =>
    (List.mem_cons.1 (hperm.mem_iff.1 hname)).imp_right (hdatanodes name)
  have honly : names.filter (hasText "namenode") = [namenode] := by
    have hnone : datanodes.filter (hasText "namenode") = [] :=
      List.filter_eq_nil_iff.2 fun name hname => by simp [(hdatanodes name hname).1]
    have hfilter := hperm.filter (hasText "namenode")
    rw [List.filter_cons_of_pos hnamenode, hnone] at hfilter
    exact List.perm_singleton.1 hfilter
  constructor
  · rw [retrieveGlobalHdfs_eq, honly]
    refine congrArg₂ Prod.mk rfl (List.filter_congr fun name hname => ?_)
    rcases hmem name hname with rfl | ⟨hno, hyes⟩
    · simp [hnamenode]
    · have hne : name ≠ namenode := fun h => by rw [h, hnamenode] at hno; cases hno
      simp [hno, hyes, hne]
  · unfold stopNamenode
    rw [← List.head?_filter, honly]
    rfl

/-- A datanode that is called a namenode is taken for it, if the database lists it last. -/
theorem not_recovered {namenode name : String} {names : List String} (hlast : names.getLast? = some name)
    (hname : hasText "namenode" name = true) (hne : name ≠ namenode) : ¬ Recovered namenode names := by
  rintro ⟨hretrieve, -⟩
  obtain ⟨names, rfl⟩ := List.getLast?_eq_some_iff.1 hlast
  rw [retrieveGlobalHdfs_eq, Prod.mk.injEq, List.filter_append, List.filter_cons_of_pos hname] at hretrieve
  exact hne (by simpa using hretrieve.1)

/-- The worker is a datanode iff there is one and the namenode is not called so. -/
theorem workerResources_mem_iff {nn : HdfsContainer} {dns : List HdfsContainer} (hnn : nn ∉ dns)
    (hdns : ∀ c ∈ dns, hasText "datanode" c.container_name = true) :
    (∃ c ∈ dns, workerResources (nn :: dns) = .ok c) ↔
      dns ≠ [] ∧ hasText "datanode" nn.container_name = false := by
  unfold workerResources
  by_cases hname : hasText "datanode" nn.container_name = true
  · simp [hname, hnn]
  · rw [Bool.not_eq_true] at hname
    cases dns with
    | nil => simp [hname]
    | cons c dns => simp [hname, hdns c List.mem_cons_self]

/-- **The roles of the nodes**: the web interface and the stop of the cluster find the namenode of the plan, and the
    interface its datanodes, in whatever order the database lists the containers, iff no datanode is on a host with
    "namenode" in its name; and Hadoop is sized by a datanode iff there is one and the host of
    the namenode has not "datanode" in its name. -/
theorem roles_recovered {s : Settings} {server_name : Py String} {hosts : Hosts} {start : HdfsStart}
    (h : startGlobalHdfs s server_name hosts = .ok start) :
    ∃ namenode, IsNamenodeHost s server_name hosts namenode ∧
      ((∀ names, names.Perm (start.containers.map HdfsContainer.container_name) →
          Recovered (namenodeName namenode.1) names) ↔
        ∀ host ∈ datanodeHosts s namenode hosts, hasText "namenode" host.1 = false) ∧
      ((∃ c ∈ start.containers.tail, workerResources start.containers = .ok c) ↔
        datanodeHosts s namenode hosts ≠ [] ∧ hasText "datanode" namenode.1 = false) := by
  obtain ⟨namenode, hhost, ⟨nn, dns, hcontainers, hnn, hdns⟩, hdistinct, -, -⟩ :=
    plans_of_startGlobalHdfs h
  refine ⟨namenode, hhost, ⟨fun hall host hmem => ?_, fun hhosts names hperm => ?_⟩, ?_⟩
  · rw [hcontainers, Plans.names hnn hdns] at hall
    by_contra hname
    rw [Bool.not_eq_false, ← hasText_namenode_datanodeName] at hname
    have hin : datanodeName host.1 ∈ namenodeName namenode.1 ::
        (datanodeHosts s namenode hosts).map fun host => datanodeName host.1 :=
      List.mem_cons_of_mem _ (List.mem_map_of_mem hmem)
    obtain ⟨before, behind, hsplit⟩ := List.append_of_mem hin
    refine not_recovered (List.getLast?_concat (l := before ++ behind)) hname (namenodeName_ne_datanodeName _ _).symm
      (hall _ ?_)
    rw [hsplit, List.append_assoc]
    exact List.perm_append_comm.append_left before
  · rw [hcontainers, Plans.names hnn hdns] at hperm
    refine recovered_of_perm hperm (hasText_namenodeName _) fun name hname => ?_
    obtain ⟨host, hmem, rfl⟩ := List.mem_map.1 hname
    rw [hasText_namenode_datanodeName]
    exact ⟨hhosts host hmem, hasText_datanodeName _⟩
  · have hdatanodes : ∀ c ∈ dns, hasText "datanode" c.container_name = true := by
      intro c hc
      obtain ⟨host, -, hdn⟩ := Traversal.exists_of_mem_forall₂ hdns hc
      rw [hdn.named, hasText_datanodeName]
    have hnotin : nn ∉ dns := by
      rw [hcontainers, List.map_cons] at hdistinct
      exact fun hmem => (List.nodup_cons.1 hdistinct).1 (List.mem_map_of_mem hmem)
    have hempty : dns ≠ [] ↔ datanodeHosts s namenode hosts ≠ [] := by
      rw [← List.length_pos_iff, ← List.length_pos_iff, hdns.length_eq]
    rw [hcontainers, List.tail_cons, workerResources_mem_iff hnotin hdatanodes, hnn.named,
      hasText_datanode_namenodeName, hempty]

/-! One host, without disks. -/

def soleNode : NodeConfig :=
  let l : NodeLimits := ⟨some 100, 10, none, none, none⟩
  ⟨l, l, l, l⟩

def soleSettings : Settings := ⟨⟨false, false, false, false, false⟩, "frontend", "binds", soleNode, soleNode⟩

def soleHost : String × Host := ("host0", ⟨fun _ => 0, 0, none⟩)

def soleHosts : Hosts := Dict.empty.set soleHost.1 soleHost.2

def soleLimits : Limits := ⟨100, 10, def_weight, def_boundary, def_boundary_type⟩

def soleContainers : List HdfsContainer :=
  [⟨namenodeName "host0", "host0", soleLimits, soleLimits, none⟩,
    ⟨datanodeName "host0", "host0", soleLimits, soleLimits, none⟩]

def soleStart : HdfsStart :=
  ⟨soleContainers, (hdfsResources soleSettings.platform).map fun r => (r, appResource soleContainers r)⟩

theorem sole_start : startGlobalHdfs soleSettings (.error .indexError) soleHosts = .ok soleStart := by
  rfl

theorem roles_recovered_sole : ∃ namenode, IsNamenodeHost soleSettings (.error .indexError) soleHosts namenode ∧
    ((∀ names, names.Perm (soleStart.containers.map HdfsContainer.container_name) →
        Recovered (namenodeName namenode.1) names) ↔
      ∀ host ∈ datanodeHosts soleSettings namenode soleHosts, hasText "namenode" host.1 = false) ∧
    ((∃ c ∈ soleStart.containers.tail, workerResources soleStart.containers = .ok c) ↔
      datanodeHosts soleSettings namenode soleHosts ≠ [] ∧ hasText "datanode" namenode.1 = false) :=
  roles_recovered sole_start

end GlobalHdfs

end ServerlessYarn
