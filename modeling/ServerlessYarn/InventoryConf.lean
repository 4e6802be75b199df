/-
  ServerlessYARN model — the inventory made from the configuration
  (`scripts/config/load_inventory_from_conf.py`).

  The script forgets the old inventory, except for the measured bandwidths of
  its disks, and adds the server, the group of the nodes with its defaults, and
  the hosts.

  * `HasDefaults`: the group of the nodes is there, with defaults for the
    variables that may be empty;
  * `setHostVar_hasDefaults`, `addHostToGroup_hasDefaults`: writing variables
    and adding hosts keep it;
  * `loadInventoryFromConf_inv`: the rule for what the script establishes;
  * `loadInventoryFromConf_hasDefaults`: it establishes `HasDefaults`.
-/
import ServerlessYarn.InventoryUpdates

namespace ServerlessYarn

open Inventory

/-! ## The script -/

/-- The keys of `config.yml` that the script reads. -/
structure InventoryConfig where
  hostnames : Option String
  server_ip : String
  number_of_hosts : ℤ
  server_as_host : Bool
  number_of_containers_per_node : ℤ
  cpus_per_host : ℤ
  memory_per_host : ℤ
  power_budgeting : Bool
  energy_per_host : ℤ
  disk_capabilities : Bool
  hdd_disks_per_host : ℤ
  hdd_disks_path_list : String
  ssd_disks_per_host : ℤ
  ssd_disks_path_list : String
  create_lvm : Bool
  lvm_path : String
  cpus_server_node : ℤ
  memory_server_node : ℤ
  global_hdfs : Bool
  global_hdfs_disk_name : String
  global_hdfs_data_dir : String

/-- The dictionary of `create_resource_dict`, whose `containers` are empty. -/
def Inventory.NodeResources.vars (r : NodeResources) : HostVars :=
  ((((Dict.empty.set "cpu" (.int r.cpu)).set "mem" (.int r.mem)).set "energy"
    (r.energy.elim .null .int)).set "disks" (.disks r.disks)).set "containers" (.containers [])

/-- `create_resource_dict`. -/
def createResourceDict (expandvars : String → String) (config : InventoryConfig) :
    Py NodeResources := do
  let disks ← if config.disk_capabilities then
      getDisksDict expandvars ⟨config.hdd_disks_per_host, splitComma config.hdd_disks_path_list,
        config.ssd_disks_per_host, splitComma config.ssd_disks_path_list, config.create_lvm,
        config.lvm_path⟩
    else pure .empty
  return ⟨config.cpus_per_host, config.memory_per_host, disks,
    if config.power_budgeting then some config.energy_per_host else none⟩

/-- `previous_inventory.get_disks(hostname)`; without a host name it reads the
    defaults. -/
def previousDisks (previous : Inventory) : Option String → Py (Dict String DiskInfo)
  | some hostname => previous.getDisks hostname
  | none =>
    match getHostVar previous HOST_GROUP_NAME "disks" "" with
    | .error (.keyError _) => .error
        (.exception "Host None did not match with any of the existing hosts in inventory")
    | r => do InvValue.diskDict (← r)

/-- `update_disks_bandwidths`, unless the flag `reset_disks` is given. -/
def updateDisksBandwidths (reset_disks : Bool) (previous : Inventory) (hostname : Option String)
    (resources : NodeResources) : Py NodeResources := do
  if reset_disks then return resources
  let previous_disks ← previousDisks previous hostname
  return { resources with disks := resources.disks.mapVal fun disk info =>
    match previous_disks.get? disk with
    | some old => { info with
        read_bw := old.read_bw.or info.read_bw, write_bw := old.write_bw.or info.write_bw }
    | none => info }

namespace Inventory

/-- `add_server`. -/
def addServer (inv : Inventory) (host_ip ansible_host : String) : Py Inventory :=
  addHostToGroup inv SERVER_GROUP_NAME SERVER_INVENTORY_NAME
    ((Dict.empty.set "host_ip" (.str host_ip)).set "ansible_host" (.str ansible_host))

/-- The default variables after `_add_group`: null variables are discarded. -/
def addGroupVars (vars : Option HostVars) (group_vars : HostVars) : Option HostVars :=
  group_vars.entries.foldl (fun vars v =>
    if !v.2.falsy || v.1 ∈ EMPTIABLE_VARS then some ((vars.getD .empty).set v.1 v.2) else vars) vars

/-- `add_node_group`. -/
def addNodeGroup (inv : Inventory) (resources : HostVars) : Inventory :=
  (addGroup inv HOST_GROUP_NAME).modify HOST_GROUP_NAME fun g =>
    { g with vars := addGroupVars g.vars resources }

/-- `add_node`, for a dictionary of resources. -/
def addNodeVars (inv : Inventory) (hostname : String) (resources : HostVars)
    (containers : List String) : Py Inventory :=
  addHostToGroup inv HOST_GROUP_NAME hostname (resources.set "containers" (.containers containers))

end Inventory

/-- The server, when it is a host too; with a disk of its own for the namenode. -/
def addServerAsHost (expandvars : String → String) (reset_disks : Bool) (config : InventoryConfig)
    (previous : Inventory) (server_name : String) (inv : Inventory) : Py Inventory := do
  let server_resources ← createResourceDict expandvars config
  let disks := if config.global_hdfs && config.disk_capabilities then
      server_resources.disks.set config.global_hdfs_disk_name
        ⟨resolveDiskPath expandvars config.global_hdfs_data_dir, none, none⟩
    else server_resources.disks
  let server_resources ← updateDisksBandwidths reset_disks previous (some server_name)
    { server_resources with cpu := config.cpus_server_node, mem := config.memory_server_node, disks }
  inv.addNodeVars server_name server_resources.vars
    (createContainerList server_name config.number_of_containers_per_node 0)

/-- The body of the loop over the regular hosts. -/
def addRegularHost (expandvars : String → String) (reset_disks : Bool) (config : InventoryConfig)
    (previous : Inventory) (hostnames : List String) (inv : Inventory) (i : ℕ) : Py Inventory := do
  match hostnames[i]? with
  | none => .error .indexError
  | some host_name =>
    let host_resources ← createResourceDict expandvars config
    let host_resources ← updateDisksBandwidths reset_disks previous (some host_name) host_resources
    inv.addNodeVars host_name host_resources.vars
      (createContainerList host_name config.number_of_containers_per_node 0)

/-- `main`, with the inventory that was there before. -/
def loadInventoryFromConf (expandvars : String → String) (reset_disks : Bool)
    (config : InventoryConfig) (previous : Inventory) : Py Inventory := do
  match config.hostnames.map splitComma with
  | none | some [] | some [""] => .error (.exception ("Error in configuration: 'hostnames' key does " ++
      "not exist or has null value. It should have been overriden during Vagrant or SLURM startup"))
  | some (server_name :: hostnames) =>
    let inv ← addServer .empty config.server_ip server_name
    let default_resources ← createResourceDict expandvars config
    let default_resources ← updateDisksBandwidths reset_disks previous none default_resources
    let inv := inv.addNodeGroup default_resources.vars
    let inv ← if config.server_as_host then
        addServerAsHost expandvars reset_disks config previous server_name inv
      else pure inv
    let number_of_hosts := if config.server_as_host then config.number_of_hosts - 1
      else config.number_of_hosts
    (List.range number_of_hosts.toNat).foldlM
      (addRegularHost expandvars reset_disks config previous hostnames) inv

/-! ## The defaults of the nodes -/

namespace Inventory

/-- The data of the group of the nodes, with defaults for the variables that may be
    empty. -/
structure NodeGroup (inv : Inventory) (g : Group) (hosts : Dict String HostVars) (vars : HostVars) :
    Prop where
  get_group : inv.get? HOST_GROUP_NAME = some g
  get_hosts : g.hosts = some hosts
  get_vars : g.vars = some vars
  emptiable : ∀ key ∈ EMPTIABLE_VARS, key ∈ vars.keys

def HasDefaults (inv : Inventory) : Prop := ∃ g hosts vars, NodeGroup inv g hosts vars

theorem setHostVar_hasDefaults {inv inv' : Inventory} {key hostname : String} {v : InvValue}
    (hinv : HasDefaults inv) (h : setHostVar inv HOST_GROUP_NAME key v hostname = .ok inv') :
    HasDefaults inv' := by
  obtain ⟨g, hosts, vars, hg⟩ := hinv
  by_cases hname : hostname = ""
  · -- without a host name the default is written
    unfold setHostVar at h
    simp only [bind_eq_ok, getItem_eq_ok, if_pos hname, pure_eq_ok, hg.get_group] at h
    obtain ⟨_, hsame, rfl⟩ := h
    obtain rfl := Option.some.inj hsame
    rw [hg.get_vars, Option.getD_some]
    refine ⟨_, hosts, vars.set key v, Dict.get?_set_self _ _ _, hg.get_hosts, rfl, ?_⟩
    intro key' hkey'
    exact Dict.mem_keys_set.2 (.inr (hg.emptiable key' hkey'))
  · obtain ⟨g', hosts', host_vars, hg', hhosts', -, rfl⟩ := (setHostVar_eq_ok hname).1 h
    obtain rfl : g = g' := Option.some.inj (hg.get_group.symm.trans hg')
    exact ⟨_, _, vars, Dict.get?_set_self _ _ _, rfl, hg.get_vars, hg.emptiable⟩

/-- `_add_group` changes nothing if the group has hosts. -/
theorem NodeGroup.addGroup {inv : Inventory} {g : Group} {hosts : Dict String HostVars}
    {vars : HostVars} (hg : NodeGroup inv g hosts vars) :
    NodeGroup (addGroup inv HOST_GROUP_NAME) g hosts vars := by
  refine ⟨?_, hg.get_hosts, hg.get_vars, hg.emptiable⟩
  unfold Inventory.addGroup
  rw [hg.get_group, Dict.get?_set_self, Option.getD_some, hg.get_hosts, Option.getD_some, ← hg.get_hosts]

theorem addHostToGroup_hasDefaults {inv inv' : Inventory} {hostname : String} {host_vars : HostVars}
    (hinv : HasDefaults inv) (h : addHostToGroup inv HOST_GROUP_NAME hostname host_vars = .ok inv') :
    HasDefaults inv' := by
  obtain ⟨g, hosts, vars, hg⟩ := hinv
  unfold addHostToGroup at h
  simp only [bind_eq_ok, getItem_eq_ok, hg.addGroup.get_group] at h
  obtain ⟨_, hsame, hosts', -, h⟩ := h
  obtain rfl := Option.some.inj hsame
  refine foldlM_inv (fun _ v _ hinv hv => setHostVar_hasDefaults hinv hv) ?_ h
  exact ⟨_, _, vars, Dict.get?_set_self _ _ _, rfl, hg.get_vars, hg.emptiable⟩

/-! ## The script sets the defaults -/

theorem addGroupVars_emptiable {key : String} (hkey : key ∈ EMPTIABLE_VARS)
    {es : List (String × InvValue)} {vars : Option HostVars}
    (hmem : key ∈ es.map Prod.fst ∨ ∃ vars', vars = some vars' ∧ key ∈ vars'.keys) :
    ∃ vars', es.foldl (fun vars v =>
      if !v.2.falsy || v.1 ∈ EMPTIABLE_VARS then some ((vars.getD .empty).set v.1 v.2) else vars) vars =
        some vars' ∧ key ∈ vars'.keys := by
  induction es generalizing vars with
  | nil => exact hmem.resolve_left (List.not_mem_nil)
  | cons v es ih =>
    rw [List.foldl_cons]
    refine ih ?_
    rcases hmem with hmem | ⟨vars', rfl, hold⟩
    · rcases List.mem_cons.1 hmem with rfl | hmem
      · right
        exact ⟨_, if_pos (by simp [hkey]), Dict.mem_keys_set.2 (.inl rfl)⟩
      · exact .inl hmem
    · right
      split_ifs
      · exact ⟨_, rfl, Dict.mem_keys_set.2 (.inr hold)⟩
      · exact ⟨_, rfl, hold⟩

theorem addNodeGroup_hasDefaults (inv : Inventory) {resources : HostVars}
    (hkeys : ∀ key ∈ EMPTIABLE_VARS, key ∈ resources.keys) :
    HasDefaults (inv.addNodeGroup resources) := by
  obtain ⟨g, hosts, hg, hhosts⟩ : ∃ g hosts, (addGroup inv HOST_GROUP_NAME).get? HOST_GROUP_NAME =
      some g ∧ g.hosts = some hosts := ⟨_, _, Dict.get?_set_self _ _ _, rfl⟩
  have hvars : ∀ key ∈ EMPTIABLE_VARS, ∃ vars, addGroupVars g.vars resources = some vars ∧
      key ∈ vars.keys := fun key hkey => addGroupVars_emptiable hkey (.inl (hkeys key hkey))
  obtain ⟨vars, hsome, -⟩ := hvars "disks" (by decide)
  refine ⟨{ g with vars := some vars }, hosts, vars, ?_, hhosts, rfl, ?_⟩
  · rw [addNodeGroup, Dict.get?_modify_self, hg, Option.map_some, hsome]
  · intro key hkey
    obtain ⟨vars', hsome', hmem⟩ := hvars key hkey
    obtain rfl : vars = vars' := Option.some.inj (hsome.symm.trans hsome')
    exact hmem

theorem NodeResources.vars_emptiable (r : NodeResources) :
    ∀ key ∈ EMPTIABLE_VARS, key ∈ r.vars.keys := by
  intro key hkey
  simp only [EMPTIABLE_VARS, List.mem_cons, List.not_mem_nil, or_false] at hkey
  unfold NodeResources.vars
  simp only [Dict.mem_keys_set]
  rcases hkey with rfl | rfl
  · exact .inr (.inl rfl)
  · exact .inl rfl

end Inventory

/-! ## What the script establishes -/

theorem addServer_empty (host_ip ansible_host : String) :
    ∃ inv, addServer .empty host_ip ansible_host = .ok inv ∧ inv.get? HOST_GROUP_NAME = none :=
  ⟨_, rfl, rfl⟩

section invariant
variable {expandvars : String → String} {reset_disks : Bool} {config : InventoryConfig}
  {previous inv inv' : Inventory} {I : Inventory → Prop}
  (hadd : ∀ inv hostname (r : NodeResources) containers inv', I inv →
    inv.addNodeVars hostname r.vars containers = .ok inv' → I inv')
include hadd

theorem addServerAsHost_inv {server_name : String} (hinv : I inv)
    (h : addServerAsHost expandvars reset_disks config previous server_name inv = .ok inv') : I inv' := by
  unfold addServerAsHost at h
  simp only [bind_eq_ok] at h
  obtain ⟨_, -, resources, -, h⟩ := h
  exact hadd _ _ resources _ _ hinv h

theorem addRegularHost_inv {hostnames : List String} {i : ℕ} (hinv : I inv)
    (h : addRegularHost expandvars reset_disks config previous hostnames inv i = .ok inv') : I inv' := by
  unfold addRegularHost at h
  split at h
  · cases h
  · simp only [bind_eq_ok] at h
    obtain ⟨_, -, resources, -, h⟩ := h
    exact hadd _ _ resources _ _ hinv h

/-- What the new group of the nodes has, and what adding a host keeps, the inventory has. -/
theorem loadInventoryFromConf_inv (hgroup : ∀ (inv : Inventory) (r : NodeResources),
      inv.get? HOST_GROUP_NAME = none → I (inv.addNodeGroup r.vars))
    (h : loadInventoryFromConf expandvars reset_disks config previous = .ok inv) : I inv := by
  unfold loadInventoryFromConf at h
  split at h
  case _ | _ | _ => cases h
  obtain ⟨inv₁, hserver, h⟩ := bind_eq_ok.1 h
  obtain ⟨_, -, h⟩ := bind_eq_ok.1 h
  obtain ⟨resources, -, h⟩ := bind_eq_ok.1 h
  have hnew : I (inv₁.addNodeGroup resources.vars) := by
    obtain ⟨inv₂, hserver', hnone⟩ := addServer_empty config.server_ip _
    cases hserver.symm.trans hserver'
    exact hgroup inv₁ resources hnone
  have hstep : ∀ hostnames inv₁ i inv₂, I inv₁ →
      addRegularHost expandvars reset_disks config previous hostnames inv₁ i = .ok inv₂ → I inv₂ :=
    fun _ _ _ _ => addRegularHost_inv hadd
  dsimp only at h
  split_ifs at h
  · obtain ⟨inv₂, hserver, h⟩ := bind_eq_ok.1 h
    exact foldlM_inv (hstep _) (addServerAsHost_inv hadd hnew hserver) h
  · exact foldlM_inv (hstep _) hnew h

end invariant

/-- The script leaves an inventory whose nodes have defaults. -/
theorem loadInventoryFromConf_hasDefaults {expandvars : String → String} {reset_disks : Bool}
    {config : InventoryConfig} {previous inv : Inventory}
    (h : loadInventoryFromConf expandvars reset_disks config previous = .ok inv) :
    HasDefaults inv := by
  refine loadInventoryFromConf_inv ?_ ?_ h
  · intro inv hostname r containers inv' hinv hadd
    exact addHostToGroup_hasDefaults hinv hadd
  · intro inv r _
    exact addNodeGroup_hasDefaults inv r.vars_emptiable

end ServerlessYarn
