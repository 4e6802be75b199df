/-
  ServerlessYARN model — making the inventory anew keeps the bandwidths.

  `load_inventory_from_conf.py` reads the disks of a host through the defaults
  of the old inventory and writes them back through the defaults of the new one.

  * `ConfiguredNode`, `InventoryConfig.nodes`: what a configuration says about
    its hosts, without bandwidths;
  * `addConfigured_spec`, `addNodes_spec`: the hosts are added one after another,
    as to a plain map;
  * `reload_keeps_bandwidths`: the new inventory has the disks, the resources and
    the containers of the configuration, and the bandwidths of the old inventory.
-/
import ServerlessYarn.InventoryStored

namespace ServerlessYarn

open Inventory

/-! ## What a configuration says -/

/-- A host of the configuration; its disks have no bandwidths. -/
structure ConfiguredNode where
  hostname : String
  resources : NodeResources
  containers : List String

namespace InventoryConfig

/-- The number of hosts besides the server. -/
def regularHosts (config : InventoryConfig) : ℕ :=
  (if config.server_as_host then config.number_of_hosts - 1 else config.number_of_hosts).toNat

/-- The server as a host, with the disk for the namenode. -/
def serverNode (expandvars : String → String) (config : InventoryConfig) (resources : NodeResources)
    (server_name : String) : ConfiguredNode where
  hostname := server_name
  resources := { resources with
    cpu := config.cpus_server_node
    mem := config.memory_server_node
    disks := if config.global_hdfs && config.disk_capabilities then
        resources.disks.set config.global_hdfs_disk_name
          ⟨resolveDiskPath expandvars config.global_hdfs_data_dir, none, none⟩
      else resources.disks }
  containers := createContainerList server_name config.number_of_containers_per_node 0

def regularNode (config : InventoryConfig) (resources : NodeResources) (host_name : String) :
    ConfiguredNode where
  hostname := host_name
  resources := resources
  containers := createContainerList host_name config.number_of_containers_per_node 0

/-- The hosts of the configuration, given the resources of `create_resource_dict`. -/
def nodes (expandvars : String → String) (config : InventoryConfig) (resources : NodeResources)
    (server_name : String) (hostnames : List String) : List ConfiguredNode :=
  (if config.server_as_host then [config.serverNode expandvars resources server_name] else []) ++
    (hostnames.take config.regularHosts).map (config.regularNode resources)

/-- The names of the hosts of the configuration. -/
def hostNames (config : InventoryConfig) (server_name : String) (hostnames : List String) :
    List String :=
  (if config.server_as_host then [server_name] else []) ++ hostnames.take config.regularHosts

/-- There are enough distinct host names, and the amounts are positive. -/
structure Valid (config : InventoryConfig) (server_name : String) (hostnames : List String) :
    Prop where
  split : config.hostnames.map splitComma = some (server_name :: hostnames)
  enough : config.regularHosts ≤ hostnames.length
  distinct : (config.hostNames server_name hostnames).Nodup
  named : ∀ hostname ∈ server_name :: config.hostNames server_name hostnames, hostname ≠ ""
  positive : 0 < config.cpus_per_host ∧ 0 < config.memory_per_host
  server : config.server_as_host = true → 0 < config.cpus_server_node ∧ 0 < config.memory_server_node
  energy : config.power_budgeting = true → 0 < config.energy_per_host

theorem map_hostname_nodes (expandvars : String → String) (config : InventoryConfig)
    (resources : NodeResources) (server_name : String) (hostnames : List String) :
    (config.nodes expandvars resources server_name hostnames).map (·.hostname) =
      config.hostNames server_name hostnames := by
  unfold nodes hostNames
  rw [List.map_append, List.map_map]
  have hregular : ConfiguredNode.hostname ∘ config.regularNode resources = id := rfl
  rw [hregular, List.map_id]
  split_ifs <;> rfl

end InventoryConfig

/-- The disks have not been measured. -/
def Unmeasured (disks : Dict String DiskInfo) : Prop :=
  ∀ disk info, disks.get? disk = some info → info.read_bw = none ∧ info.write_bw = none

theorem Unmeasured.set {disks : Dict String DiskInfo} (h : Unmeasured disks) (name path : String) :
    Unmeasured (disks.set name ⟨path, none, none⟩) := by
  intro disk info hinfo
  rw [Dict.get?_set] at hinfo
  split_ifs at hinfo
  · cases hinfo
    exact ⟨rfl, rfl⟩
  · exact h disk info hinfo

theorem addDiskList_unmeasured {expandvars : String → String} {label : String} {number : ℤ}
    {paths : List String} {disks disks' : Dict String DiskInfo} (hdisks : Unmeasured disks)
    (h : addDiskList expandvars label number paths disks = .ok disks') : Unmeasured disks' := by
  unfold addDiskList at h
  refine foldlM_inv (fun disks₁ i disks₂ hdisks₁ hstep => ?_) hdisks h
  split at hstep
  · cases hstep
  · dsimp only at hstep
    split_ifs at hstep
    cases hstep
    exact hdisks₁.set _ _

theorem getDisksDict_unmeasured {expandvars : String → String} {d : DiskRequest}
    {disks : Dict String DiskInfo} (h : getDisksDict expandvars d = .ok disks) : Unmeasured disks := by
  unfold getDisksDict at h
  simp only [bind_eq_ok] at h
  obtain ⟨ssd, hssd, hdd, hhdd, h⟩ := h
  have hempty : Unmeasured .empty := by
    intro disk info hinfo
    cases hinfo
  have hhdd : Unmeasured hdd := addDiskList_unmeasured (addDiskList_unmeasured hempty hssd) hhdd
  split_ifs at h
  · cases h
    exact hhdd.set _ _
  · cases h
    exact hhdd

/-- The resources of the configuration. -/
theorem createResourceDict_spec {expandvars : String → String} {config : InventoryConfig}
    {resources : NodeResources} (h : createResourceDict expandvars config = .ok resources) :
    resources.cpu = config.cpus_per_host ∧ resources.mem = config.memory_per_host ∧
      resources.energy = (if config.power_budgeting then some config.energy_per_host else none) ∧
      Unmeasured resources.disks := by
  unfold createResourceDict at h
  dsimp only at h
  by_cases hcapabilities : config.disk_capabilities = true
  · rw [if_pos hcapabilities] at h
    obtain ⟨disks, hdisks, h⟩ := bind_eq_ok.1 h
    cases h
    exact ⟨rfl, rfl, rfl, getDisksDict_unmeasured hdisks⟩
  · rw [if_neg hcapabilities] at h
    cases h
    refine ⟨rfl, rfl, rfl, ?_⟩
    intro disk info hinfo
    cases hinfo

theorem InventoryConfig.unmeasured_nodes {expandvars : String → String} {config : InventoryConfig}
    {resources : NodeResources} {server_name : String} {hostnames : List String}
    (hdisks : Unmeasured resources.disks) :
    ∀ node ∈ config.nodes expandvars resources server_name hostnames, Unmeasured node.resources.disks := by
  intro node hnode
  rcases List.mem_append.1 hnode with hnode | hnode
  · split_ifs at hnode
    · obtain rfl := List.mem_singleton.1 hnode
      unfold InventoryConfig.serverNode
      dsimp only
      split_ifs
      · exact hdisks.set _ _
      · exact hdisks
    · exact absurd hnode List.not_mem_nil
  · obtain ⟨host_name, -, rfl⟩ := List.mem_map.1 hnode
    exact hdisks

/-! ## One loop over the hosts -/

/-- What the script does for a host of the configuration. -/
def addConfigured (previous inv : Inventory) (node : ConfiguredNode) : Py Inventory := do
  let resources ← updateDisksBandwidths false previous (some node.hostname) node.resources
  inv.addNodeVars node.hostname resources.vars node.containers

section loop
variable {expandvars : String → String} {config : InventoryConfig} {previous inv : Inventory}
  {resources : NodeResources} {server_name : String} {hostnames : List String}

theorem addServerAsHost_eq (hres : createResourceDict expandvars config = .ok resources) :
    addServerAsHost expandvars false config previous server_name inv =
      addConfigured previous inv (config.serverNode expandvars resources server_name) := by
  unfold addServerAsHost
  rw [hres]
  rfl

theorem addRegularHost_eq (hres : createResourceDict expandvars config = .ok resources) {i : ℕ}
    {host_name : String} (hget : hostnames[i]? = some host_name) :
    addRegularHost expandvars false config previous hostnames inv i =
      addConfigured previous inv (config.regularNode resources host_name) := by
  unfold addRegularHost
  rw [hget]
  dsimp only
  rw [hres]
  rfl

theorem addRegularHosts_eq (hres : createResourceDict expandvars config = .ok resources) {n : ℕ}
    (hn : n ≤ hostnames.length) :
    (List.range n).foldlM (addRegularHost expandvars false config previous hostnames) inv =
      ((hostnames.take n).map (config.regularNode resources)).foldlM (addConfigured previous) inv := by
  induction n with
  | zero => rfl
  | succ n ih =>
    have hget : hostnames[n]? = some hostnames[n] := List.getElem?_eq_getElem hn
    rw [List.range_succ, List.foldlM_append, ih (Nat.le_of_succ_le hn), ← List.take_append_getElem hn,
      List.map_append, List.foldlM_append]
    refine bind_congr fun inv₁ => ?_
    rw [List.foldlM_cons, List.map_singleton, List.foldlM_cons, addRegularHost_eq hres hget]
    rfl

/-- The script is one loop over the hosts of the configuration. -/
theorem loadInventoryFromConf_eq (hvalid : config.Valid server_name hostnames) {inv₁ : Inventory}
    (hserver : addServer .empty config.server_ip server_name = .ok inv₁) :
    loadInventoryFromConf expandvars false config previous = (do
      let resources ← createResourceDict expandvars config
      let default_resources ← updateDisksBandwidths false previous none resources
      (config.nodes expandvars resources server_name hostnames).foldlM (addConfigured previous)
        (inv₁.addNodeGroup default_resources.vars)) := by
  have hname : server_name ≠ "" := hvalid.named server_name List.mem_cons_self
  unfold loadInventoryFromConf
  rw [hvalid.split]
  split
  case _ hnone => cases hnone
  case _ hnil => cases hnil
  case _ hone =>
    cases hone
    exact absurd rfl hname
  case _ first rest hcons =>
    cases hcons
    rw [hserver]
    dsimp only [bind, Except.bind]
    rcases hres : createResourceDict expandvars config with err | resources
    · rfl
    dsimp only
    rcases updateDisksBandwidths false previous none resources with err | default_resources
    · rfl
    dsimp only
    have hregular : ∀ inv₂ : Inventory, (List.range (if config.server_as_host = true then
        config.number_of_hosts - 1 else config.number_of_hosts).toNat).foldlM
          (addRegularHost expandvars false config previous hostnames) inv₂ =
        ((hostnames.take config.regularHosts).map (config.regularNode resources)).foldlM
          (addConfigured previous) inv₂ := fun inv₂ => addRegularHosts_eq hres hvalid.enough
    unfold InventoryConfig.nodes
    by_cases hhost : config.server_as_host = true
    · simp only [if_pos hhost] at hregular ⊢
      rw [List.singleton_append, List.foldlM_cons, addServerAsHost_eq hres]
      rcases addConfigured previous (inv₁.addNodeGroup default_resources.vars)
        (config.serverNode expandvars resources server_name) with err | inv₂
      · rfl
      · exact hregular inv₂
    · simp only [if_neg hhost] at hregular ⊢
      exact hregular _

end loop

/-! ## What is read back -/

/-- The host has what the configuration says, and its disks have the old bandwidths of the
    disks of this name, or none. -/
structure Reloaded (old new : PlainMap) (node : ConfiguredNode) : Prop where
  cpu : new.value node.hostname "cpu" = some (.int node.resources.cpu)
  mem : new.value node.hostname "mem" = some (.int node.resources.mem)
  energy : new.value node.hostname "energy" = node.resources.energy.map .int
  containers : new.value node.hostname "containers" = some (.containers node.containers)
  disks : ∃ previous_disks disks, PlainValue.diskMap (old.value node.hostname "disks") = .ok previous_disks ∧
    new.value node.hostname "disks" = some (.disks disks) ∧
    ∀ disk, disks disk = (node.resources.disks.get? disk).map fun info =>
      ⟨info.path, (previous_disks disk).bind (·.read_bw), (previous_disks disk).bind (·.write_bw)⟩

/-- Only the values of the host matter. -/
theorem Reloaded.congr {old new new' : PlainMap} {node : ConfiguredNode} (h : Reloaded old new node)
    (hvalue : ∀ key, new'.value node.hostname key = new.value node.hostname key) :
    Reloaded old new' node where
  cpu := (hvalue _).trans h.cpu
  mem := (hvalue _).trans h.mem
  energy := (hvalue _).trans h.energy
  containers := (hvalue _).trans h.containers
  disks := by
    obtain ⟨previous_disks, disks, hold, hnew, hdisks⟩ := h.disks
    exact ⟨previous_disks, disks, hold, (hvalue _).trans hnew, hdisks⟩

/-- The old bandwidths replace those of the configuration, which has none. -/
theorem updateDisksBandwidths_spec {previous : Inventory} {hostname : Option String}
    {previous_disks : Dict String DiskInfo} {resources : NodeResources}
    (hold : previousDisks previous hostname = .ok previous_disks) (hdisks : Unmeasured resources.disks) :
    ∃ disks, updateDisksBandwidths false previous hostname resources = .ok { resources with disks } ∧
      ∀ disk, disks.get? disk = (resources.disks.get? disk).map fun info =>
        ⟨info.path, (previous_disks.get? disk).bind (·.read_bw),
          (previous_disks.get? disk).bind (·.write_bw)⟩ := by
  unfold updateDisksBandwidths
  rw [hold]
  refine ⟨_, rfl, fun disk => ?_⟩
  rw [Dict.get?_mapVal]
  rcases hinfo : resources.disks.get? disk with _ | info
  · rfl
  obtain ⟨hread, hwrite⟩ := hdisks disk info hinfo
  rw [Option.map_some, Option.map_some]
  rcases previous_disks.get? disk with _ | old
  · rcases info with ⟨path, read_bw, write_bw⟩
    cases hread
    cases hwrite
    rfl
  · simp only [hread, hwrite, Option.or_none]
    rfl

theorem addHostToGroup_nodeDefault {inv inv' : Inventory} {hostname : String} {host_vars : HostVars}
    (hinv : HasDefaults inv) (hne : hostname ≠ "")
    (h : addHostToGroup inv HOST_GROUP_NAME hostname host_vars = .ok inv') (key : String) :
    inv'.nodeDefault key = inv.nodeDefault key := by
  obtain ⟨g, hosts, vars, hg⟩ := hinv
  unfold addHostToGroup at h
  simp only [bind_eq_ok, getItem_eq_ok, hg.addGroup.get_group] at h
  obtain ⟨_, hsame, hosts', -, h⟩ := h
  obtain rfl := Option.some.inj hsame
  refine foldlM_inv (I := fun inv₁ => inv₁.nodeDefault key = inv.nodeDefault key)
    (fun _ v _ hinv₁ hset => (setHostVar_nodeDefault hne hset key).trans hinv₁) ?_ h
  unfold nodeDefault
  rw [Dict.get?_set_self, hg.get_group]
  rfl

/-- Adding a host of the configuration. -/
theorem addConfigured_spec {previous inv : Inventory} {node : ConfiguredNode}
    (hprevious : HasDefaults previous ∧ NodesStored DisksTyped previous) (hinv : HasDefaults inv)
    (hdisks : Unmeasured node.resources.disks)
    (hallowed : (NodeUpdate.add_node node.hostname node.resources node.containers).Allowed inv) :
    ∃ inv', addConfigured previous inv node = .ok inv' ∧ HasDefaults inv' ∧
      (∀ key, inv'.nodeDefault key = inv.nodeDefault key) ∧
      inv'.plain.hosts = insert node.hostname inv.plain.hosts ∧
      Reloaded previous.plain inv'.plain node ∧
      ∀ other ≠ node.hostname, ∀ key, inv'.plain.value other key = inv.plain.value other key := by
  obtain ⟨previous_disks, hold⟩ := getDisks_ok hprevious.1 hprevious.2 node.hostname
  have hold' : previousDisks previous (some node.hostname) = .ok previous_disks := hold
  obtain ⟨disks, hupdate, hcarry⟩ := updateDisksBandwidths_spec hold' hdisks
  have hallowed' : (NodeUpdate.add_node node.hostname { node.resources with disks }
    node.containers).Allowed inv := hallowed
  have hplain := addNodeVars_plain hinv hallowed' (NodeResources.get?_vars _ node.containers)
  rcases hadd : addHostToGroup inv HOST_GROUP_NAME node.hostname
    (NodeResources.vars { node.resources with disks } |>.set "containers" (.containers node.containers))
    with err | inv'
  · rw [hadd] at hplain
    cases hplain
  rw [hadd] at hplain
  have hplain : inv'.plain = inv.plain.addNode node.hostname { node.resources with disks } node.containers :=
    Except.ok.inj hplain
  refine ⟨inv', ?_, addHostToGroup_hasDefaults hinv hadd, addHostToGroup_nodeDefault hinv hallowed.1 hadd,
    ?_, ?_, ?_⟩
  · unfold addConfigured
    rw [hupdate]
    exact hadd
  · rw [hplain]
    rfl
  · have hread : PlainValue.diskMap (previous.plain.value node.hostname "disks") =
        .ok previous_disks.get? := by
      rw [← getDisks_plain hprevious.1, hold]
      rfl
    rw [hplain]
    constructor
    · exact if_pos rfl
    · exact if_pos rfl
    · exact if_pos rfl
    · exact if_pos rfl
    · exact ⟨previous_disks.get?, disks.get?, hread, if_pos rfl, hcarry⟩
  · intro other ho key
    rw [hplain]
    exact if_neg ho

/-- Adding the hosts of the configuration, one after another. -/
theorem addNodes_spec {previous : Inventory} (hprevious : HasDefaults previous ∧ NodesStored DisksTyped previous)
    {nodes : List ConfiguredNode} {inv : Inventory} (hinv : HasDefaults inv)
    (hdistinct : (nodes.map (·.hostname)).Nodup) (hdisks : ∀ node ∈ nodes, Unmeasured node.resources.disks)
    (hallowed : ∀ node ∈ nodes,
      (NodeUpdate.add_node node.hostname node.resources node.containers).Allowed inv) :
    ∃ inv', nodes.foldlM (addConfigured previous) inv = .ok inv' ∧
      (∀ name, name ∈ inv'.plain.hosts ↔ name ∈ inv.plain.hosts ∨ name ∈ nodes.map (·.hostname)) ∧
      (∀ node ∈ nodes, Reloaded previous.plain inv'.plain node) ∧
      ∀ other ∉ nodes.map (·.hostname), ∀ key, inv'.plain.value other key = inv.plain.value other key := by
  induction nodes generalizing inv with
  | nil =>
    refine ⟨inv, rfl, fun name => ?_, fun node hnode => absurd hnode List.not_mem_nil, fun _ _ _ => rfl⟩
    simp
  | cons node nodes ih =>
    rw [List.map_cons, List.nodup_cons] at hdistinct
    obtain ⟨inv₁, hadd, hinv₁, hdefault, hhosts, hreloaded, hframe⟩ := addConfigured_spec hprevious hinv
      (hdisks node List.mem_cons_self) (hallowed node List.mem_cons_self)
    -- the defaults, on which the next hosts depend, are still the same
    have hallowed₁ : ∀ node ∈ nodes,
        (NodeUpdate.add_node node.hostname node.resources node.containers).Allowed inv₁ := by
      intro node' hnode'
      have hold := hallowed node' (List.mem_cons_of_mem _ hnode')
      unfold NodeUpdate.Allowed at hold ⊢
      rw [hdefault]
      exact hold
    obtain ⟨inv', hrest, hhosts', hreloaded', hframe'⟩ :=
      ih hinv₁ hdistinct.2 (fun node' hnode' => hdisks node' (List.mem_cons_of_mem _ hnode')) hallowed₁
    refine ⟨inv', ?_, fun name => ?_, fun node' hnode' => ?_, fun other hother key => ?_⟩
    · rw [List.foldlM_cons, hadd]
      exact hrest
    · rw [hhosts', hhosts, Finset.mem_insert, List.map_cons, List.mem_cons]
      tauto
    · rcases List.mem_cons.1 hnode' with rfl | hnode'
      · exact hreloaded.congr (hframe' node'.hostname hdistinct.1)
      · exact hreloaded' node' hnode'
    · rw [List.map_cons, List.mem_cons, not_or] at hother
      rw [hframe' other hother.2, hframe other hother.1]

/-! ## The new inventory -/

/-- A null variable is no default of the nodes. -/
theorem addGroupVars_null {key : String} (hkey : key ∉ EMPTIABLE_VARS) {resources : HostVars}
    {vars : Option HostVars} (hes : ∀ e ∈ resources.entries, e.1 = key → e.2.falsy = true)
    (hvars : vars.bind (·.get? key) = none) : (addGroupVars vars resources).bind (·.get? key) = none := by
  unfold addGroupVars
  generalize resources.entries = es at hes
  induction es generalizing vars with
  | nil => exact hvars
  | cons e es ih =>
    rw [List.foldl_cons]
    refine ih ?_ fun e' he' => hes e' (List.mem_cons_of_mem _ he')
    split_ifs with hstore
    · have hne : key ≠ e.1 := by
        rintro rfl
        rw [hes e List.mem_cons_self rfl] at hstore
        simp [hkey] at hstore
      rw [Option.bind_some, Dict.get?_set_of_ne _ _ hne]
      rcases vars with _ | vars
      · rfl
      · exact hvars
    · exact hvars

/-- The group of the nodes is made anew: it has no hosts, and no energy without a budget. -/
theorem addNodeGroup_new {inv : Inventory} (hnone : inv.get? HOST_GROUP_NAME = none)
    (resources : NodeResources) : (inv.addNodeGroup resources.vars).plain.hosts = ∅ ∧
      (resources.energy = none → (inv.addNodeGroup resources.vars).nodeDefault "energy" = none) := by
  have hget : (inv.addNodeGroup resources.vars).get? HOST_GROUP_NAME =
      some ⟨some .empty, addGroupVars none resources.vars⟩ := by
    unfold addNodeGroup addGroup
    rw [Dict.get?_modify_self, Dict.get?_set_self, hnone]
    rfl
  constructor
  · unfold Inventory.plain getNodeHostnames
    rw [hget]
    rfl
  · intro henergy
    have hfalsy : ∀ e ∈ resources.vars.entries, e.1 = "energy" → e.2.falsy = true := by
      rintro ⟨key, v⟩ he rfl
      have hv : resources.vars.get? "energy" = some v := Dict.get?_eq_some_iff.2 he
      unfold NodeResources.vars at hv
      simp only [Dict.get?_set, henergy] at hv
      cases hv
      rfl
    have hkey : "energy" ∉ EMPTIABLE_VARS := by decide
    unfold nodeDefault groupDefault
    rw [hget, Option.bind_some]
    dsimp only
    exact addGroupVars_null hkey hfalsy rfl

/-- The hosts of a configuration can be added. -/
theorem InventoryConfig.Valid.allowed {expandvars : String → String} {config : InventoryConfig}
    {resources : NodeResources} {server_name : String} {hostnames : List String} {inv : Inventory}
    (hvalid : config.Valid server_name hostnames)
    (hres : createResourceDict expandvars config = .ok resources)
    (henergy : resources.energy = none → inv.nodeDefault "energy" = none) :
    ∀ node ∈ config.nodes expandvars resources server_name hostnames,
      (NodeUpdate.add_node node.hostname node.resources node.containers).Allowed inv := by
  intro node hnode
  obtain ⟨hcpu, hmem, hbudget, -⟩ := createResourceDict_spec hres
  have hname : node.hostname ≠ "" := by
    refine hvalid.named _ (List.mem_cons_of_mem _ ?_)
    rw [← InventoryConfig.map_hostname_nodes expandvars config resources]
    exact List.mem_map_of_mem hnode
  have hamounts : 0 < node.resources.cpu ∧ 0 < node.resources.mem ∧
      node.resources.energy = resources.energy := by
    rcases List.mem_append.1 hnode with hnode | hnode
    · split_ifs at hnode with hhost
      · obtain rfl := List.mem_singleton.1 hnode
        exact ⟨(hvalid.server hhost).1, (hvalid.server hhost).2, rfl⟩
      · exact absurd hnode List.not_mem_nil
    · obtain ⟨host_name, -, rfl⟩ := List.mem_map.1 hnode
      refine ⟨?_, ?_, rfl⟩
      · exact hcpu.symm ▸ hvalid.positive.1
      · exact hmem.symm ▸ hvalid.positive.2
  refine ⟨hname, hamounts.1, hamounts.2.1, ?_⟩
  rw [hamounts.2.2]
  by_cases hpower : config.power_budgeting = true
  · rw [hbudget, if_pos hpower]
    exact hvalid.energy hpower
  · have hnone : resources.energy = none := by rw [hbudget, if_neg hpower]
    rw [hnone]
    dsimp only
    rw [henergy hnone]
    rfl

/-- **Making the inventory anew keeps the bandwidths**: whatever was done to the inventory of
    an earlier configuration, the hosts of a new one get its disks, resources and containers,
    and every disk the bandwidths that the host had under its name.  A configuration whose
    disks are not valid raises, and nothing is written. -/
theorem reload_keeps_bandwidths {expandvars₀ expandvars : String → String} {reset_disks : Bool}
    {config₀ config : InventoryConfig} {previous₀ inv₀ previous : Inventory} {ops : List NodeUpdate}
    {server_name : String} {hostnames : List String}
    (hload : loadInventoryFromConf expandvars₀ reset_disks config₀ previous₀ = .ok inv₀)
    (hrun : Run NodeUpdate.Step inv₀ ops previous) (hvalid : config.Valid server_name hostnames) :
    (∀ err, createResourceDict expandvars config = .error err →
      loadInventoryFromConf expandvars false config previous = .error err) ∧
    ∀ resources, createResourceDict expandvars config = .ok resources →
      ∃ inv, loadInventoryFromConf expandvars false config previous = .ok inv ∧
        (∀ name, name ∈ inv.getNodeHostnames ↔ name ∈ config.hostNames server_name hostnames) ∧
        ∀ node ∈ config.nodes expandvars resources server_name hostnames,
          Reloaded previous.plain inv.plain node := by
  have hprevious := readable_of_run hload hrun
  obtain ⟨inv₁, hserver, hnone⟩ := addServer_empty config.server_ip server_name
  rw [loadInventoryFromConf_eq hvalid hserver]
  constructor
  · intro err hres
    rw [hres]
    rfl
  intro resources hres
  obtain ⟨-, -, -, hdisks⟩ := createResourceDict_spec hres
  obtain ⟨previous_disks, hold⟩ := previousDisks_ok hprevious.1 hprevious.2 none
  obtain ⟨disks, hupdate, -⟩ := updateDisksBandwidths_spec hold hdisks
  rw [hres]
  simp only [bind, Except.bind, hupdate]
  -- the new group has no hosts yet
  obtain ⟨hempty, henergy⟩ := addNodeGroup_new hnone { resources with disks }
  have hinv : HasDefaults (inv₁.addNodeGroup (NodeResources.vars { resources with disks })) :=
    addNodeGroup_hasDefaults inv₁ (NodeResources.vars_emptiable _)
  have hdistinct : ((config.nodes expandvars resources server_name hostnames).map
      (·.hostname)).Nodup := by
    rw [InventoryConfig.map_hostname_nodes]
    exact hvalid.distinct
  obtain ⟨inv, hadd, hhosts, hreloaded, -⟩ := addNodes_spec hprevious hinv hdistinct
    (InventoryConfig.unmeasured_nodes hdisks) (hvalid.allowed hres henergy)
  refine ⟨inv, hadd, fun name => ?_, hreloaded⟩
  rw [← mem_plain_hosts, hhosts, hempty, InventoryConfig.map_hostname_nodes]
  simp

/-- A server and one host with an SSD. -/
def InventoryConfig.oneSsd (path : String) : InventoryConfig :=
  { InventoryConfig.small with
    disk_capabilities := true
    ssd_disks_per_host := 1
    ssd_disks_path_list := path }

theorem InventoryConfig.oneSsd_valid (path : String) :
    (InventoryConfig.oneSsd path).Valid "server" ["host0"] where
  split := rfl
  enough := le_rfl
  distinct := List.nodup_singleton _
  named := by
    change ∀ hostname ∈ ["server", "host0"], hostname ≠ ""
    decide
  positive := by
    change (0 : ℤ) < 8 ∧ (0 : ℤ) < 4096
    decide
  server h := by cases h
  energy h := by cases h

/-- The SSD of the host is measured, and the inventory is made anew. -/
theorem reload_keeps_bandwidths_one_ssd : ∃ inv₀ previous resources inv,
    loadInventoryFromConf id true (.oneSsd "/data/ssd") .empty = .ok inv₀ ∧
    (NodeUpdate.update_disk "host0" "ssd_0" 500 400).run inv₀ = .ok previous ∧
    createResourceDict id (.oneSsd "/data/ssd") = .ok resources ∧
    loadInventoryFromConf id false (.oneSsd "/data/ssd") previous = .ok inv ∧
    ∀ node ∈ (InventoryConfig.oneSsd "/data/ssd").nodes id resources "server" ["host0"],
      Reloaded previous.plain inv.plain node := by
  obtain ⟨inv₀, hload⟩ : ∃ inv₀, loadInventoryFromConf id true (.oneSsd "/data/ssd") .empty = .ok inv₀ :=
    ⟨_, rfl⟩
  obtain ⟨previous, hmeasure⟩ : ∃ previous,
      (NodeUpdate.update_disk "host0" "ssd_0" 500 400).run inv₀ = .ok previous := by
    cases hload
    exact ⟨_, rfl⟩
  obtain ⟨resources, hres⟩ : ∃ resources, createResourceDict id (.oneSsd "/data/ssd") = .ok resources :=
    ⟨_, rfl⟩
  obtain ⟨inv, hreload, -, hreloaded⟩ := (reload_keeps_bandwidths hload (.single hmeasure)
    (InventoryConfig.oneSsd_valid "/data/ssd")).2 resources hres
  exact ⟨inv₀, previous, resources, inv, hload, hmeasure, hres, hreload, hreloaded⟩

/-- Without a path for the disk of the hosts nothing is written. -/
theorem reload_invalid_disk_raises : ¬ ∀ (expandvars₀ expandvars : String → String) (reset_disks : Bool)
    (config₀ config : InventoryConfig) (previous₀ inv₀ previous : Inventory) (ops : List NodeUpdate)
    (server_name : String) (hostnames : List String),
    loadInventoryFromConf expandvars₀ reset_disks config₀ previous₀ = .ok inv₀ →
    Run NodeUpdate.Step inv₀ ops previous → config.Valid server_name hostnames →
      ∃ inv, loadInventoryFromConf expandvars false config previous = .ok inv := by
  intro hall
  obtain ⟨inv₀, hload⟩ : ∃ inv₀, loadInventoryFromConf id true .small .empty = .ok inv₀ := ⟨_, rfl⟩
  obtain ⟨inv, h⟩ := hall id id true .small (.oneSsd "") .empty inv₀ inv₀ [] "server" ["host0"] hload .nil
    (InventoryConfig.oneSsd_valid "")
  cases hload
  cases h

end ServerlessYarn
