/-
  ServerlessYARN model — the Ansible inventory
  (`serverlessyarn_utils/manage_inventory.py`: `AnsibleYamlInventory`).

  The inventory is a YAML document: groups with hosts and default variables,
  and variables per host.  A host variable that equals the default of its group
  is not stored, and lookups fall back to the default.

  * `containersOf_setHostVar_self`, `containersOf_setHostVar_other`,
    `containersOf_setHostVar_key`: what writing a variable of one host does to
    the container lists.
-/
import ServerlessYarn.Resources

namespace ServerlessYarn

/-- The description of a disk in the inventory. -/
structure DiskInfo where
  path : String
  read_bw : Option ℤ
  write_bw : Option ℤ
deriving DecidableEq

/-- The value of a variable. -/
inductive InvValue where
  | null
  | int (n : ℤ)
  | str (s : String)
  | containers (l : List String)
  | disks (d : Dict String DiskInfo)

namespace InvValue

/-- `not value`. -/
def falsy : InvValue → Bool
  | null => true
  | int n => n == 0
  | str s => s == ""
  | containers l => l.isEmpty
  | disks d => d.entries.isEmpty

/-- `value == value'`; the order of the keys of a dictionary does not matter. -/
def eq : InvValue → InvValue → Bool
  | null, null => true
  | int n, int n' => n == n'
  | str s, str s' => s == s'
  | containers l, containers l' => l == l'
  | disks d, disks d' => d.keys.length == d'.keys.length && d.keys.all fun k => d.get? k == d'.get? k
  | _, _ => false

/-- The value as a container list, `None` as the empty one. -/
def containerList : Option InvValue → Py (List String)
  | none | some null => .ok []
  | some (containers l) => .ok l
  | some _ => .error .typeError

/-- The value as a dictionary of disks, `None` as the empty one. -/
def diskDict : Option InvValue → Py (Dict String DiskInfo)
  | none | some null => .ok .empty
  | some (disks d) => .ok d
  | some _ => .error .typeError

end InvValue

/-- Variables of a host or of a group. -/
abbrev HostVars := Dict String InvValue

/-- A group of the inventory. -/
structure Group where
  hosts : Option (Dict String HostVars)
  vars : Option HostVars

/-- `inventory.data`. -/
abbrev Inventory := Dict String Group

def SERVER_GROUP_NAME := "platform_management"
def SERVER_INVENTORY_NAME := "platform_server"
def HOST_GROUP_NAME := "nodes"
def EMPTIABLE_VARS := ["disks", "containers"]
def HOST_CONTAINER_SEPARATOR := "-"

namespace Inventory

/-- `inventory[group_name]["hosts"]`. -/
def groupHosts (g : Group) : Py (Dict String HostVars) :=
  match g.hosts with
  | some hosts => .ok hosts
  | none => .error (.keyError "hosts")

/-- `_add_group`. -/
def addGroup (inv : Inventory) (group_name : String) : Inventory :=
  let g := (inv.get? group_name).getD ⟨some .empty, none⟩
  inv.set group_name { g with hosts := some (g.hosts.getD .empty) }

/-- `inventory[group_name]["vars"].get(key, None)`. -/
def groupVar (g : Group) (key : String) : Py (Option InvValue) :=
  match g.vars with
  | some vars => .ok (vars.get? key)
  | none => .error (.keyError "vars")

/-- The variable of a host shadows the default of its group. -/
def shadow (own : Option InvValue) (default : Py (Option InvValue)) : Py (Option InvValue) :=
  match own with
  | none | some .null => default
  | some v => .ok (some v)

/-- `_get_host_var` on the data of the group. -/
def hostVar (g : Group) (key hostname : String) : Py (Option InvValue) :=
  if hostname = "" then groupVar g key
  else do
    let hosts ← groupHosts g
    shadow ((hosts.get? hostname).bind (·.get? key)) (groupVar g key)

/-- `_get_host_var`. -/
def getHostVar (inv : Inventory) (group_name key hostname : String) : Py (Option InvValue) := do
  hostVar (← getItem inv group_name) key hostname

/-- The default of a variable in its group. -/
def groupDefault (g : Group) (key : String) : Option InvValue := g.vars.bind (·.get? key)

/-- The variables of a host after `_set_host_var`: an empty value is dropped
    unless the variable may be empty and the group has a default for it, and so
    is one that equals the default. -/
def storeVar (g : Group) (key : String) (value : InvValue) (vars : HostVars) : HostVars :=
  let vars := vars.erase key
  if value.falsy && (!(key ∈ EMPTIABLE_VARS) || (groupDefault g key).isNone) then vars
  else if (groupDefault g key).all fun default => !value.eq default then vars.set key value
  else vars

/-- `_set_host_var`. -/
def setHostVar (inv : Inventory) (group_name key : String) (value : InvValue) (hostname : String) :
    Py Inventory := do
  let g ← getItem inv group_name
  if hostname = "" then
    return inv.set group_name { g with vars := some ((g.vars.getD .empty).set key value) }
  else
    let hosts ← groupHosts g
    let vars ← getItem hosts hostname
    return inv.set group_name { g with hosts := some (hosts.set hostname (storeVar g key value vars)) }

/-- `_add_host_to_group`. -/
def addHostToGroup (inv : Inventory) (group_name hostname : String) (host_vars : HostVars) :
    Py Inventory := do
  let inv := addGroup inv group_name
  let g ← getItem inv group_name
  let hosts ← groupHosts g
  let hosts := if hostname ∈ hosts.keys then hosts else hosts.set hostname .empty
  let inv := inv.set group_name { g with hosts := some hosts }
  host_vars.entries.foldlM (fun inv v => setHostVar inv group_name v.1 v.2 hostname) inv

/-- `_remove_host`: the key is popped from the group, not from its hosts. -/
def removeHost (inv : Inventory) (group_name hostname : String) : Inventory :=
  inv.modify group_name fun g =>
    if hostname = "hosts" then { g with hosts := none }
    else if hostname = "vars" then { g with vars := none }
    else g

/-! ## The methods used by the services -/

/-- `get_node_resource`. -/
def getNodeResource (inv : Inventory) (resource hostname : String) : Py (Option InvValue) :=
  match getHostVar inv HOST_GROUP_NAME resource hostname with
  | .error (.keyError _) => .error (.exception (String.join ["Host ", hostname,
      " did not match with any of the existing hosts in inventory"]))
  | r => r

def getContainers (inv : Inventory) (hostname : String) : Py (List String) := do
  InvValue.containerList (← getNodeResource inv "containers" hostname)

def getDisks (inv : Inventory) (hostname : String) : Py (Dict String DiskInfo) := do
  InvValue.diskDict (← getNodeResource inv "disks" hostname)

/-- The variables `cpu`, `mem`, `disks` and `energy` of a new host. -/
structure NodeResources where
  cpu : ℤ
  mem : ℤ
  disks : Dict String DiskInfo
  energy : Option ℤ

def addNode (inv : Inventory) (hostname : String) (resources : NodeResources)
    (containers : List String) : Py Inventory :=
  let vars : HostVars := (((Dict.empty.set "cpu" (.int resources.cpu)).set "mem"
    (.int resources.mem)).set "disks" (.disks resources.disks)).set "energy"
    (resources.energy.elim .null .int)
  addHostToGroup inv HOST_GROUP_NAME hostname (vars.set "containers" (.containers containers))

/-- `add_containers`; `add_container` adds one. -/
def addContainers (inv : Inventory) (hostname : String) (containers : List String) :
    Py Inventory := do
  let current_containers ← getContainers inv hostname
  setHostVar inv HOST_GROUP_NAME "containers" (.containers (current_containers ++ containers))
    hostname

def addContainer (inv : Inventory) (hostname container : String) : Py Inventory :=
  addContainers inv hostname [container]

def addDisks (inv : Inventory) (hostname : String) (disks : Dict String DiskInfo) :
    Py Inventory := do
  let current_disks ← getDisks inv hostname
  setHostVar inv HOST_GROUP_NAME "disks" (.disks (current_disks.update disks)) hostname

def removeNode (inv : Inventory) (hostname : String) : Inventory :=
  removeHost inv HOST_GROUP_NAME hostname

/-- `remove_container`; a missing list is written back as `None`. -/
def removeContainer (inv : Inventory) (hostname container : String) : Py Inventory := do
  let value ← getNodeResource inv "containers" hostname
  let current_containers ← InvValue.containerList value
  setHostVar inv HOST_GROUP_NAME "containers" (match value with
    | none | some .null => .null
    | some _ => .containers (current_containers.erase container)) hostname

def updateDisk (inv : Inventory) (hostname disk : String) (read_bw write_bw : ℤ) :
    Py Inventory := do
  let current_disks ← getDisks inv hostname
  let info ← getItem current_disks disk
  setHostVar inv HOST_GROUP_NAME "disks" (.disks (current_disks.set disk
    { info with read_bw := some read_bw, write_bw := some write_bw })) hostname

/-! ## What a write does to the container lists -/

/-- The container list of a host, empty if it cannot be read. -/
def containersOf (inv : Inventory) (hostname : String) : List String :=
  (getContainers inv hostname).toOption.getD []

/-- The container list that a variable stands for. -/
def listOf (v : Py (Option InvValue)) : List String :=
  (v >>= InvValue.containerList).toOption.getD []

theorem containersOf_eq (inv : Inventory) (hostname : String) :
    containersOf inv hostname =
      ((inv.get? HOST_GROUP_NAME).map fun g => listOf (hostVar g "containers" hostname)).getD [] := by
  unfold containersOf getContainers getNodeResource getHostVar getItem listOf
  rcases inv.get? HOST_GROUP_NAME with _ | g
  · rfl
  · simp only [Option.map_some, Option.getD_some]
    change (Except.toOption ((match hostVar g "containers" hostname with
      | .error (.keyError _) => _
      | r => r) >>= _)).getD [] = _
    rcases hostVar g "containers" hostname with err | v
    · cases err <;> rfl
    · rfl

theorem hostVar_eq {g : Group} {hosts : Dict String HostVars} {key hostname : String}
    (hne : hostname ≠ "") (hhosts : g.hosts = some hosts) :
    hostVar g key hostname =
      shadow ((hosts.get? hostname).bind (·.get? key)) (groupVar g key) := by
  unfold hostVar groupHosts
  rw [if_neg hne, hhosts]
  rfl

@[simp] theorem groupHosts_eq_ok {g : Group} {hosts : Dict String HostVars} :
    groupHosts g = .ok hosts ↔ g.hosts = some hosts := by
  unfold groupHosts
  rcases g.hosts with _ | hosts' <;> simp

/-- What `_set_host_var` does for a named host. -/
theorem setHostVar_eq_ok {inv inv' : Inventory} {group_name key hostname : String} {v : InvValue}
    (hne : hostname ≠ "") : setHostVar inv group_name key v hostname = .ok inv' ↔
      ∃ g hosts vars, inv.get? group_name = some g ∧ g.hosts = some hosts ∧
        hosts.get? hostname = some vars ∧ inv' = inv.set group_name
          { g with hosts := some (hosts.set hostname (storeVar g key v vars)) } := by
  unfold setHostVar
  simp only [bind_eq_ok, getItem_eq_ok, groupHosts_eq_ok, if_neg hne, pure_eq_ok]
  constructor
  · rintro ⟨g, hg, hosts, hhosts, vars, hvars, rfl⟩
    exact ⟨g, hosts, vars, hg, hhosts, hvars, rfl⟩
  · rintro ⟨g, hosts, vars, hg, hhosts, hvars, rfl⟩
    exact ⟨g, hg, hosts, hhosts, vars, hvars, rfl⟩

theorem storeVar_get?_of_ne (g : Group) {key key' : String} (v : InvValue) (vars : HostVars)
    (hk : key' ≠ key) : (storeVar g key v vars).get? key' = vars.get? key' := by
  unfold storeVar
  simp only
  split_ifs
  · rw [Dict.get?_erase, if_neg hk]
  · rw [Dict.get?_set_of_ne _ _ hk, Dict.get?_erase, if_neg hk]
  · rw [Dict.get?_erase, if_neg hk]

/-- Writing a variable of a host leaves the other hosts and the other variables alone. -/
theorem getHostVar_setHostVar_of_ne {inv inv' : Inventory} {key key' hostname other : String}
    {v : InvValue} (hne : hostname ≠ "") (hk : other ≠ hostname ∨ key' ≠ key)
    (h : setHostVar inv HOST_GROUP_NAME key v hostname = .ok inv') :
    getHostVar inv' HOST_GROUP_NAME key' other = getHostVar inv HOST_GROUP_NAME key' other := by
  obtain ⟨g, hosts, vars, hg, hhosts, hvars, rfl⟩ := (setHostVar_eq_ok hne).1 h
  unfold getHostVar getItem
  rw [Dict.get?_set_self, hg]
  change hostVar _ key' other = hostVar g key' other
  by_cases hoe : other = ""
  · simp only [hostVar, if_pos hoe]
    rfl
  rw [hostVar_eq hoe hhosts, hostVar_eq hoe rfl]
  by_cases ho : other = hostname
  · subst ho
    rw [Dict.get?_set_self, hvars, Option.bind_some, Option.bind_some,
      storeVar_get?_of_ne g v vars (hk.resolve_left fun hne => hne rfl)]
    rfl
  · rw [Dict.get?_set_of_ne _ _ ho]
    rfl

theorem getNodeResource_setHostVar_of_ne {inv inv' : Inventory} {key key' hostname other : String}
    {v : InvValue} (hne : hostname ≠ "") (hk : other ≠ hostname ∨ key' ≠ key)
    (h : setHostVar inv HOST_GROUP_NAME key v hostname = .ok inv') :
    getNodeResource inv' key' other = getNodeResource inv key' other := by
  unfold getNodeResource
  rw [getHostVar_setHostVar_of_ne hne hk h]

/-- Writing a variable of a host leaves the containers of the other hosts alone. -/
theorem containersOf_setHostVar_other {inv inv' : Inventory} {key hostname other : String}
    {v : InvValue} (hne : hostname ≠ "") (ho : other ≠ hostname)
    (h : setHostVar inv HOST_GROUP_NAME key v hostname = .ok inv') :
    containersOf inv' other = containersOf inv other := by
  unfold containersOf getContainers
  rw [getNodeResource_setHostVar_of_ne hne (.inl ho) h]

/-- Writing another variable leaves the container lists alone. -/
theorem containersOf_setHostVar_key {inv inv' : Inventory} {key hostname : String} {v : InvValue}
    (hne : hostname ≠ "") (hk : key ≠ "containers")
    (h : setHostVar inv HOST_GROUP_NAME key v hostname = .ok inv') (other : String) :
    containersOf inv' other = containersOf inv other := by
  unfold containersOf getContainers
  rw [getNodeResource_setHostVar_of_ne hne (.inr (Ne.symm hk)) h]

/-- What is read back after `_set_host_var` of a variable that may be empty: an empty value
    can read as none, any other one as itself or as a default that equals it. -/
theorem shadow_storeVar {g g' : Group} {key : String} {v : InvValue} (vars : HostVars)
    (hvars : g'.vars = g.vars) (hkey : key ∈ EMPTIABLE_VARS) (hv : v ≠ .null) :
    (v.falsy = true ∧
      (shadow ((storeVar g key v vars).get? key) (groupVar g' key) = .error (.keyError "vars") ∨
        shadow ((storeVar g key v vars).get? key) (groupVar g' key) = .ok none)) ∨
    ∃ w, shadow ((storeVar g key v vars).get? key) (groupVar g' key) = .ok (some w) ∧
      (w = v ∨ v.eq w = true) := by
  have hdefault : groupVar g' key = groupVar g key := by rw [groupVar, groupVar, hvars]
  rw [hdefault]
  unfold storeVar
  simp only
  split_ifs with hdrop hstore
  · -- dropped: the value is empty and the group has no default
    simp only [Bool.and_eq_true, Bool.or_eq_true, Option.isNone_iff_eq_none] at hdrop
    have hnone : groupDefault g key = none := hdrop.2.resolve_left (by simpa using hkey)
    refine .inl ⟨hdrop.1, ?_⟩
    rw [Dict.get?_erase, if_pos rfl, shadow, groupVar]
    rcases hgv : g.vars with _ | gv
    · exact .inl rfl
    · rw [groupDefault, hgv, Option.bind_some] at hnone
      exact .inr (congrArg Except.ok hnone)
  · rw [Dict.get?_set_self]
    refine .inr ⟨v, ?_, .inl rfl⟩
    cases v with
    | null => exact absurd rfl hv
    | _ => rfl
  · -- not stored: the default of the group equals it
    rw [Dict.get?_erase, if_pos rfl, shadow, groupVar]
    rcases hgv : g.vars with _ | gv
    · simp [groupDefault, hgv] at hstore
    · rcases hget : gv.get? key with _ | default
      · simp [groupDefault, hgv, hget] at hstore
      · have heq : v.eq default = true := by simpa [groupDefault, hgv, hget] using hstore
        exact .inr ⟨default, congrArg Except.ok hget, .inr heq⟩

/-- The list read back after `_set_host_var`. -/
theorem listOf_storeVar {g g' : Group} {l : List String} {vars : HostVars} (hvars : g'.vars = g.vars) :
    listOf (shadow ((storeVar g "containers" (.containers l) vars).get? "containers")
      (groupVar g' "containers")) = l := by
  have hkey : "containers" ∈ EMPTIABLE_VARS := by decide
  rcases shadow_storeVar vars hvars hkey (v := .containers l) (by simp) with ⟨hl, hr | hr⟩ | ⟨w, hr, hw⟩
  · rw [hr, List.isEmpty_iff.1 hl]
    rfl
  · rw [hr, List.isEmpty_iff.1 hl]
    rfl
  · rw [hr]
    rcases hw with rfl | hw
    · rfl
    · cases w with
      | containers l' =>
        have hll' : l = l' := by simpa [InvValue.eq] using hw
        rw [hll']
        rfl
      | _ => simp [InvValue.eq] at hw

/-- Writing the container list of a host. -/
theorem containersOf_setHostVar_self {inv inv' : Inventory} {hostname : String} {l : List String}
    (hne : hostname ≠ "")
    (h : setHostVar inv HOST_GROUP_NAME "containers" (.containers l) hostname = .ok inv') :
    containersOf inv' hostname = l := by
  obtain ⟨g, hosts, vars, hg, hhosts, hvars, rfl⟩ := (setHostVar_eq_ok hne).1 h
  rw [containersOf_eq, Dict.get?_set_self]
  simp only [Option.map_some, Option.getD_some]
  rw [hostVar_eq hne rfl, Dict.get?_set_self, Option.bind_some]
  exact listOf_storeVar rfl

/-- Writing `None` as the container list of a host that has none. -/
theorem containersOf_setHostVar_null {inv inv' : Inventory} {hostname : String}
    {value : Option InvValue} (hne : hostname ≠ "")
    (hvalue : getNodeResource inv "containers" hostname = .ok value)
    (hnull : value = none ∨ value = some .null)
    (h : setHostVar inv HOST_GROUP_NAME "containers" .null hostname = .ok inv') :
    containersOf inv' hostname = containersOf inv hostname := by
  have hbefore : containersOf inv hostname = [] := by
    unfold containersOf getContainers
    rw [hvalue]
    rcases hnull with rfl | rfl <;> rfl
  obtain ⟨g, hosts, vars, hg, hhosts, hvars, rfl⟩ := (setHostVar_eq_ok hne).1 h
  have hown : (storeVar g "containers" .null vars).get? "containers" = none ∨
      (storeVar g "containers" .null vars).get? "containers" = some .null := by
    unfold storeVar
    simp only
    split_ifs <;> simp
  -- the variable of the host is hidden before and after, so both read the default
  have hgroup : listOf (groupVar g "containers") = [] := by
    have hread : getHostVar inv HOST_GROUP_NAME "containers" hostname = .ok value := by
      unfold getNodeResource at hvalue
      rcases hr : getHostVar inv HOST_GROUP_NAME "containers" hostname with err | v
      · cases err <;> simp [hr] at hvalue
      · simpa [hr] using hvalue
    have hshadow : shadow (vars.get? "containers") (groupVar g "containers") = .ok value := by
      rw [← hread]
      unfold getHostVar getItem
      rw [hg]
      change _ = hostVar g "containers" hostname
      rw [hostVar_eq hne hhosts, hvars]
      rfl
    have hdefault : groupVar g "containers" = .ok value := by
      rcases hv : vars.get? "containers" with _ | v
      · simpa [shadow, hv] using hshadow
      · cases v with
        | null => simpa [shadow, hv] using hshadow
        | _ => rcases hnull with rfl | rfl <;> simp [shadow, hv] at hshadow
    rw [hdefault]
    rcases hnull with rfl | rfl <;> rfl
  rw [hbefore, containersOf_eq, Dict.get?_set_self]
  simp only [Option.map_some, Option.getD_some]
  rw [hostVar_eq hne rfl, Dict.get?_set_self, Option.bind_some]
  rcases hown with hown | hown <;> rw [hown] <;> exact hgroup

/-! ## The hosts of the inventory -/

/-- `get_node_hostnames`. -/
def getNodeHostnames (inv : Inventory) : List String :=
  ((inv.get? HOST_GROUP_NAME).bind (·.hosts)).elim [] Dict.keys

theorem mem_getNodeHostnames {inv : Inventory} {g : Group} {hosts : Dict String HostVars}
    {hostname : String} (hg : inv.get? HOST_GROUP_NAME = some g) (hhosts : g.hosts = some hosts) :
    hostname ∈ inv.getNodeHostnames ↔ hostname ∈ hosts.keys := by
  unfold getNodeHostnames
  rw [hg, Option.bind_some, hhosts]
  rfl

/-- Writing a variable needs a host of the inventory and adds none. -/
theorem setHostVar_hostnames {inv inv' : Inventory} {key hostname : String} {v : InvValue}
    (hne : hostname ≠ "") (h : setHostVar inv HOST_GROUP_NAME key v hostname = .ok inv') :
    hostname ∈ inv.getNodeHostnames ∧
      ∀ other, other ∈ inv'.getNodeHostnames ↔ other ∈ inv.getNodeHostnames := by
  obtain ⟨g, hosts, vars, hg, hhosts, hvars, rfl⟩ := (setHostVar_eq_ok hne).1 h
  have hmem : hostname ∈ hosts.keys := Dict.mem_keys_of_get? hvars
  refine ⟨(mem_getNodeHostnames hg hhosts).2 hmem, fun other => ?_⟩
  rw [mem_getNodeHostnames (Dict.get?_set_self _ _ _) rfl, mem_getNodeHostnames hg hhosts,
    Dict.mem_keys_set]
  constructor
  · rintro (rfl | hother)
    · exact hmem
    · exact hother
  · exact Or.inr

/-- A variable of every host of the inventory can be written. -/
theorem exists_setHostVar {inv : Inventory} {hostname : String} (hne : hostname ≠ "")
    (hmem : hostname ∈ inv.getNodeHostnames) (key : String) (v : InvValue) :
    ∃ inv', setHostVar inv HOST_GROUP_NAME key v hostname = .ok inv' := by
  unfold getNodeHostnames at hmem
  rcases hg : inv.get? HOST_GROUP_NAME with _ | g
  · simp [hg] at hmem
  rcases hhosts : g.hosts with _ | hosts
  · simp [hg, hhosts] at hmem
  rw [hg, Option.bind_some, hhosts] at hmem
  obtain ⟨vars, hvars⟩ := Dict.mem_keys_iff.1 hmem
  exact ⟨_, (setHostVar_eq_ok hne).2 ⟨g, hosts, vars, hg, hhosts, hvars, rfl⟩⟩

/-- Apart from one host, no host is new and every container list is kept. -/
def KeepsOthers (hostname : String) (inv inv' : Inventory) : Prop :=
  ∀ other ≠ hostname, other ∈ inv'.getNodeHostnames →
    other ∈ inv.getNodeHostnames ∧ containersOf inv' other = containersOf inv other

theorem KeepsOthers.trans {hostname : String} {inv inv₁ inv₂ : Inventory}
    (h : KeepsOthers hostname inv inv₁) (h' : KeepsOthers hostname inv₁ inv₂) :
    KeepsOthers hostname inv inv₂ := by
  intro other ho hmem
  obtain ⟨hmem₁, heq₁⟩ := h' other ho hmem
  obtain ⟨hmem₀, heq₀⟩ := h other ho hmem₁
  exact ⟨hmem₀, heq₁.trans heq₀⟩

theorem setHostVar_keepsOthers {inv inv' : Inventory} {key hostname : String} {v : InvValue}
    (hne : hostname ≠ "") (h : setHostVar inv HOST_GROUP_NAME key v hostname = .ok inv') :
    KeepsOthers hostname inv inv' := fun other ho hmem =>
  ⟨((setHostVar_hostnames hne h).2 other).1 hmem, containersOf_setHostVar_other hne ho h⟩

theorem foldlM_setHostVar_keepsOthers {hostname : String} (hne : hostname ≠ "") :
    ∀ (es : List (String × InvValue)) {inv inv' : Inventory},
      es.foldlM (fun inv v => setHostVar inv HOST_GROUP_NAME v.1 v.2 hostname) inv = .ok inv' →
        KeepsOthers hostname inv inv'
  | [], inv, inv', h => by
    cases h
    exact fun _ _ hmem => ⟨hmem, rfl⟩
  | e :: es, inv, inv', h => by
    rw [List.foldlM_cons, bind_eq_ok] at h
    obtain ⟨inv₁, h₁, h⟩ := h
    exact (setHostVar_keepsOthers hne h₁).trans (foldlM_setHostVar_keepsOthers hne es h)

/-- Making the group and the entry of one host. -/
theorem addGroup_keepsOthers {inv : Inventory} {g : Group} {hosts : Dict String HostVars}
    (hostname : String) (hosts' : Dict String HostVars)
    (hg : (addGroup inv HOST_GROUP_NAME).get? HOST_GROUP_NAME = some g)
    (hhosts : g.hosts = some hosts) (hkeep : ∀ other ≠ hostname, hosts'.get? other = hosts.get? other) :
    KeepsOthers hostname inv ((addGroup inv HOST_GROUP_NAME).set HOST_GROUP_NAME
      { g with hosts := some hosts' }) := by
  intro other ho hmem
  have hother : other ∈ hosts.keys := by
    rw [mem_getNodeHostnames (Dict.get?_set_self _ _ _) rfl, Dict.mem_keys_iff, hkeep other ho] at hmem
    exact Dict.mem_keys_iff.2 hmem
  -- the group had these hosts already, since the added ones are empty
  have hold : ∃ g₀, inv.get? HOST_GROUP_NAME = some g₀ ∧ g₀.hosts = some hosts ∧
      g₀.vars = g.vars := by
    unfold addGroup at hg
    rw [Dict.get?_set_self] at hg
    rcases hinv : inv.get? HOST_GROUP_NAME with _ | g₀
    · rw [hinv] at hg
      cases hg
      cases hhosts
      exact absurd hother (by simp)
    · rw [hinv] at hg
      cases hg
      rcases h₀ : g₀.hosts with _ | hosts₀
      · simp only [Option.getD_some, h₀, Option.getD_none, Option.some.injEq] at hhosts
        subst hhosts
        exact absurd hother (by simp)
      · simp only [Option.getD_some, h₀, Option.some.injEq] at hhosts
        exact ⟨g₀, rfl, by rw [h₀, hhosts], rfl⟩
  obtain ⟨g₀, hg₀, hhosts₀, hvars₀⟩ := hold
  refine ⟨(mem_getNodeHostnames hg₀ hhosts₀).2 hother, ?_⟩
  rw [containersOf_eq, containersOf_eq, Dict.get?_set_self, hg₀]
  simp only [Option.map_some, Option.getD_some]
  by_cases hoe : other = ""
  · simp only [hostVar, if_pos hoe, groupVar, hvars₀]
  · rw [hostVar_eq hoe rfl, hostVar_eq hoe hhosts₀, hkeep other ho]
    simp only [groupVar, hvars₀]

/-- Adding a host keeps the other hosts and gives it its containers. -/
theorem addNode_spec {inv inv' : Inventory} {hostname : String} {resources : NodeResources}
    {containers : List String} (hne : hostname ≠ "")
    (h : addNode inv hostname resources containers = .ok inv') :
    KeepsOthers hostname inv inv' ∧ containersOf inv' hostname = containers := by
  unfold addNode addHostToGroup at h
  simp only [bind_eq_ok, getItem_eq_ok, groupHosts_eq_ok] at h
  obtain ⟨g, hg, hosts, hhosts, h⟩ := h
  -- the containers are the last variable that is set
  rw [Dict.entries_set_of_notMem _ _ (by simp [Dict.mem_keys_set]), List.foldlM_append,
    bind_eq_ok] at h
  obtain ⟨inv₁, h₁, h⟩ := h
  rw [List.foldlM_cons, bind_eq_ok] at h
  obtain ⟨inv₂, h₂, h⟩ := h
  cases h
  have hentry := addGroup_keepsOthers hostname
    (if hostname ∈ hosts.keys then hosts else hosts.set hostname .empty) hg hhosts fun other ho => by
      split_ifs
      · rfl
      · rw [Dict.get?_set_of_ne _ _ ho]
  exact ⟨(hentry.trans (foldlM_setHostVar_keepsOthers hne _ h₁)).trans
    (setHostVar_keepsOthers hne h₂), containersOf_setHostVar_self hne h₂⟩

/-- Adding containers to the list of a host. -/
theorem addContainers_spec {inv inv' : Inventory} {hostname : String} {containers : List String}
    (hne : hostname ≠ "") (h : addContainers inv hostname containers = .ok inv') :
    hostname ∈ inv.getNodeHostnames ∧
      (∀ other, other ∈ inv'.getNodeHostnames ↔ other ∈ inv.getNodeHostnames) ∧
      containersOf inv' hostname = containersOf inv hostname ++ containers ∧
      ∀ other ≠ hostname, containersOf inv' other = containersOf inv other := by
  unfold addContainers at h
  rw [bind_eq_ok] at h
  obtain ⟨current_containers, hcurrent, h⟩ := h
  obtain ⟨hmem, hhosts⟩ := setHostVar_hostnames hne h
  refine ⟨hmem, hhosts, ?_, fun other ho => containersOf_setHostVar_other hne ho h⟩
  rw [containersOf_setHostVar_self hne h, containersOf, hcurrent]
  rfl

/-- Removing a container from the list of a host. -/
theorem removeContainer_spec {inv inv' : Inventory} {hostname container : String}
    (hne : hostname ≠ "") (h : removeContainer inv hostname container = .ok inv') :
    (∀ other, other ∈ inv'.getNodeHostnames ↔ other ∈ inv.getNodeHostnames) ∧
      containersOf inv' hostname = (containersOf inv hostname).erase container ∧
      ∀ other ≠ hostname, containersOf inv' other = containersOf inv other := by
  unfold removeContainer at h
  simp only [bind_eq_ok] at h
  obtain ⟨value, hvalue, current_containers, hcurrent, h⟩ := h
  refine ⟨(setHostVar_hostnames hne h).2, ?_, fun other ho => containersOf_setHostVar_other hne ho h⟩
  have hlist : containersOf inv hostname = current_containers := by
    unfold containersOf getContainers
    rw [hvalue]
    change (Except.toOption (InvValue.containerList value)).getD [] = _
    rw [hcurrent]
    rfl
  by_cases hnull : value = none ∨ value = some .null
  · have hempty : current_containers = [] := by
      rcases hnull with rfl | rfl <;> cases hcurrent <;> rfl
    have hwrite : setHostVar inv HOST_GROUP_NAME "containers" .null hostname = .ok inv' := by
      rcases hnull with rfl | rfl <;> exact h
    rw [containersOf_setHostVar_null hne hvalue hnull hwrite, hlist, hempty]
    rfl
  · have hwrite : setHostVar inv HOST_GROUP_NAME "containers"
        (.containers (current_containers.erase container)) hostname = .ok inv' := by
      rcases value with _ | _ | _
      · exact absurd (Or.inl rfl) hnull
      · exact absurd (Or.inr rfl) hnull
      all_goals exact h
    rw [containersOf_setHostVar_self hne hwrite, hlist]

end Inventory

end ServerlessYarn
