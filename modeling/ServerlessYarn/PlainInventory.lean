/-
  ServerlessYARN model — the inventory as a plain map.

  A variable of a host that equals the default of the nodes is not stored, nor
  is an empty one, unless it may be empty.  What `get_node_resource` returns
  still changes as in a map from hosts and variables to values, which knows
  neither defaults nor discarded values.  A method that writes a value reads it
  through a copy, so that values are not shared here.

  * `effective_eq`: the value of a variable is the stored one, else the default;
  * `setHostVar_plain`: `_set_host_var` writes one variable of the plain map;
  * `addNode_plain`, `addContainers_plain`, `removeContainer_plain`,
    `addDisks_plain`, `updateDisk_plain`: the methods, one by one;
  * `inventory_refines_plain`: all of them, after any run from the inventory of
    the configuration.
-/
import Mathlib.Data.Finset.Basic
import ServerlessYarn.InventoryConf
import ServerlessYarn.Lib.Run

namespace ServerlessYarn

open Inventory

/-! ## The plain map -/

/-- A value; the keys of a dictionary have no order. -/
inductive PlainValue where
  | int (n : ℤ)
  | str (s : String)
  | containers (l : List String)
  | disks (d : String → Option DiskInfo)

namespace PlainValue

/-- The value as a container list, `None` as the empty one. -/
def containerList : Option PlainValue → Py (List String)
  | none => .ok []
  | some (containers l) => .ok l
  | some _ => .error .typeError

/-- The value as a dictionary of disks, `None` as the empty one. -/
def diskMap : Option PlainValue → Py (String → Option DiskInfo)
  | none => .ok fun _ => none
  | some (disks d) => .ok d
  | some _ => .error .typeError

end PlainValue

/-- The hosts, and the value of every variable of every host. -/
@[ext] structure PlainMap where
  hosts : Finset String
  value : String → String → Option PlainValue

namespace PlainMap

/-- Write one variable of a host. -/
def write (m : PlainMap) (hostname key : String) (v : Option PlainValue) : Py PlainMap :=
  if hostname ∈ m.hosts then
    .ok { m with value := fun h k => if h = hostname ∧ k = key then v else m.value h k }
  else .error (.keyError hostname)

def addNode (m : PlainMap) (hostname : String) (resources : NodeResources)
    (containers : List String) : PlainMap where
  hosts := insert hostname m.hosts
  value h k :=
    if h = hostname then
      if k = "containers" then some (.containers containers)
      else if k = "energy" then resources.energy.map .int
      else if k = "disks" then some (.disks resources.disks.get?)
      else if k = "mem" then some (.int resources.mem)
      else if k = "cpu" then some (.int resources.cpu)
      else m.value h k
    else m.value h k

def addContainers (m : PlainMap) (hostname : String) (containers : List String) : Py PlainMap := do
  let current_containers ← PlainValue.containerList (m.value hostname "containers")
  m.write hostname "containers" (some (.containers (current_containers ++ containers)))

/-- A host without a list keeps none. -/
def removeContainer (m : PlainMap) (hostname container : String) : Py PlainMap := do
  let current_containers ← PlainValue.containerList (m.value hostname "containers")
  m.write hostname "containers"
    ((m.value hostname "containers").map fun _ => .containers (current_containers.erase container))

def addDisks (m : PlainMap) (hostname : String) (disks : Dict String DiskInfo) : Py PlainMap := do
  let current_disks ← PlainValue.diskMap (m.value hostname "disks")
  m.write hostname "disks" (some (.disks fun disk => (disks.get? disk).or (current_disks disk)))

def updateDisk (m : PlainMap) (hostname disk : String) (read_bw write_bw : ℤ) : Py PlainMap := do
  let current_disks ← PlainValue.diskMap (m.value hostname "disks")
  match current_disks disk with
  | none => .error (.keyError disk)
  | some info =>
    let info := { info with read_bw := some read_bw, write_bw := some write_bw }
    m.write hostname "disks" (some (.disks (Function.update current_disks disk (some info))))

end PlainMap

/-! ## The operations -/

/-- A method of the inventory, with its arguments. -/
inductive NodeUpdate where
  | add_node (hostname : String) (resources : NodeResources) (containers : List String)
  | add_container (hostname container : String)
  | add_containers (hostname : String) (containers : List String)
  | remove_container (hostname container : String)
  | add_disks (hostname : String) (disks : Dict String DiskInfo)
  | update_disk (hostname disk : String) (read_bw write_bw : ℤ)

namespace NodeUpdate

def run : NodeUpdate → Inventory → Py Inventory
  | add_node hostname resources containers, inv => inv.addNode hostname resources containers
  | add_container hostname container, inv => inv.addContainer hostname container
  | add_containers hostname containers, inv => inv.addContainers hostname containers
  | remove_container hostname container, inv => inv.removeContainer hostname container
  | add_disks hostname disks, inv => inv.addDisks hostname disks
  | update_disk hostname disk read_bw write_bw, inv => inv.updateDisk hostname disk read_bw write_bw

def runPlain : NodeUpdate → PlainMap → Py PlainMap
  | add_node hostname resources containers, m => .ok (m.addNode hostname resources containers)
  | add_container hostname container, m => m.addContainers hostname [container]
  | add_containers hostname containers, m => m.addContainers hostname containers
  | remove_container hostname container, m => m.removeContainer hostname container
  | add_disks hostname disks, m => m.addDisks hostname disks
  | update_disk hostname disk read_bw write_bw, m => m.updateDisk hostname disk read_bw write_bw

def hostname : NodeUpdate → String
  | add_node h _ _ | add_container h _ | add_containers h _ | remove_container h _ | add_disks h _
  | update_disk h _ _ _ => h

/-- The variables that the operation writes. -/
def keys : NodeUpdate → List String
  | add_node .. => ["cpu", "mem", "disks", "energy", "containers"]
  | add_container .. | add_containers .. | remove_container .. => ["containers"]
  | add_disks .. | update_disk .. => ["disks"]

end NodeUpdate

/-! ## The inventory as a plain map -/

namespace InvValue

def plain : InvValue → Option PlainValue
  | null => none
  | int n => some (.int n)
  | str s => some (.str s)
  | containers l => some (.containers l)
  | disks d => some (.disks d.get?)

theorem plain_eq_none {v : InvValue} : v.plain = none ↔ v = null := by
  cases v <;> simp [plain]

/-- Equal values are the same plain value. -/
theorem plain_of_eq {v v' : InvValue} (h : v.eq v' = true) : v.plain = v'.plain := by
  cases v <;> cases v' <;> simp only [eq, Bool.false_eq_true, beq_iff_eq] at h
  case null.null => rfl
  case disks.disks d d' =>
    simp only [Bool.and_eq_true, beq_iff_eq, List.all_eq_true] at h
    obtain ⟨hlen, hsame⟩ := h
    -- as many keys, and those of the one are keys of the other
    have hsub : d.keys ⊆ d'.keys := by
      intro k hk
      obtain ⟨info, hinfo⟩ := Dict.mem_keys_iff.1 hk
      exact Dict.mem_keys_of_get? ((hsame k hk).symm.trans hinfo)
    have hperm : d.keys.Perm d'.keys :=
      (d.nodup_keys.subperm hsub).perm_of_length_le hlen.ge
    have hget : d.get? = d'.get? := by
      funext k
      by_cases hk : k ∈ d.keys
      · exact hsame k hk
      · rw [Dict.get?_eq_none_iff.2 hk, Dict.get?_eq_none_iff.2 fun hk' => hk (hperm.mem_iff.2 hk')]
    simp only [plain, hget]
  all_goals simp [plain, h]

theorem containerList_plain (v : Option InvValue) :
    containerList v = PlainValue.containerList (v.bind plain) := by
  rcases v with _ | v
  · rfl
  · cases v <;> rfl

theorem diskDict_plain (v : Option InvValue) :
    (diskDict v).map Dict.get? = PlainValue.diskMap (v.bind plain) := by
  rcases v with _ | v
  · rfl
  · cases v <;> rfl

end InvValue

namespace Inventory

/-- The default of a variable of the nodes. -/
def nodeDefault (inv : Inventory) (key : String) : Option InvValue :=
  (inv.get? HOST_GROUP_NAME).bind fun g => groupDefault g key

/-- What `get_node_resource` returns. -/
def effective (inv : Inventory) (hostname key : String) : Option PlainValue :=
  ((getNodeResource inv key hostname).toOption.bind id).bind InvValue.plain

def plain (inv : Inventory) : PlainMap where
  hosts := inv.getNodeHostnames.toFinset
  value := inv.effective

theorem mem_plain_hosts {inv : Inventory} {hostname : String} :
    hostname ∈ inv.plain.hosts ↔ hostname ∈ inv.getNodeHostnames := List.mem_toFinset

end Inventory

/-- An operation on a named host; `cpu` and `mem` of a new host are positive, and
    `energy` too, unless it is null and the nodes have no default.  The host of
    `add_node` need not be new here, nor the disk of `update_disk` be there. -/
def NodeUpdate.Allowed (inv : Inventory) (op : NodeUpdate) : Prop :=
  op.hostname ≠ "" ∧ match op with
    | .add_node _ resources _ => 0 < resources.cpu ∧ 0 < resources.mem ∧
      match resources.energy with
      | some energy => 0 < energy
      | none => (inv.nodeDefault "energy").bind InvValue.plain = none
    | _ => True

/-- An operation that raises changes nothing. -/
def NodeStep (inv : Inventory) (op : NodeUpdate) (inv' : Inventory) : Prop :=
  op.Allowed inv ∧ op.run inv = .ok inv'

namespace Inventory

/-! ## Reading -/

theorem NodeGroup.hostVar {inv : Inventory} {g : Group} {hosts : Dict String HostVars}
    {vars : HostVars} (hg : NodeGroup inv g hosts vars) {hostname : String} (hne : hostname ≠ "")
    (key : String) : getHostVar inv HOST_GROUP_NAME key hostname =
      shadow ((hosts.get? hostname).bind (·.get? key)) (.ok (vars.get? key)) := by
  unfold getHostVar getItem
  rw [hg.get_group]
  change Inventory.hostVar g key hostname = _
  rw [hostVar_eq hne hg.get_hosts, groupVar, hg.get_vars]

theorem NodeGroup.hostVar_empty {inv : Inventory} {g : Group} {hosts : Dict String HostVars}
    {vars : HostVars} (hg : NodeGroup inv g hosts vars) (key : String) :
    getHostVar inv HOST_GROUP_NAME key "" = .ok (vars.get? key) := by
  unfold getHostVar getItem
  rw [hg.get_group]
  change Inventory.hostVar g key "" = _
  rw [Inventory.hostVar, if_pos rfl, groupVar, hg.get_vars]

/-- Reading a variable does not raise. -/
theorem getNodeResource_ok {inv : Inventory} (hinv : HasDefaults inv) (key hostname : String) :
    ∃ v, getNodeResource inv key hostname = .ok v := by
  obtain ⟨g, hosts, vars, hg⟩ := hinv
  obtain ⟨v, hv⟩ : ∃ v, getHostVar inv HOST_GROUP_NAME key hostname = .ok v := by
    by_cases hne : hostname = ""
    · subst hne
      exact ⟨_, hg.hostVar_empty key⟩
    · rw [hg.hostVar hne key]
      unfold shadow
      split <;> exact ⟨_, rfl⟩
  refine ⟨v, ?_⟩
  unfold getNodeResource
  rw [hv]

theorem effective_of_ok {inv : Inventory} {hostname key : String} {v : Option InvValue}
    (h : getNodeResource inv key hostname = .ok v) :
    inv.effective hostname key = v.bind InvValue.plain := by
  unfold effective
  rw [h]
  rfl

/-- The value of a variable is the stored one, else the default. -/
theorem effective_eq {inv : Inventory} {g : Group} {hosts : Dict String HostVars}
    {vars : HostVars} (hg : NodeGroup inv g hosts vars) {hostname : String} (hne : hostname ≠ "")
    (key : String) : inv.effective hostname key =
      (((hosts.get? hostname).bind (·.get? key)).bind InvValue.plain).or
        ((vars.get? key).bind InvValue.plain) := by
  have hread : getNodeResource inv key hostname =
      shadow ((hosts.get? hostname).bind (·.get? key)) (.ok (vars.get? key)) := by
    obtain ⟨v, hv⟩ := getNodeResource_ok ⟨g, hosts, vars, hg⟩ key hostname
    rw [← hg.hostVar hne key] at *
    unfold getNodeResource at hv ⊢
    split at hv <;> simp_all
  rcases hown : (hosts.get? hostname).bind (·.get? key) with _ | v
  · rw [hown] at hread
    rw [effective_of_ok hread]
    rfl
  · cases v with
    | null =>
      rw [hown] at hread
      rw [effective_of_ok hread]
      rfl
    | _ =>
      rw [hown] at hread
      rw [effective_of_ok hread]
      rfl

theorem effective_empty {inv : Inventory} {g : Group} {hosts : Dict String HostVars}
    {vars : HostVars} (hg : NodeGroup inv g hosts vars) (key : String) :
    inv.effective "" key = (vars.get? key).bind InvValue.plain := by
  refine effective_of_ok ?_
  unfold getNodeResource
  rw [hg.hostVar_empty key]

/-! ## Writing -/

theorem NodeGroup.nodeDefault {inv : Inventory} {g : Group} {hosts : Dict String HostVars}
    {vars : HostVars} (hg : NodeGroup inv g hosts vars) (key : String) :
    inv.nodeDefault key = vars.get? key := by
  unfold Inventory.nodeDefault groupDefault
  rw [hg.get_group, Option.bind_some, hg.get_vars, Option.bind_some]

/-- A value that is read back once it is written: null is no value, so the default has
    to be none, and other empty values need a variable that may be empty. -/
structure Storable (inv : Inventory) (key : String) (v : InvValue) : Prop where
  null : v.plain = none → (inv.nodeDefault key).bind InvValue.plain = none
  empty : v.falsy = true → v.plain = none ∨ key ∈ EMPTIABLE_VARS

theorem Storable.of_truthy {inv : Inventory} {key : String} {v : InvValue} (h : v.falsy = false) :
    Storable inv key v where
  null hnull := by
    rw [InvValue.plain_eq_none] at hnull
    subst hnull
    cases h
  empty hfalsy := by rw [h] at hfalsy; cases hfalsy

theorem Storable.of_emptiable {inv : Inventory} {key : String} {v : InvValue} (hv : v.plain ≠ none)
    (hkey : key ∈ EMPTIABLE_VARS) : Storable inv key v where
  null hnull := absurd hnull hv
  empty _ := .inr hkey

theorem Storable.of_null {inv : Inventory} {key : String}
    (h : (inv.nodeDefault key).bind InvValue.plain = none) : Storable inv key .null where
  null _ := h
  empty _ := .inl rfl

/-- Reading back what `_set_host_var` stored. -/
theorem storeVar_plain {inv : Inventory} {g : Group} {hosts : Dict String HostVars}
    {vars : HostVars} (hg : NodeGroup inv g hosts vars) {key : String} {v : InvValue}
    (hv : Storable inv key v) (host_vars : HostVars) :
    (((storeVar g key v host_vars).get? key).bind InvValue.plain).or
      ((vars.get? key).bind InvValue.plain) = v.plain := by
  have hdefault : groupDefault g key = vars.get? key := by
    rw [groupDefault, hg.get_vars, Option.bind_some]
  have hnull := hv.null
  rw [hg.nodeDefault] at hnull
  unfold storeVar
  simp only [hdefault]
  split_ifs with hdrop hstore
  · -- dropped, so it is null
    rw [Dict.get?_erase, if_pos rfl, Option.bind_none, Option.none_or]
    simp only [Bool.and_eq_true, Bool.or_eq_true, Bool.not_eq_true', decide_eq_false_iff_not,
      Option.isNone_iff_eq_none] at hdrop
    have hvnull : v.plain = none := by
      refine (hv.empty hdrop.1).resolve_right fun hkey => ?_
      obtain ⟨d, hd⟩ := Dict.mem_keys_iff.1 (hg.emptiable key hkey)
      rcases hdrop.2 with hnot | hnone
      · exact hnot hkey
      · rw [hd] at hnone
        cases hnone
    rw [hvnull, hnull hvnull]
  · -- stored; null is not a value
    rw [Dict.get?_set_self, Option.bind_some]
    rcases hplain : v.plain with _ | x
    · rw [hnull hplain, Option.none_or]
    · rfl
  · -- equal to the default
    rw [Dict.get?_erase, if_pos rfl, Option.bind_none, Option.none_or]
    rcases hget : vars.get? key with _ | d
    · simp [hget] at hstore
    · have heq : v.eq d = true := by simpa [hget] using hstore
      rw [Option.bind_some, InvValue.plain_of_eq heq]

theorem setHostVar_nodeDefault {inv inv' : Inventory} {key hostname : String} {v : InvValue}
    (hne : hostname ≠ "") (h : setHostVar inv HOST_GROUP_NAME key v hostname = .ok inv') (key' : String) :
    inv'.nodeDefault key' = inv.nodeDefault key' := by
  obtain ⟨g, hosts, host_vars, hg, -, -, rfl⟩ := (setHostVar_eq_ok hne).1 h
  unfold nodeDefault
  rw [Dict.get?_set_self, hg]
  rfl

theorem setHostVar_error {inv : Inventory} {hostname : String} (hinv : HasDefaults inv)
    (hne : hostname ≠ "") (hmem : hostname ∉ inv.getNodeHostnames) (key : String) (v : InvValue) :
    setHostVar inv HOST_GROUP_NAME key v hostname = .error (.keyError hostname) := by
  obtain ⟨g, hosts, vars, hg⟩ := hinv
  rw [mem_getNodeHostnames hg.get_group hg.get_hosts, ← Dict.get?_eq_none_iff] at hmem
  unfold setHostVar getItem groupHosts
  rw [hg.get_group]
  change (if hostname = "" then _ else _) = _
  rw [if_neg hne, hg.get_hosts]
  simp only [bind, Except.bind, hmem]

/-- **`_set_host_var` writes one variable of the plain map.** -/
theorem setHostVar_plain {inv : Inventory} {key hostname : String} {v : InvValue}
    (hinv : HasDefaults inv) (hne : hostname ≠ "") (hv : Storable inv key v) :
    (setHostVar inv HOST_GROUP_NAME key v hostname).map plain =
      inv.plain.write hostname key v.plain := by
  by_cases hmem : hostname ∈ inv.getNodeHostnames
  · obtain ⟨inv', h⟩ := exists_setHostVar hne hmem key v
    have hhosts : inv'.plain.hosts = inv.plain.hosts := by
      ext other
      rw [mem_plain_hosts, mem_plain_hosts, (setHostVar_hostnames hne h).2 other]
    have hvalue : inv'.effective = fun h k =>
        if h = hostname ∧ k = key then v.plain else inv.effective h k := by
      obtain ⟨g, hosts, vars, hg⟩ := hinv
      obtain ⟨g', hosts', host_vars, hg', hhosts', hget, rfl⟩ := (setHostVar_eq_ok hne).1 h
      obtain rfl : g = g' := Option.some.inj (hg.get_group.symm.trans hg')
      obtain rfl : hosts = hosts' := Option.some.inj (hg.get_hosts.symm.trans hhosts')
      have hgroup : NodeGroup (inv.set HOST_GROUP_NAME
          { g with hosts := some (hosts.set hostname (storeVar g key v host_vars)) }) _ _ vars :=
        ⟨Dict.get?_set_self _ _ _, rfl, hg.get_vars, hg.emptiable⟩
      funext other k
      by_cases hempty : other = ""
      · rw [hempty, effective_empty hgroup, effective_empty hg, if_neg fun h => hne h.1.symm]
      rw [effective_eq hgroup hempty, effective_eq hg hempty]
      by_cases ho : other = hostname
      · subst ho
        rw [Dict.get?_set_self, hget, Option.bind_some, Option.bind_some]
        by_cases hk : k = key
        · subst hk
          rw [if_pos ⟨rfl, rfl⟩, storeVar_plain hg hv host_vars]
        · rw [if_neg fun h => hk h.2, storeVar_get?_of_ne g v host_vars hk]
      · rw [Dict.get?_set_of_ne _ _ ho, if_neg fun h => ho h.1]
    rw [h, PlainMap.write, if_pos (mem_plain_hosts.2 hmem)]
    refine congrArg Except.ok (PlainMap.ext hhosts hvalue)
  · rw [setHostVar_error hinv hne hmem, PlainMap.write, if_neg fun h => hmem (mem_plain_hosts.1 h)]
    rfl

/-! ## The methods -/

theorem setHostVars_plain {hostname : String} (hne : hostname ≠ "") {es : List (String × InvValue)}
    {inv : Inventory} (hinv : HasDefaults inv) (hes : ∀ e ∈ es, Storable inv e.1 e.2) :
    (es.foldlM (fun inv e => setHostVar inv HOST_GROUP_NAME e.1 e.2 hostname) inv).map plain =
      es.foldlM (fun m e => m.write hostname e.1 e.2.plain) inv.plain := by
  induction es generalizing inv with
  | nil => rfl
  | cons e es ih =>
    have hwrite := setHostVar_plain hinv hne (hes e List.mem_cons_self)
    rw [List.foldlM_cons, List.foldlM_cons, ← hwrite]
    rcases h : setHostVar inv HOST_GROUP_NAME e.1 e.2 hostname with err | inv₁
    · rfl
    · refine ih (setHostVar_hasDefaults hinv h) fun e' he' => ?_
      have hold := hes e' (List.mem_cons_of_mem _ he')
      constructor
      · rw [setHostVar_nodeDefault hne h]
        exact hold.null
      · exact hold.empty

/-- The values depend on the stored variables and on the defaults only. -/
theorem effective_congr {inv inv' : Inventory} {g g' : Group} {hosts hosts' : Dict String HostVars}
    {vars : HostVars} (hg : NodeGroup inv g hosts vars) (hg' : NodeGroup inv' g' hosts' vars)
    (hstored : ∀ hostname key, (hosts'.get? hostname).bind (·.get? key) =
      (hosts.get? hostname).bind (·.get? key)) : inv'.effective = inv.effective := by
  funext hostname key
  by_cases hempty : hostname = ""
  · rw [hempty, effective_empty hg', effective_empty hg]
  · rw [effective_eq hg' hempty, effective_eq hg hempty, hstored]

/-- An entry for a host adds it, and changes no value. -/
theorem addEntry_plain {inv : Inventory} {g : Group} {hosts hosts' : Dict String HostVars}
    {vars : HostVars} (hg : NodeGroup inv g hosts vars) {hostname : String}
    (hhosts' : hosts' = if hostname ∈ hosts.keys then hosts else hosts.set hostname .empty) :
    plain (((addGroup inv HOST_GROUP_NAME).set HOST_GROUP_NAME { g with hosts := some hosts' })) =
        { inv.plain with hosts := insert hostname inv.plain.hosts } := by
  have hgroup : NodeGroup ((addGroup inv HOST_GROUP_NAME).set HOST_GROUP_NAME
      { g with hosts := some hosts' }) _ hosts' vars :=
    ⟨Dict.get?_set_self _ _ _, rfl, hg.get_vars, hg.emptiable⟩
  have hmem : ∀ other, other ∈ hosts'.keys ↔ other = hostname ∨ other ∈ hosts.keys := by
    intro other
    rw [hhosts']
    split_ifs with hold
    · refine ⟨.inr, ?_⟩
      rintro (rfl | hother)
      · exact hold
      · exact hother
    · exact Dict.mem_keys_set
  have hstored : ∀ other key, (hosts'.get? other).bind (·.get? key) =
      (hosts.get? other).bind (·.get? key) := by
    intro other key
    rw [hhosts']
    split_ifs with hold
    · rfl
    · by_cases ho : other = hostname
      · -- a new host has no variables yet
        rw [ho, Dict.get?_set_self, Dict.get?_eq_none_iff.2 hold]
        rfl
      · rw [Dict.get?_set_of_ne _ _ ho]
  refine PlainMap.ext ?_ (effective_congr hg hgroup hstored)
  ext other
  rw [mem_plain_hosts, mem_getNodeHostnames hgroup.get_group hgroup.get_hosts, hmem, Finset.mem_insert,
    mem_plain_hosts, mem_getNodeHostnames hg.get_group hg.get_hosts]

theorem addHostToGroup_plain {inv : Inventory} (hinv : HasDefaults inv) {hostname : String}
    (hne : hostname ≠ "") {host_vars : HostVars}
    (hvars : ∀ e ∈ host_vars.entries, Storable inv e.1 e.2) :
    (addHostToGroup inv HOST_GROUP_NAME hostname host_vars).map plain =
      host_vars.entries.foldlM (fun m e => m.write hostname e.1 e.2.plain)
        { inv.plain with hosts := insert hostname inv.plain.hosts } := by
  obtain ⟨g, hosts, vars, hg⟩ := hinv
  obtain ⟨hosts', hhosts'⟩ : ∃ hosts', hosts' =
    if hostname ∈ hosts.keys then hosts else hosts.set hostname .empty := ⟨_, rfl⟩
  have hadd : addHostToGroup inv HOST_GROUP_NAME hostname host_vars =
      host_vars.entries.foldlM (fun inv v => setHostVar inv HOST_GROUP_NAME v.1 v.2 hostname)
        ((addGroup inv HOST_GROUP_NAME).set HOST_GROUP_NAME { g with hosts := some hosts' }) := by
    unfold addHostToGroup getItem groupHosts
    simp only [bind, Except.bind, hg.addGroup.get_group, hg.get_hosts, hhosts']
  have hgroup : NodeGroup ((addGroup inv HOST_GROUP_NAME).set HOST_GROUP_NAME
      { g with hosts := some hosts' }) _ hosts' vars :=
    ⟨Dict.get?_set_self _ _ _, rfl, hg.get_vars, hg.emptiable⟩
  rw [hadd, setHostVars_plain hne ⟨_, _, _, hgroup⟩, addEntry_plain hg hhosts']
  intro e he
  constructor
  · rw [hgroup.nodeDefault, ← hg.nodeDefault]
    exact (hvars e he).null
  · exact (hvars e he).empty

/-- Several variables of a host are written at once. -/
theorem PlainMap.writes {hostname : String} (es : List (String × Option PlainValue)) {m : PlainMap}
    (hmem : hostname ∈ m.hosts) :
    es.foldlM (fun m e => m.write hostname e.1 e.2) m = .ok
      { m with
        value := fun h k =>
          if h = hostname then es.foldl (fun v e => if k = e.1 then e.2 else v) (m.value h k)
          else m.value h k } := by
  induction es generalizing m with
  | nil => simp [pure, Except.pure]
  | cons e es ih =>
    rw [List.foldlM_cons, PlainMap.write, if_pos hmem]
    have hrest := ih (m := ⟨m.hosts, fun h k => if h = hostname ∧ k = e.1 then e.2 else m.value h k⟩) hmem
    refine hrest.trans ?_
    congr
    funext h k
    by_cases hh : h = hostname <;> simp [hh]

/-- **`_add_host_to_group` adds the host and writes its variables.** -/
theorem addHostToGroup_value {inv : Inventory} (hinv : HasDefaults inv) {hostname : String}
    (hne : hostname ≠ "") {host_vars : HostVars}
    (hvars : ∀ e ∈ host_vars.entries, Storable inv e.1 e.2) :
    (addHostToGroup inv HOST_GROUP_NAME hostname host_vars).map plain = .ok
      { hosts := insert hostname inv.plain.hosts
        value := fun h k =>
          if h = hostname then ((host_vars.get? k).map InvValue.plain).getD (inv.plain.value h k)
          else inv.plain.value h k } := by
  have hwrites := PlainMap.writes (host_vars.entries.map fun e => (e.1, e.2.plain))
    (m := { inv.plain with hosts := insert hostname inv.plain.hosts }) (Finset.mem_insert_self _ _)
  rw [List.foldlM_map] at hwrites
  rw [addHostToGroup_plain hinv hne hvars, hwrites]
  refine congrArg Except.ok (PlainMap.ext rfl ?_)
  funext h k
  dsimp only
  rw [List.foldl_map, Dict.foldl_entries_eq]

/-- The variables of a new host. -/
def nodeVar (resources : NodeResources) (containers : List String) (key : String) : Option InvValue :=
  if key = "containers" then some (.containers containers)
  else if key = "energy" then some (resources.energy.elim .null .int)
  else if key = "disks" then some (.disks resources.disks)
  else if key = "mem" then some (.int resources.mem)
  else if key = "cpu" then some (.int resources.cpu)
  else none

/-- Adding a host with these variables, in any order. -/
theorem addNodeVars_plain {inv : Inventory} (hinv : HasDefaults inv) {hostname : String}
    {resources : NodeResources} {containers : List String}
    (hallowed : (NodeUpdate.add_node hostname resources containers).Allowed inv) {host_vars : HostVars}
    (hget : ∀ key, host_vars.get? key = nodeVar resources containers key) :
    (addHostToGroup inv HOST_GROUP_NAME hostname host_vars).map plain =
      .ok (inv.plain.addNode hostname resources containers) := by
  obtain ⟨hne, hcpu, hmem, henergy⟩ := hallowed
  change hostname ≠ "" at hne
  have hvars : ∀ e ∈ host_vars.entries, Storable inv e.1 e.2 := by
    refine Dict.forall_get?_iff.1 fun key v hv => ?_
    rw [hget, nodeVar] at hv
    split_ifs at hv with hcontainers henergyKey hdisks hmemKey hcpuKey <;> cases hv
    · exact .of_emptiable (by simp [InvValue.plain]) (by simp [hcontainers, EMPTIABLE_VARS])
    · subst henergyKey
      rcases he : resources.energy with _ | energy
      · rw [he] at henergy
        exact .of_null henergy
      · rw [he] at henergy
        exact .of_truthy (by simpa [InvValue.falsy] using (show 0 < energy from henergy).ne')
    · exact .of_emptiable (by simp [InvValue.plain]) (by simp [hdisks, EMPTIABLE_VARS])
    · exact .of_truthy (by simpa [InvValue.falsy] using hmem.ne')
    · exact .of_truthy (by simpa [InvValue.falsy] using hcpu.ne')
  rw [addHostToGroup_value hinv hne hvars]
  refine congrArg Except.ok (PlainMap.ext rfl ?_)
  funext h k
  unfold PlainMap.addNode
  dsimp only
  rw [hget, nodeVar]
  have hplain : (resources.energy.elim InvValue.null InvValue.int).plain =
      resources.energy.map .int := by cases resources.energy <;> rfl
  simp only [apply_ite (Option.map InvValue.plain), Option.map_some, Option.map_none,
    apply_ite (fun v => Option.getD v (inv.plain.value h k)), Option.getD_some, Option.getD_none, hplain]
  rfl

theorem addNode_plain {inv : Inventory} (hinv : HasDefaults inv) {hostname : String}
    {resources : NodeResources} {containers : List String}
    (hallowed : (NodeUpdate.add_node hostname resources containers).Allowed inv) :
    (addNode inv hostname resources containers).map plain =
      .ok (inv.plain.addNode hostname resources containers) := by
  refine addNodeVars_plain hinv hallowed fun key => ?_
  simp only [Dict.get?_set, Dict.get?_empty, nodeVar]

theorem getContainers_plain {inv : Inventory} (hinv : HasDefaults inv) (hostname : String) :
    getContainers inv hostname =
      PlainValue.containerList (inv.plain.value hostname "containers") := by
  obtain ⟨v, hv⟩ := getNodeResource_ok hinv "containers" hostname
  change _ = PlainValue.containerList (inv.effective hostname "containers")
  rw [effective_of_ok hv, ← InvValue.containerList_plain]
  unfold getContainers
  rw [hv]
  rfl

theorem getDisks_plain {inv : Inventory} (hinv : HasDefaults inv) (hostname : String) :
    (getDisks inv hostname).map Dict.get? =
      PlainValue.diskMap (inv.plain.value hostname "disks") := by
  obtain ⟨v, hv⟩ := getNodeResource_ok hinv "disks" hostname
  change _ = PlainValue.diskMap (inv.effective hostname "disks")
  rw [effective_of_ok hv, ← InvValue.diskDict_plain]
  unfold getDisks
  rw [hv]
  rfl

theorem addContainers_plain {inv : Inventory} (hinv : HasDefaults inv) {hostname : String}
    (hne : hostname ≠ "") (containers : List String) :
    (addContainers inv hostname containers).map plain = inv.plain.addContainers hostname containers := by
  unfold addContainers PlainMap.addContainers
  rw [getContainers_plain hinv]
  rcases PlainValue.containerList (inv.plain.value hostname "containers") with err | l
  · rfl
  · exact setHostVar_plain hinv hne (.of_emptiable (by simp [InvValue.plain]) (by decide))

theorem removeContainer_plain {inv : Inventory} (hinv : HasDefaults inv) {hostname : String}
    (hne : hostname ≠ "") (container : String) :
    (removeContainer inv hostname container).map plain = inv.plain.removeContainer hostname container := by
  obtain ⟨v, hv⟩ := getNodeResource_ok hinv "containers" hostname
  have hvalue : inv.plain.value hostname "containers" = v.bind InvValue.plain := effective_of_ok hv
  unfold removeContainer PlainMap.removeContainer
  rw [hv, hvalue, ← InvValue.containerList_plain]
  simp only [bind, Except.bind]
  rcases hl : InvValue.containerList v with err | l
  · rfl
  · by_cases hnull : v.bind InvValue.plain = none
    · -- nothing to remove: null is written, and the default is null too
      have hdefault : (inv.nodeDefault "containers").bind InvValue.plain = none := by
        obtain ⟨g, hosts, vars, hg⟩ := hinv
        change inv.effective hostname "containers" = _ at hvalue
        rw [effective_eq hg hne, hnull, Option.or_eq_none_iff] at hvalue
        rw [hg.nodeDefault]
        exact hvalue.2
      rw [hnull]
      rcases v with _ | v
      · exact setHostVar_plain hinv hne (.of_null hdefault)
      · obtain rfl : v = .null := InvValue.plain_eq_none.1 hnull
        exact setHostVar_plain hinv hne (.of_null hdefault)
    · rcases v with _ | v
      · exact absurd rfl hnull
      cases v with
      | null => exact absurd rfl hnull
      | containers l' =>
        exact setHostVar_plain hinv hne (.of_emptiable (by simp [InvValue.plain]) (by decide))
      | _ => cases hl

theorem addDisks_plain {inv : Inventory} (hinv : HasDefaults inv) {hostname : String}
    (hne : hostname ≠ "") (disks : Dict String DiskInfo) :
    (addDisks inv hostname disks).map plain = inv.plain.addDisks hostname disks := by
  unfold addDisks PlainMap.addDisks
  rw [← getDisks_plain hinv]
  rcases getDisks inv hostname with err | d
  · rfl
  · refine (setHostVar_plain hinv hne (.of_emptiable (by simp [InvValue.plain]) (by decide))).trans ?_
    have hupdate : (d.update disks).get? = fun disk => (disks.get? disk).or (d.get? disk) := by
      funext disk
      exact Dict.get?_update d disks disk
    rw [InvValue.plain, hupdate]
    rfl

theorem updateDisk_plain {inv : Inventory} (hinv : HasDefaults inv) {hostname : String}
    (hne : hostname ≠ "") (disk : String) (read_bw write_bw : ℤ) :
    (updateDisk inv hostname disk read_bw write_bw).map plain =
      inv.plain.updateDisk hostname disk read_bw write_bw := by
  unfold updateDisk PlainMap.updateDisk
  rw [← getDisks_plain hinv]
  rcases getDisks inv hostname with err | d
  · rfl
  · change Except.map plain (getItem d disk >>= _) = match d.get? disk with | none => _ | some info => _
    unfold getItem
    rcases hd : d.get? disk with _ | info
    · rfl
    · refine (setHostVar_plain hinv hne (.of_emptiable (by simp [InvValue.plain]) (by decide))).trans ?_
      have hupdate : (d.set disk { info with read_bw := some read_bw, write_bw := some write_bw }).get? =
          Function.update d.get? disk
            (some { info with read_bw := some read_bw, write_bw := some write_bw }) := by
        funext j
        rw [Dict.get?_set, Function.update_apply]
      rw [InvValue.plain, hupdate]

theorem run_plain {inv : Inventory} (hinv : HasDefaults inv) {op : NodeUpdate} (hop : op.Allowed inv) :
    (op.run inv).map plain = op.runPlain inv.plain := by
  cases op with
  | add_node hostname resources containers => exact addNode_plain hinv hop
  | add_container hostname container => exact addContainers_plain hinv hop.1 [container]
  | add_containers hostname containers => exact addContainers_plain hinv hop.1 containers
  | remove_container hostname container => exact removeContainer_plain hinv hop.1 container
  | add_disks hostname disks => exact addDisks_plain hinv hop.1 disks
  | update_disk hostname disk read_bw write_bw => exact updateDisk_plain hinv hop.1 disk read_bw write_bw

theorem run_hasDefaults {inv inv' : Inventory} (hinv : HasDefaults inv) {op : NodeUpdate}
    (h : op.run inv = .ok inv') : HasDefaults inv' := by
  cases op with
  | add_node => exact addHostToGroup_hasDefaults hinv h
  | add_container | add_containers | add_disks =>
    obtain ⟨_, -, h⟩ := bind_eq_ok.1 h
    exact setHostVar_hasDefaults hinv h
  | remove_container | update_disk =>
    obtain ⟨_, -, h⟩ := bind_eq_ok.1 h
    obtain ⟨_, -, h⟩ := bind_eq_ok.1 h
    exact setHostVar_hasDefaults hinv h

end Inventory

/-! ## What an operation of the plain map changes -/

namespace PlainMap

theorem write_frame {m m' : PlainMap} {hostname key : String} {v : Option PlainValue}
    (h : m.write hostname key v = .ok m') {h' k : String} (hk : h' ≠ hostname ∨ k ≠ key) :
    m'.value h' k = m.value h' k := by
  unfold write at h
  split_ifs at h
  cases h
  refine if_neg ?_
  rintro ⟨rfl, rfl⟩
  exact hk.elim (· rfl) (· rfl)

/-- Another host, or a variable that the operation does not write. -/
theorem runPlain_frame {op : NodeUpdate} {m m' : PlainMap} (h : op.runPlain m = .ok m')
    {hostname key : String} (hk : hostname ≠ op.hostname ∨ key ∉ op.keys) :
    m'.value hostname key = m.value hostname key := by
  cases op with
  | add_node host resources containers =>
    cases h
    simp only [NodeUpdate.hostname, NodeUpdate.keys, List.mem_cons, List.not_mem_nil, or_false,
      not_or] at hk
    unfold addNode
    by_cases hh : hostname = host
    · obtain ⟨hcpu, hmem, hdisks, henergy, hcontainers⟩ := hk.resolve_left fun hne => hne hh
      simp only [if_pos hh, if_neg hcpu, if_neg hmem, if_neg hdisks, if_neg henergy, if_neg hcontainers]
    · simp only [if_neg hh]
  | add_container | add_containers | remove_container | add_disks =>
    obtain ⟨_, -, h⟩ := bind_eq_ok.1 h
    exact write_frame h (hk.imp_right fun hnot => by simpa [NodeUpdate.keys] using hnot)
  | update_disk =>
    obtain ⟨_, -, h⟩ := bind_eq_ok.1 h
    split at h
    · cases h
    · exact write_frame h (hk.imp_right fun hnot => by simpa [NodeUpdate.keys] using hnot)

end PlainMap

/-! ## Runs -/

/-- **The compressed inventory behaves as a plain map**: after any run of operations,
    the next one changes what `get_node_resource` returns as it changes the plain map,
    and nothing else. -/
theorem inventory_refines_plain {expandvars : String → String} {reset_disks : Bool}
    {config : InventoryConfig} {previous inv₀ inv : Inventory} {ops : List NodeUpdate} {op : NodeUpdate}
    (hload : loadInventoryFromConf expandvars reset_disks config previous = .ok inv₀)
    (hrun : Run NodeStep inv₀ ops inv) (hop : op.Allowed inv) :
    (op.run inv).map plain = op.runPlain inv.plain ∧
      (∀ hostname key, ∃ v, getNodeResource inv key hostname = .ok v ∧
        inv.plain.value hostname key = v.bind InvValue.plain) ∧
      ∀ inv', op.run inv = .ok inv' → ∀ hostname key, (hostname ≠ op.hostname ∨ key ∉ op.keys) →
        inv'.plain.value hostname key = inv.plain.value hostname key := by
  have hinv : HasDefaults inv := by
    refine hrun.inv (I := HasDefaults) ?_ (loadInventoryFromConf_hasDefaults hload)
    rintro inv₁ op₁ inv₂ h₁ ⟨-, hstep⟩
    exact run_hasDefaults h₁ hstep
  have hplain := run_plain hinv hop
  refine ⟨hplain, ?_, ?_⟩
  · intro hostname key
    obtain ⟨v, hv⟩ := getNodeResource_ok hinv key hostname
    exact ⟨v, hv, effective_of_ok hv⟩
  · intro inv' h hostname key hk
    rw [h] at hplain
    exact PlainMap.runPlain_frame hplain.symm hk

/-- A server and one host, without disks and without energy. -/
def InventoryConfig.small : InventoryConfig where
  hostnames := some "server,host0"
  server_ip := "192.168.56.100"
  number_of_hosts := 1
  server_as_host := false
  number_of_containers_per_node := 1
  cpus_per_host := 8
  memory_per_host := 4096
  power_budgeting := false
  energy_per_host := 0
  disk_capabilities := false
  hdd_disks_per_host := 0
  hdd_disks_path_list := ""
  ssd_disks_per_host := 0
  ssd_disks_path_list := ""
  create_lvm := false
  lvm_path := ""
  cpus_server_node := 8
  memory_server_node := 4096
  global_hdfs := false
  global_hdfs_disk_name := ""
  global_hdfs_data_dir := ""

/-- A new host gets the defaults, and the first host loses its container: its list is the
    default again. -/
theorem inventory_refines_plain_small : ∃ inv₀ inv inv',
    loadInventoryFromConf id true .small .empty = .ok inv₀ ∧
    (NodeUpdate.add_node "host1" ⟨8, 4096, .empty, none⟩ ["host1-cont0"]).run inv₀ = .ok inv ∧
    (NodeUpdate.remove_container "host0" "host0-cont0").run inv = .ok inv' ∧
    .ok inv'.plain = inv.plain.removeContainer "host0" "host0-cont0" := by
  obtain ⟨inv₀, hload⟩ : ∃ inv₀, loadInventoryFromConf id true .small .empty = .ok inv₀ := ⟨_, rfl⟩
  obtain ⟨inv, hadd⟩ : ∃ inv, (NodeUpdate.add_node "host1" ⟨8, 4096, .empty, none⟩
      ["host1-cont0"]).run inv₀ = .ok inv := by
    cases hload
    exact ⟨_, rfl⟩
  obtain ⟨inv', hremove⟩ : ∃ inv', (NodeUpdate.remove_container "host0" "host0-cont0").run inv =
      .ok inv' := by
    cases hload
    cases hadd
    exact ⟨_, rfl⟩
  have hallowed : (NodeUpdate.add_node "host1" ⟨8, 4096, .empty, none⟩ ["host1-cont0"]).Allowed inv₀ := by
    cases hload
    exact ⟨by decide, by decide, by decide, rfl⟩
  have hremoveAllowed : (NodeUpdate.remove_container "host0" "host0-cont0").Allowed inv :=
    ⟨by decide, trivial⟩
  have hplain := (inventory_refines_plain hload (.single ⟨hallowed, hadd⟩)
    hremoveAllowed).1
  rw [hremove] at hplain
  exact ⟨inv₀, inv, inv', hload, hadd, hremove, hplain⟩

end ServerlessYarn
