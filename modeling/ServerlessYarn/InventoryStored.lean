/-
  ServerlessYARN model — the variables stored in the inventory.

  What holds of every value that is written holds of every stored variable of
  the nodes, whether it belongs to a host or is a default.

  * `setHostVar_stored`, `addHostToGroup_stored`, `addNodeGroup_stored`: the rule
    for each way of writing;
  * `readable_of_run`: after any run of operations from the inventory of a
    configuration, the disks of the nodes are dictionaries, so that
    `getDisks_ok` and `previousDisks_ok` apply.
-/
import ServerlessYarn.PlainInventory

namespace ServerlessYarn

open Inventory

/-! ## The stored variables -/

namespace Inventory

/-- Every stored variable of the nodes, of a host or default, satisfies `P`. -/
structure Stored (P : String → InvValue → Prop) (g : Group) : Prop where
  default : ∀ vars key v, g.vars = some vars → vars.get? key = some v → P key v
  own : ∀ hosts hostname vars key v, g.hosts = some hosts → hosts.get? hostname = some vars →
    vars.get? key = some v → P key v

/-- All variables stored for the nodes of the inventory satisfy `P`. -/
def NodesStored (P : String → InvValue → Prop) (inv : Inventory) : Prop :=
  ∀ g, inv.get? HOST_GROUP_NAME = some g → Stored P g

variable {P : String → InvValue → Prop}

theorem storeVar_get?_cases {g : Group} {key key' : String} {v w : InvValue} {vars : HostVars}
    (h : (storeVar g key v vars).get? key' = some w) :
    (key' = key ∧ w = v) ∨ vars.get? key' = some w := by
  by_cases hk : key' = key
  · subst hk
    unfold storeVar at h
    simp only at h
    split_ifs at h
    · rw [Dict.get?_erase, if_pos rfl] at h
      cases h
    · rw [Dict.get?_set_self] at h
      exact .inl ⟨rfl, (Option.some.inj h).symm⟩
    · rw [Dict.get?_erase, if_pos rfl] at h
      cases h
  · rw [storeVar_get?_of_ne g v vars hk] at h
    exact .inr h

theorem setHostVar_stored {inv inv' : Inventory} {key hostname : String} {v : InvValue}
    (hinv : NodesStored P inv) (hv : P key v)
    (h : setHostVar inv HOST_GROUP_NAME key v hostname = .ok inv') : NodesStored P inv' := by
  intro g' hg'
  by_cases hne : hostname = ""
  · -- without a host name the default is written
    unfold setHostVar at h
    simp only [bind_eq_ok, getItem_eq_ok, if_pos hne, pure_eq_ok] at h
    obtain ⟨g, hg, rfl⟩ := h
    rw [Dict.get?_set_self] at hg'
    cases hg'
    refine ⟨?_, (hinv g hg).own⟩
    intro vars key' w hvars hw
    cases hvars
    rw [Dict.get?_set] at hw
    split_ifs at hw with hk
    · cases hw
      rw [hk]
      exact hv
    · rcases hold : g.vars with _ | old
      · rw [hold] at hw
        cases hw
      · rw [hold] at hw
        exact (hinv g hg).default old key' w hold hw
  · obtain ⟨g, hosts, vars, hg, hhosts, hget, rfl⟩ := (setHostVar_eq_ok hne).1 h
    rw [Dict.get?_set_self] at hg'
    cases hg'
    refine ⟨(hinv g hg).default, ?_⟩
    intro hosts' other vars' key' w hhosts' hget' hw
    cases hhosts'
    rw [Dict.get?_set] at hget'
    split_ifs at hget' with ho
    · cases hget'
      rcases storeVar_get?_cases hw with ⟨rfl, rfl⟩ | hold
      · exact hv
      · exact (hinv g hg).own hosts hostname vars key' w hhosts hget hold
    · exact (hinv g hg).own hosts other vars' key' w hhosts hget' hw

theorem addGroup_stored {inv : Inventory} (hinv : NodesStored P inv) :
    NodesStored P (addGroup inv HOST_GROUP_NAME) := by
  intro g' hg'
  unfold addGroup at hg'
  rw [Dict.get?_set_self] at hg'
  cases hg'
  rcases hg : inv.get? HOST_GROUP_NAME with _ | g
  · constructor
    · intro vars key v hvars hv
      cases hvars
    · intro hosts hostname vars key v hhosts hget hv
      cases hhosts
      cases hget
  · refine ⟨(hinv g hg).default, ?_⟩
    intro hosts hostname vars key v hhosts hget hv
    rcases hold : g.hosts with _ | old
    · rw [Option.getD_some, hold] at hhosts
      cases hhosts
      cases hget
    · rw [Option.getD_some, hold] at hhosts
      cases hhosts
      exact (hinv g hg).own old hostname vars key v hold hget hv

theorem addHostToGroup_stored {inv inv' : Inventory} {hostname : String} {host_vars : HostVars}
    (hinv : NodesStored P inv) (hvars : ∀ e ∈ host_vars.entries, P e.1 e.2)
    (h : addHostToGroup inv HOST_GROUP_NAME hostname host_vars = .ok inv') : NodesStored P inv' := by
  unfold addHostToGroup at h
  simp only [bind_eq_ok, getItem_eq_ok, groupHosts_eq_ok] at h
  obtain ⟨g, hg, hosts, hhosts, h⟩ := h
  have hstored := addGroup_stored hinv g hg
  refine foldlM_inv_of_mem (fun e he _ _ hinv₁ hset => setHostVar_stored hinv₁ (hvars e he) hset) ?_ h
  -- an entry for a new host is empty
  intro g' hg'
  rw [Dict.get?_set_self] at hg'
  cases hg'
  refine ⟨hstored.default, ?_⟩
  intro hosts' other vars key v hhosts' hget hv
  cases hhosts'
  split_ifs at hget
  · exact hstored.own hosts other vars key v hhosts hget hv
  · rw [Dict.get?_set] at hget
    split_ifs at hget
    · cases hget
      cases hv
    · exact hstored.own hosts other vars key v hhosts hget hv

theorem addNodeGroup_stored {inv : Inventory} {resources : HostVars} (hinv : NodesStored P inv)
    (hvars : ∀ e ∈ resources.entries, P e.1 e.2) : NodesStored P (inv.addNodeGroup resources) := by
  intro g' hg'
  unfold addNodeGroup at hg'
  rw [Dict.get?_modify_self] at hg'
  rcases hg : (addGroup inv HOST_GROUP_NAME).get? HOST_GROUP_NAME with _ | g
  · rw [hg] at hg'
    cases hg'
  rw [hg] at hg'
  cases hg'
  have hstored := addGroup_stored hinv g hg
  refine ⟨?_, hstored.own⟩
  have hloop : ∀ (es : List (String × InvValue)) (vars : Option HostVars), (∀ e ∈ es, P e.1 e.2) →
      (∀ vars' key v, vars = some vars' → vars'.get? key = some v → P key v) →
      ∀ vars' key v, es.foldl (fun vars v => if !v.2.falsy || v.1 ∈ EMPTIABLE_VARS then
        some ((vars.getD .empty).set v.1 v.2) else vars) vars = some vars' →
          vars'.get? key = some v → P key v := by
    intro es
    induction es with
    | nil =>
      intro vars _ hvars
      exact hvars
    | cons e es ih =>
      intro vars hes hvars
      rw [List.foldl_cons]
      refine ih _ (fun e' he' => hes e' (List.mem_cons_of_mem _ he')) ?_
      intro vars' key v hvars' hv
      split_ifs at hvars'
      · cases hvars'
        rw [Dict.get?_set] at hv
        split_ifs at hv with hk
        · cases hv
          rw [hk]
          exact hes e List.mem_cons_self
        · rcases vars with _ | old
          · cases hv
          · exact hvars old key v rfl hv
      · exact hvars vars' key v hvars' hv
  exact hloop resources.entries g.vars hvars hstored.default

/-! ## The disks can be read -/

/-- The variable `disks` is a dictionary of disks. -/
def DisksTyped (key : String) (v : InvValue) : Prop := key = "disks" → ∃ disks, v = .disks disks

theorem disksTyped_of_ne {key : String} (hkey : key ≠ "disks") (v : InvValue) : DisksTyped key v :=
  fun h => absurd h hkey

theorem nodeVar_disksTyped {resources : NodeResources} {containers : List String} {key : String}
    {v : InvValue} (h : nodeVar resources containers key = some v) : DisksTyped key v := by
  rintro rfl
  rw [nodeVar, if_neg (by decide), if_neg (by decide), if_pos rfl] at h
  exact ⟨resources.disks, (Option.some.inj h).symm⟩

theorem NodeResources.get?_vars (r : NodeResources) (containers : List String) (key : String) :
    (r.vars.set "containers" (.containers containers)).get? key = nodeVar r containers key := by
  unfold NodeResources.vars nodeVar
  simp only [Dict.get?_set, Dict.get?_empty]
  by_cases henergy : key = "energy"
  · subst henergy
    rfl
  · simp only [if_neg henergy]
    split_ifs <;> rfl

theorem NodeResources.vars_typed (r : NodeResources) : ∀ e ∈ r.vars.entries, DisksTyped e.1 e.2 := by
  refine Dict.forall_get?_iff.1 fun key v hv => ?_
  by_cases hkey : key = "disks"
  · subst hkey
    refine fun _ => ⟨r.disks, ?_⟩
    unfold NodeResources.vars at hv
    simp only [Dict.get?_set] at hv
    exact (Option.some.inj hv).symm
  · exact disksTyped_of_ne hkey v

/-- The disks of a host are read from its own variable or from the default. -/
theorem readDisks_ok {inv : Inventory} (hinv : HasDefaults inv) (hstored : NodesStored DisksTyped inv)
    (hostname : String) : ∃ v disks, getHostVar inv HOST_GROUP_NAME "disks" hostname = .ok v ∧
      InvValue.diskDict v = .ok disks := by
  obtain ⟨g, hosts, vars, hg⟩ := hinv
  have hstored := hstored g hg.get_group
  obtain ⟨default, hdefault⟩ := Dict.mem_keys_iff.1 (hg.emptiable "disks" (by decide))
  obtain ⟨disks, rfl⟩ := hstored.default vars "disks" default hg.get_vars hdefault rfl
  by_cases hne : hostname = ""
  · subst hne
    exact ⟨_, disks, hg.hostVar_empty "disks", by rw [hdefault]; rfl⟩
  rw [hg.hostVar hne, hdefault]
  rcases hhost : hosts.get? hostname with _ | host_vars
  · exact ⟨_, disks, rfl, rfl⟩
  rcases hown : host_vars.get? "disks" with _ | own
  · exact ⟨_, disks, by rw [Option.bind_some, hown]; rfl, rfl⟩
  · obtain ⟨disks', rfl⟩ := hstored.own hosts hostname host_vars "disks" own hg.get_hosts hhost hown rfl
    exact ⟨_, disks', by rw [Option.bind_some, hown]; rfl, rfl⟩

theorem getDisks_ok {inv : Inventory} (hinv : HasDefaults inv) (hstored : NodesStored DisksTyped inv)
    (hostname : String) : ∃ disks, getDisks inv hostname = .ok disks := by
  obtain ⟨v, disks, hread, hdisks⟩ := readDisks_ok hinv hstored hostname
  refine ⟨disks, ?_⟩
  unfold getDisks getNodeResource
  rw [hread]
  exact hdisks

theorem previousDisks_ok {previous : Inventory} (hinv : HasDefaults previous)
    (hstored : NodesStored DisksTyped previous) (hostname : Option String) :
    ∃ disks, previousDisks previous hostname = .ok disks := by
  rcases hostname with _ | hostname
  · obtain ⟨v, disks, hread, hdisks⟩ := readDisks_ok hinv hstored ""
    refine ⟨disks, ?_⟩
    unfold previousDisks
    rw [hread]
    exact hdisks
  · exact getDisks_ok hinv hstored hostname

end Inventory

/-! ## The updates keep the disks readable -/

theorem addNodeVars_stored {inv inv' : Inventory} {hostname : String} {resources : NodeResources}
    {containers : List String} (hinv : NodesStored DisksTyped inv)
    (h : inv.addNodeVars hostname resources.vars containers = .ok inv') : NodesStored DisksTyped inv' := by
  refine addHostToGroup_stored hinv (Dict.forall_get?_iff.1 fun key v hv => ?_) h
  rw [NodeResources.get?_vars] at hv
  exact nodeVar_disksTyped hv

theorem loadInventoryFromConf_stored {expandvars : String → String} {reset_disks : Bool}
    {config : InventoryConfig} {previous inv : Inventory}
    (h : loadInventoryFromConf expandvars reset_disks config previous = .ok inv) :
    NodesStored DisksTyped inv := by
  refine loadInventoryFromConf_inv ?_ ?_ h
  · intro inv hostname r containers inv' hinv hadd
    exact addNodeVars_stored hinv hadd
  · intro inv r hnone
    refine addNodeGroup_stored ?_ r.vars_typed
    intro g hg
    rw [hnone] at hg
    cases hg

theorem run_stored {inv inv' : Inventory} (hinv : NodesStored DisksTyped inv) {op : NodeUpdate}
    (h : op.run inv = .ok inv') : NodesStored DisksTyped inv' := by
  cases op with
  | add_node hostname resources containers =>
    refine addHostToGroup_stored hinv (Dict.forall_get?_iff.1 fun key v hv => ?_) h
    have hnode : nodeVar resources containers key = some v := by
      rw [← hv]
      simp only [Dict.get?_set, Dict.get?_empty, nodeVar]
    exact nodeVar_disksTyped hnode
  | add_container | add_containers =>
    obtain ⟨_, -, h⟩ := bind_eq_ok.1 h
    exact setHostVar_stored hinv (disksTyped_of_ne (by decide) _) h
  | remove_container =>
    obtain ⟨_, -, h⟩ := bind_eq_ok.1 h
    obtain ⟨_, -, h⟩ := bind_eq_ok.1 h
    exact setHostVar_stored hinv (disksTyped_of_ne (by decide) _) h
  | add_disks =>
    obtain ⟨_, -, h⟩ := bind_eq_ok.1 h
    exact setHostVar_stored hinv (fun _ => ⟨_, rfl⟩) h
  | update_disk =>
    obtain ⟨_, -, h⟩ := bind_eq_ok.1 h
    obtain ⟨_, -, h⟩ := bind_eq_ok.1 h
    exact setHostVar_stored hinv (fun _ => ⟨_, rfl⟩) h

/-- An operation on the inventory that does not raise. -/
def NodeUpdate.Step (inv : Inventory) (op : NodeUpdate) (inv' : Inventory) : Prop :=
  op.run inv = .ok inv'

/-- After any run of operations the nodes have defaults, and their disks can be read. -/
theorem readable_of_run {expandvars : String → String} {reset_disks : Bool}
    {config : InventoryConfig} {previous inv₀ inv : Inventory} {ops : List NodeUpdate}
    (hload : loadInventoryFromConf expandvars reset_disks config previous = .ok inv₀)
    (hrun : Run NodeUpdate.Step inv₀ ops inv) : HasDefaults inv ∧ NodesStored DisksTyped inv := by
  refine hrun.inv (I := fun inv => HasDefaults inv ∧ NodesStored DisksTyped inv) ?_
    ⟨loadInventoryFromConf_hasDefaults hload, loadInventoryFromConf_stored hload⟩
  rintro inv₁ op inv₂ ⟨hdefaults, hstored⟩ hstep
  exact ⟨run_hasDefaults hdefaults hstep, run_stored hstored hstep⟩

end ServerlessYarn
