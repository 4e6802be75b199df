/-
  ServerlessYARN model — the removal of hosts
  (`ui/views/hosts/operations.py`: `processRemoveHosts`, with
  `processRemoveContainers`, `remove_containers_task` and `remove_host_task`).

  The view looks up the containers of every selected host, asks for their
  removal and then launches the task that removes the host.  It calls
  `processRemoveContainers` without the keyword `selected_structures`, which
  raises, so that nothing is launched.  All external calls succeed here.

  * `processRemoveHosts_raises`: a non-empty selection raises `KeyError`;
  * `removeHostTask_hostnames`: nor would `remove_host_task` remove a host from the
    inventory, if it were launched;
  * `hosts_never_removed`: after the view, and any run of the launched tasks, the
    selected hosts are still listed.
-/
import ServerlessYarn.InventoryUpdates
import ServerlessYarn.Lib.Fallible
import ServerlessYarn.Lib.Run

namespace ServerlessYarn

open Fallible Inventory

/-! ## The state database, and the tasks -/

inductive StructureSubtype where
  | host | container | application
deriving DecidableEq

/-- A structure of the state database; `disk_path` is
    `structure['resources']['disk']['path']`, if there is one. -/
structure DbStructure where
  subtype : StructureSubtype
  name : String
  host : String
  disk_path : Option String
deriving DecidableEq

/-- An argument that a view passes by position. -/
inductive PyArg where
  | str (s : String)
  | list (l : List String)
  | httpRequest
deriving DecidableEq

/-- `url + s`. -/
def PyArg.add : PyArg → String → Py String
  | .str url, s => .ok (url ++ s)
  | _, _ => .error .typeError

/-- A task that the removal launches. -/
inductive RemovalTask where
  | remove_containers_task (url : PyArg) (container_list : List DbStructure)
  | remove_host_task (full_url host_name : String)
  | stop_container (host container_name bind_path : String)
deriving DecidableEq

/-- The database, the inventory, and the launched tasks that have not run yet. -/
structure HostsWorld where
  db : List DbStructure
  inventory : Inventory
  launched : List RemovalTask

abbrev HostsTask (α : Type) := EStateM PyError HostsWorld α

namespace HostsTask

/-- `….delay(…)`, with `register_task`. -/
def launch (t : RemovalTask) : HostsTask Unit :=
  modify fun w => { w with launched := w.launched ++ [t] }

def ofPy {α : Type} : Py α → HostsTask α
  | .ok a => pure a
  | .error err => throw err

/-- `web_request(…, "delete", …)`, which succeeds. -/
def deleteFromDb (subtype : StructureSubtype) (name : String) : HostsTask Unit :=
  modify fun w => { w with db := w.db.filter fun s => ¬ (s.subtype = subtype ∧ s.name = name) }

/-- A function of `update_inventory_file.py`, under the lock. -/
def updateInventory (update : Inventory → Py Inventory) : HostsTask Unit := do
  let w ← get
  let inv ← ofPy (update w.inventory)
  set { w with inventory := inv }

/-- `remove_containers_task`. -/
def removeContainersTask (url : PyArg) (container_list : List DbStructure) : HostsTask Unit := do
  container_list.forM fun c => do
    let _ ← ofPy (url.add ("container/" ++ c.name))
    deleteFromDb .container c.name
  container_list.forM fun c => launch (.stop_container c.host c.name (c.disk_path.getD ""))

/-- `remove_host_task`. -/
def removeHostTask (host_name : String) : HostsTask Unit := do
  deleteFromDb .host host_name
  updateInventory (ServerlessYarn.removeHost host_name)

/-- A launched task. -/
def runTask : RemovalTask → HostsTask Unit
  | .remove_containers_task url container_list => removeContainersTask url container_list
  | .remove_host_task _ host_name => removeHostTask host_name
  | .stop_container host container_name _ => updateInventory (removeContainerFromHost container_name host)

/-! ## The views -/

/-- `getContainersFromHost`. -/
def getContainersFromHost (db : List DbStructure) (host_name : String) : List DbStructure :=
  db.filter fun s => s.subtype = .container ∧ s.host = host_name

/-- `s.strip(c)`. -/
def stripChar (c : Char) (s : List Char) : List Char :=
  ((s.dropWhile (· = c)).reverse.dropWhile (· = c)).reverse

/-- `s.strip()`, for the spaces of ASCII. -/
def stripSpace (s : List Char) : List Char :=
  ((s.dropWhile Char.isWhitespace).reverse.dropWhile Char.isWhitespace).reverse

/-- The name and the host of an entry `(name,host)` of `selected_structures`. -/
def parseContainer (container : String) : Py (String × String) :=
  match (stripChar ')' (stripChar '(' container.toList)).splitOn ',' with
  | name :: host :: _ =>
    let part (s : List Char) := String.ofList (stripChar '\'' (stripSpace s))
    .ok (part name, part host)
  | _ => .error .indexError

/-- `processRemoveContainers`; the containers are looked up in the database. -/
def processRemoveContainers (_request url : PyArg) (kwargs : Dict String (List String)) :
    HostsTask Unit := do
  let w ← get
  let db_containers := w.db.filter fun s => s.subtype = .container
  let selected_structures ← ofPy (getItem kwargs "selected_structures")
  let selected ← ofPy (selected_structures.mapM parseContainer)
  let container_list := selected.filterMap fun c =>
    db_containers.find? fun db_cont => db_cont.name = c.1 ∧ db_cont.host = c.2
  launch (.remove_containers_task url container_list)

/-- The body of the loop of `processRemoveHosts`, for a text of the structures of the
    database. -/
def processRemoveHost (repr : DbStructure → String) (url host : String) : HostsTask Unit := do
  let w ← get
  let container_list := (getContainersFromHost w.db host).map fun container =>
    String.join ["(", repr container, ",", host, ")"]
  -- `processRemoveContainers(url, container_list)`
  processRemoveContainers (.str url) (.list container_list) .empty
  launch (.remove_host_task (String.join [url, "host/", host]) host)

def processRemoveHosts (repr : DbStructure → String) (url : String)
    (selected_structures : List String) : HostsTask Unit :=
  selected_structures.forM (processRemoveHost repr url)

end HostsTask

/-- A launched task runs; what it did before it raised stays done. -/
inductive RemovalStep (w : HostsWorld) : RemovalTask → HostsWorld → Prop
  | run (t : RemovalTask) (h : t ∈ w.launched) :
      RemovalStep w t (after (HostsTask.runTask t) { w with launched := w.launched.erase t })

/-! ## What a removal is for -/

/-- The variables of a host, as the inventory stores them. -/
def hostEntry (inv : Inventory) (host : String) : Option HostVars :=
  ((inv.get? HOST_GROUP_NAME).bind (·.hosts)).bind (·.get? host)

/-- The defaults of the group of the nodes. -/
def nodeDefaults (inv : Inventory) : Option HostVars := (inv.get? HOST_GROUP_NAME).bind (·.vars)

/-- The selected hosts and their containers are gone, and nothing else is. -/
structure RemovesHosts (selected : List String) (w w' : HostsWorld) : Prop where
  containers : ∀ s, s.subtype = .container → (s ∈ w'.db ↔ s ∈ w.db ∧ s.host ∉ selected)
  hosts : ∀ host ∈ selected, host ∉ w'.inventory.getNodeHostnames
  others : ∀ host ∉ selected, hostEntry w'.inventory host = hostEntry w.inventory host
  defaults : nodeDefaults w'.inventory = nodeDefaults w.inventory

/-! ## What the view does -/

open HostsTask

/-- The call of `processRemoveContainers` lacks a keyword. -/
theorem processRemoveContainers_raises (request url : PyArg) (w : HostsWorld) :
    processRemoveContainers request url .empty w = .error (.keyError "selected_structures") w := rfl

/-- **A non-empty selection raises, before anything is launched.** -/
theorem processRemoveHosts_raises (repr : DbStructure → String) (url : String) {selected : List String}
    (hne : selected ≠ []) (w : HostsWorld) :
    processRemoveHosts repr url selected w = .error (.keyError "selected_structures") w := by
  obtain ⟨host, rest, rfl⟩ := List.exists_cons_of_ne_nil hne
  rfl

/-- The key is popped from the group of the nodes: the hosts are still listed, unless
    the host is called `hosts`. -/
theorem removeNode_hostnames {hostname : String} (hname : hostname ≠ "hosts") (inv : Inventory) :
    (inv.removeNode hostname).getNodeHostnames = inv.getNodeHostnames := by
  unfold Inventory.removeNode Inventory.removeHost getNodeHostnames
  rw [Dict.get?_modify_self]
  rcases inv.get? HOST_GROUP_NAME with _ | g
  · rfl
  · simp only [Option.map_some, Option.bind_some, if_neg hname]
    split_ifs <;> rfl

theorem removeHostTask_hostnames {host_name : String} (hname : host_name ≠ "hosts") (w : HostsWorld) :
    (after (removeHostTask host_name) w).inventory.getNodeHostnames = w.inventory.getNodeHostnames :=
  removeNode_hostnames hname w.inventory

/-- **A removal of hosts never removes them.** -/
theorem hosts_never_removed (repr : DbStructure → String) (url : String) {selected : List String}
    {w w' : HostsWorld} {ts : List RemovalTask} (hne : selected ≠ [])
    (hexist : ∀ host ∈ selected, host ∈ w.inventory.getNodeHostnames) (hidle : w.launched = [])
    (hrun : Run RemovalStep (after (processRemoveHosts repr url selected) w) ts w') :
    ¬ RemovesHosts selected w w' := by
  have hview : after (processRemoveHosts repr url selected) w = w := by
    unfold after
    rw [processRemoveHosts_raises repr url hne w]
  rw [hview] at hrun
  -- no task was launched, so none runs
  have hend : w' = w := by
    refine hrun.inv (I := fun s => s = w) ?_ rfl
    intro s t s' hs hstep
    cases hstep with
    | run ht =>
      rw [hs, hidle] at ht
      cases ht
  obtain ⟨host, rest, rfl⟩ := List.exists_cons_of_ne_nil hne
  intro hremoves
  rw [hend] at hremoves
  exact hremoves.hosts host List.mem_cons_self (hexist host List.mem_cons_self)

/-- The host `host0` with one container. -/
def HostsWorld.one : HostsWorld where
  db := [⟨.host, "host0", "host0", none⟩, ⟨.container, "host0-cont0", "host0", none⟩]
  inventory := Dict.empty.set HOST_GROUP_NAME ⟨some (Dict.empty.set "host0" .empty), some .empty⟩
  launched := []

theorem hosts_never_removed_one : ¬ RemovesHosts ["host0"] .one .one :=
  hosts_never_removed (fun s => s.name) "http://localhost:5000/structure/" (by simp) (by decide +kernel) rfl .nil

/-- The removal of `host0` raises, and leaves everything as it is. -/
theorem host_not_removed : ∃ w',
    processRemoveHosts (fun s => s.name) "http://localhost:5000/structure/" ["host0"] .one =
      .error (.keyError "selected_structures") w' ∧
    w'.launched = [] ∧ "host0" ∈ w'.inventory.getNodeHostnames ∧ ¬ RemovesHosts ["host0"] .one w' := by
  have hlisted : "host0" ∈ HostsWorld.one.inventory.getNodeHostnames := by decide +kernel
  refine ⟨.one, rfl, rfl, hlisted, fun hremoves => ?_⟩
  exact hremoves.hosts "host0" List.mem_cons_self hlisted

end ServerlessYarn
