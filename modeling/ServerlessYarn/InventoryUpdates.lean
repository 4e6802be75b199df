/-
  ServerlessYARN model — the inventory updates of the web service
  (`ui/update_inventory_file.py`).

  Every function loads the inventory, changes it and saves it; here it maps the
  loaded inventory to the saved one, and raises without saving.  The containers
  of a host are named `<host>-cont<i>`; the next `i` is read off the last name
  in the list of the host.
-/
import ServerlessYarn.Integers
import ServerlessYarn.Inventory

namespace ServerlessYarn

/-! ## Names of containers -/

/-- `create_container_list`. -/
def createContainerList (host_name : String) (number_of_containers : ℤ) (first_index : ℕ) :
    List String :=
  (List.range' first_index number_of_containers.toNat).map fun i =>
    host_name ++ HOST_CONTAINER_SEPARATOR ++ ("cont" ++ toString i)

/-- `[a-z]` with `re.I`: the ASCII letters and four others that fold to them. -/
def isLetterIgnoreCase (c : Char) : Bool :=
  c.isAlpha || c ∈ ['\u0130', '\u0131', '\u017f', '\u212a']

/-- `re.match(r"([a-z]+)([0-9]+)", s, re.I)`: the number in the second group. -/
def matchIndex (s : List Char) : Option ℕ :=
  let digits := (s.dropWhile isLetterIgnoreCase).takeWhile Char.isDigit
  if s.takeWhile isLetterIgnoreCase = [] ∨ digits = [] then none
  else some (Nat.ofDigitChars 10 digits 0)

/-- `name.split(HOST_CONTAINER_SEPARATOR)[-1]`. -/
def lastSuffix (name : String) : List Char := (name.toList.splitOn '-').getLastD []

/-- The first index for new containers, after the last name in the list. -/
def nextIndex (containers : List String) : ℕ :=
  match (containers.getLast?.bind fun last => matchIndex (lastSuffix last)) with
  | some i => i + 1
  | none => 0

/-! ## Disks of a new host -/

/-- `disk_info`. -/
structure DiskRequest where
  hdd_disks : ℤ
  hdd_disks_path_list : List String
  ssd_disks : ℤ
  ssd_disks_path_list : List String
  create_lvm : Bool
  lvm_path : String

/-- `resolve_disk_path`, for the given expansion of environment variables. -/
def resolveDiskPath (expandvars : String → String) (disk_path : String) : String :=
  let parts := (disk_path.toList.splitOn '/').map fun part =>
    if '$' ∈ part then
      let expanded := (expandvars (String.ofList part)).toList
      if '$' ∈ expanded ∨ ' ' ∈ expanded then none else some expanded
    else some part
  if parts.all Option.isSome then String.ofList (List.intercalate ['/'] (parts.map (·.getD [])))
  else ""

/-- One of the loops of `get_disks_dict`. -/
def addDiskList (expandvars : String → String) (label : String) (number : ℤ) (paths : List String)
    (disks : Dict String DiskInfo) : Py (Dict String DiskInfo) :=
  (List.range number.toNat).foldlM (fun disks i =>
    match paths[i]? with
    | none => .error .indexError
    | some path =>
      let disk_path := resolveDiskPath expandvars path
      if disk_path = "" then .error (.exception "Disk path can't be empty")
      else .ok (disks.set (label ++ toString i) ⟨disk_path, none, none⟩)) disks

/-- `get_disks_dict`. -/
def getDisksDict (expandvars : String → String) (d : DiskRequest) :
    Py (Dict String DiskInfo) := do
  let disks ← addDiskList expandvars "ssd_" d.ssd_disks d.ssd_disks_path_list .empty
  let disks ← addDiskList expandvars "hdd_" d.hdd_disks d.hdd_disks_path_list disks
  if d.create_lvm then
    if d.lvm_path = "" then .error (.exception "LVM path can't be empty")
    else return disks.set "lvm" ⟨resolveDiskPath expandvars d.lvm_path, none, none⟩
  else return disks

/-! ## Updates -/

/-- The arguments of `add_host`. -/
structure NewHost where
  hostname : String
  cpu : ℤ
  mem : ℤ
  disk_info : Option DiskRequest
  energy : Option ℤ
  new_containers : ℤ

def addHost (expandvars : String → String) (h : NewHost) (inv : Inventory) : Py Inventory := do
  let containers := createContainerList h.hostname h.new_containers 0
  let disks ← match h.disk_info with
    | some d => getDisksDict expandvars d
    | none => pure .empty
  inv.addNode h.hostname ⟨h.cpu, h.mem, disks, h.energy⟩ containers

/-- A container with a given name. -/
structure NamedContainer where
  container_name : String
  host : String
deriving DecidableEq

def addContainersToInventory (containers : List NamedContainer) (inv : Inventory) :
    Py Inventory :=
  containers.foldlM (fun inv c => inv.addContainer c.host c.container_name) inv

/-- The loop body of `add_containers_to_hosts`. -/
def addContainersToHost (inv : Inventory) (host : String) (number : ℤ) :
    Py (Inventory × List String) := do
  let containers ← inv.getContainers host
  let added := createContainerList host number (nextIndex containers)
  return (← inv.addContainers host added, added)

def addContainersToHosts (new_containers : Dict String ℤ) (inv : Inventory) :
    Py (Inventory × Dict String (List String)) :=
  new_containers.entries.foldlM (fun (inv, added_containers) h => do
    let (inv, added) ← addContainersToHost inv h.1 h.2
    return (inv, added_containers.set h.1 added)) (inv, .empty)

/-- `re.compile(r"new_[0-9]+", re.IGNORECASE).match(d)`. -/
def matchNewDisk (d : String) : Bool :=
  match d.toList with
  | n :: e :: w :: '_' :: digit :: _ => [n, e, w].map Char.toLower == ['n', 'e', 'w'] && digit.isDigit
  | _ => false

/-- The first id for new disks of a host, above those of its disks `new_<id>`. -/
def nextDiskId (decimals : Decimals) (disks : List String) : Py ℕ :=
  disks.foldlM (fun (disk_id : ℕ) d =>
    if matchNewDisk d then do
      let i ← readInt decimals.reader ((d.toList.splitOn '_').getD 1 [])
      return if (disk_id : ℤ) ≤ i then (i + 1).toNat else disk_id
    else return disk_id) 0

/-- The loop body of `add_disks_to_hosts`. -/
def addDisksToHost (decimals : Decimals) (inv : Inventory) (host : String) (new_disks : List String) :
    Py (Inventory × Dict String DiskInfo) := do
  let disks ← inv.getDisks host
  let existing_disks := disks.entries.map fun d => d.2.path
  let disk_id ← nextDiskId decimals disks.keys
  let added := (new_disks.filter (· ∉ existing_disks)).zipIdx disk_id
  let added_disks := added.foldl (fun (added_disks : Dict String DiskInfo) d =>
    added_disks.set ("new_" ++ toString d.2) ⟨d.1, none, none⟩) .empty
  return (← inv.addDisks host added_disks, added_disks)

def addDisksToHosts (decimals : Decimals) (hosts_to_add_disks : List String) (new_disks : List String)
    (inv : Inventory) : Py (Inventory × Dict String (Dict String DiskInfo)) :=
  hosts_to_add_disks.foldlM (fun (inv, added_disks) host => do
    let (inv, added) ← addDisksToHost decimals inv host new_disks
    return (inv, added_disks.set host added)) (inv, .empty)

def removeHost (host_name : String) (inv : Inventory) : Py Inventory :=
  return inv.removeNode host_name

def removeContainerFromHost (container hostname : String) (inv : Inventory) : Py Inventory :=
  inv.removeContainer hostname container

/-- `update_inventory_disk`, and the script `update_host_disks_bw_inv.py`. -/
def updateInventoryDisk (hostname disk : String) (read_bandwidth_MB write_bandwidth_MB : ℤ)
    (inv : Inventory) : Py Inventory :=
  inv.updateDisk hostname disk read_bandwidth_MB write_bandwidth_MB

/-- An update, with its arguments. -/
inductive InventoryUpdate where
  | addHost (expandvars : String → String) (host : NewHost)
  | addContainersToHosts (new_containers : Dict String ℤ)
  | addContainersToInventory (containers : List NamedContainer)
  | addDisksToHosts (decimals : Decimals) (hosts_to_add_disks new_disks : List String)
  | removeHost (host_name : String)
  | removeContainerFromHost (container hostname : String)
  | updateHostDisksBw (hostname disk : String) (read_bandwidth_MB write_bandwidth_MB : ℤ)

namespace InventoryUpdate

/-- The inventory that the update saves; if it raises, it saves nothing. -/
def run : InventoryUpdate → Inventory → Py Inventory
  | addHost expandvars host, inv => ServerlessYarn.addHost expandvars host inv
  | addContainersToHosts new_containers, inv =>
    Prod.fst <$> ServerlessYarn.addContainersToHosts new_containers inv
  | addContainersToInventory containers, inv =>
    ServerlessYarn.addContainersToInventory containers inv
  | addDisksToHosts decimals hosts new_disks, inv =>
    Prod.fst <$> ServerlessYarn.addDisksToHosts decimals hosts new_disks inv
  | removeHost host_name, inv => ServerlessYarn.removeHost host_name inv
  | removeContainerFromHost container hostname, inv =>
    ServerlessYarn.removeContainerFromHost container hostname inv
  | updateHostDisksBw hostname disk read write, inv =>
    updateInventoryDisk hostname disk read write inv

/-- The client that makes the update takes `ansible_inventory_access_lock`. -/
def locks : InventoryUpdate → Bool
  | updateHostDisksBw .. => false
  | _ => true

/-- The inventory after the update, run alone. -/
def apply (u : InventoryUpdate) (inv : Inventory) : Inventory := (u.run inv).toOption.getD inv

end InventoryUpdate

end ServerlessYarn
