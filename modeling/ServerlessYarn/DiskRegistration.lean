/-
  ServerlessYARN model — the disks of the inventory in the state database
  (`scripts/state_database/add_hosts.py`, `add_disks_to_hosts.py`).

  Both scripts send the disks of a host with a type that they read off the name
  of the disk.  The model ends with the requests they send; the answer of the
  orchestrator is left out.

  * `hostDiskType_le_newDiskType`: a type that `add_hosts.py` finds is also the one
    that `add_disks_to_hosts.py` finds;
  * `added_disks_accepted`: `add_disks_to_hosts.py` accepts every disk that
    `add_disks_to_hosts` put into the inventory, as an SSD;
  * `put_disks_registered_iff`: `add_hosts.py` rejects all of them, so both scripts
    register the disks of a host alike only if none was added.
-/
import ServerlessYarn.InventoryDisks

namespace ServerlessYarn

open Inventory

namespace StateDatabase

/-! ## The type of a disk -/

/-- `text in s`. -/
def hasText (text s : String) : Bool := decide (text.toList <:+: s.toList)

/-- The first of the texts that the name contains gives the type. -/
def diskType (types : List (String × String)) (disk : String) : Py String :=
  match types.find? fun t => hasText t.1 disk with
  | some t => .ok t.2
  | none => .error (.exception (String.join ["Disk ", disk, " has an invalid type"]))

/-- The types of `add_hosts.py`. -/
def hostDiskTypes : List (String × String) := [("ssd", "SSD"), ("hdd", "HDD"), ("lvm", "LVM")]

def hostDiskType : String → Py String := diskType hostDiskTypes

/-- In `add_disks_to_hosts.py`. -/
def newDiskType : String → Py String := diskType (hostDiskTypes ++ [("new", "SSD")])

/-- `new_disk`. -/
structure DiskRecord where
  name : String
  path : String
  max_read : ℤ
  free_read : ℤ
  max_write : ℤ
  free_write : ℤ
  load : ℤ
  type : String
deriving DecidableEq

/-- `disks[disk][bw]`. -/
def bandwidth (bw : String) : Option ℤ → Py ℤ
  | some value => .ok value
  | none => .error (.keyError bw)

/-- The loop body of both scripts. -/
def diskRecord (type : String → Py String) (disk : String) (info : DiskInfo) : Py DiskRecord := do
  let read_bw ← bandwidth "read_bw" info.read_bw
  let write_bw ← bandwidth "write_bw" info.write_bw
  return {
    name := disk
    path := info.path
    max_read := read_bw
    free_read := read_bw
    max_write := write_bw
    free_write := write_bw
    load := 0
    type := ← type disk }

/-! ## Adding a host -/

/-- `put_field_data['resources'][resource]`. -/
structure ResourceAmount where
  max : ℤ
  free : ℤ
deriving DecidableEq

def rescaler_port := "8000"

/-- `put_field_data` of `add_hosts.py`. -/
structure HostRequest where
  name : String
  host : String
  subtype : String
  host_rescaler_ip : String
  host_rescaler_port : String
  resources : Dict String ResourceAmount
  disks : Option (List DiskRecord)

/-- `put_field_data['resources']["disks"]`, if the host has disks. -/
def hostDisks (create_lvm : Bool) : Option (Dict String DiskInfo) → Py (Option (List DiskRecord))
  | none => .ok none
  | some disks =>
    if disks.entries.isEmpty then .ok none
    else some <$> (disks.entries.filter fun d => !create_lvm || hasText "lvm" d.1).mapM fun d =>
      diskRecord hostDiskType d.1 d.2

/-- `add_hosts.py`. -/
def addHosts (create_lvm : Bool) (new_host : String) (host_resources : Dict String ℤ)
    (disks : Option (Dict String DiskInfo)) : Py HostRequest := do
  return {
    name := new_host
    host := new_host
    subtype := "host"
    host_rescaler_ip := new_host
    host_rescaler_port := rescaler_port
    resources := host_resources.mapVal fun resource value =>
      let value := if resource = "cpu" then value * 100 else value
      ⟨value, value⟩
    disks := ← hostDisks create_lvm disks }

/-- `s.replace(' ', '')`. -/
def withoutSpaces (s : String) : String := String.ofList (s.toList.filter (· ≠ ' '))

/-- `hostvars[item].disks | replace(' ','')`, for names and paths without quotes. -/
def launchDisks (disks : Dict String DiskInfo) : Dict String DiskInfo :=
  disks.entries.foldl (fun (read : Dict String DiskInfo) d =>
    read.set (withoutSpaces d.1) { d.2 with path := withoutSpaces d.2.path }) .empty

/-- The task that runs `add_hosts.py` for a host of the inventory. -/
def launchAddHosts (inv : Inventory) (create_lvm : Bool) (host : String)
    (host_resources : Dict String ℤ) : Py HostRequest := do
  let disks ← inv.getDisks host
  addHosts create_lvm host host_resources (some (launchDisks disks))

/-! ## Adding disks to the hosts -/

/-- A request of `add_disks_to_hosts.py`. -/
structure DisksRequest where
  host : String
  disks : List DiskRecord

/-- The loop body of `add_disks_to_hosts.py`, for a host with new disks. -/
def newDisksRequest (inv : Inventory) (host : String) (new_disks : Dict String DiskInfo) :
    Py DisksRequest := do
  let disks ← inv.getDisks host
  return {
    host
    disks := ← (disks.entries.filter (·.1 ∈ new_disks.keys)).mapM fun d =>
      diskRecord newDiskType d.1 d.2 }

/-- `add_disks_to_hosts.py`: one request for each host with new disks. -/
def addDisksToHosts (inv : Inventory) (new_disks : Dict String (Dict String DiskInfo)) :
    Py (List DisksRequest) :=
  (inv.getNodeHostnames.filter (· ∈ new_disks.keys)).mapM fun host => do
    newDisksRequest inv host (← getItem new_disks host)

/-! ## Where both scripts agree -/

/-- A type found by `add_hosts.py` is found by `add_disks_to_hosts.py` too. -/
theorem hostDiskType_le_newDiskType {disk type : String} (h : hostDiskType disk = .ok type) :
    newDiskType disk = .ok type := by
  unfold newDiskType hostDiskType diskType at *
  rw [List.find?_append]
  rcases hfind : hostDiskTypes.find? fun t => hasText t.1 disk with _ | t
  · rw [hfind] at h
    cases h
  · rw [hfind] at h
    rw [hfind, Option.some_or]
    exact h

/-- A disk that both scripts accept gets the same record from both. -/
theorem diskRecord_agree {disk : String} {info : DiskInfo} {r : DiskRecord}
    (h : diskRecord hostDiskType disk info = .ok r) : diskRecord newDiskType disk info = .ok r := by
  unfold diskRecord at *
  simp only [bind_eq_ok] at *
  obtain ⟨read_bw, hread, write_bw, hwrite, type, htype, h⟩ := h
  exact ⟨read_bw, hread, write_bw, hwrite, type, hostDiskType_le_newDiskType htype, h⟩

theorem diskRecord_eq_ok {type : String → Py String} {disk : String} {info : DiskInfo} {r : DiskRecord}
    (h : diskRecord type disk info = .ok r) : r.name = disk ∧ type disk = .ok r.type := by
  unfold diskRecord at h
  simp only [bind_eq_ok, pure_eq_ok] at h
  obtain ⟨_, -, _, -, type', htype, rfl⟩ := h
  exact ⟨rfl, htype⟩

/-- A measured disk is accepted if it has a type. -/
theorem exists_diskRecord {type : String → Py String} {disk : String} {info : DiskInfo} {t : String}
    (hread : info.read_bw.isSome) (hwrite : info.write_bw.isSome) (htype : type disk = .ok t) :
    ∃ r, diskRecord type disk info = .ok r := by
  obtain ⟨read_bw, hread⟩ := Option.isSome_iff_exists.1 hread
  obtain ⟨write_bw, hwrite⟩ := Option.isSome_iff_exists.1 hwrite
  unfold diskRecord
  rw [hread, hwrite, htype]
  exact ⟨_, rfl⟩

/-! ## The type of a new disk -/

theorem mem_newDiskName {disk_id : ℕ} {c : Char} (hc : c ∈ (newDiskName disk_id).toList) :
    c ∈ "new_".toList ∨ c.isDigit := by
  rw [toList_newDiskName, List.mem_append] at hc
  exact hc.imp_right isDigit_of_mem_toDigits_ten

theorem not_hasText_newDiskName {text : String} {disk_id : ℕ} {c : Char} (hc : c ∈ text.toList)
    (hnew : c ∉ "new_".toList) (hdigit : c.isDigit = false) :
    hasText text (newDiskName disk_id) = false := by
  refine decide_eq_false fun htext => ?_
  rcases mem_newDiskName (htext.subset hc) with hmem | hmem
  · exact hnew hmem
  · rw [hdigit] at hmem
    cases hmem

theorem find?_newDiskName (disk_id : ℕ) :
    (hostDiskTypes.find? fun t => hasText t.1 (newDiskName disk_id)) = none := by
  rw [List.find?_eq_none]
  intro t ht
  simp only [hostDiskTypes, List.mem_cons, List.not_mem_nil, or_false] at ht
  rw [Bool.not_eq_true]
  rcases ht with rfl | rfl | rfl
  · exact not_hasText_newDiskName (c := 's') (by decide) (by decide) rfl
  · exact not_hasText_newDiskName (c := 'h') (by decide) (by decide) rfl
  · exact not_hasText_newDiskName (c := 'l') (by decide) (by decide) rfl

/-- `add_hosts.py` rejects every name `new_<id>`. -/
theorem hostDiskType_newDiskName (disk_id : ℕ) (type : String) :
    hostDiskType (newDiskName disk_id) ≠ .ok type := by
  unfold hostDiskType diskType
  rw [find?_newDiskName]
  intro h
  cases h

/-- `add_disks_to_hosts.py` takes it for an SSD. -/
theorem newDiskType_newDiskName (disk_id : ℕ) : newDiskType (newDiskName disk_id) = .ok "SSD" := by
  have hnew : hasText "new" (newDiskName disk_id) = true := by
    refine decide_eq_true ?_
    rw [toList_newDiskName]
    exact (List.prefix_append "new".toList ('_' :: Nat.toDigits 10 disk_id)).isInfix
  have hfind : ([("new", "SSD")].find? fun t => hasText t.1 (newDiskName disk_id)) =
      some ("new", "SSD") := by
    simp only [List.find?_cons, hnew]
  unfold newDiskType diskType
  rw [List.find?_append, find?_newDiskName, Option.none_or, hfind]

theorem withoutSpaces_newDiskName (disk_id : ℕ) : withoutSpaces (newDiskName disk_id) = newDiskName disk_id := by
  unfold withoutSpaces
  rw [List.filter_eq_self.2, String.ofList_toList]
  intro c hc
  refine decide_eq_true ?_
  rintro rfl
  rcases mem_newDiskName hc with h | h
  · exact absurd h (by decide)
  · cases h

theorem mem_launchDisks {disks : Dict String DiskInfo} {disk : String} (hdisk : disk ∈ disks.keys)
    (hspaces : withoutSpaces disk = disk) : disk ∈ (launchDisks disks).keys := by
  obtain ⟨info, hinfo⟩ := Dict.mem_keys_iff.1 hdisk
  unfold launchDisks
  rw [Dict.mem_keys_foldl_set]
  exact .inr ⟨(disk, info), Dict.get?_eq_some_iff.1 hinfo, hspaces.symm⟩

/-- `add_hosts.py` accepts the names of all disks that it sends. -/
theorem hostDisks_accepts {disks : Dict String DiskInfo} {records : Option (List DiskRecord)}
    (h : hostDisks false (some disks) = .ok records) {disk : String} (hdisk : disk ∈ disks.keys) :
    ∃ type, hostDiskType disk = .ok type := by
  obtain ⟨info, hinfo⟩ := Dict.mem_keys_iff.1 hdisk
  have hentry := Dict.get?_eq_some_iff.1 hinfo
  unfold hostDisks at h
  dsimp only at h
  split_ifs at h with hempty
  · rw [List.isEmpty_iff.1 hempty] at hentry
    exact absurd hentry List.not_mem_nil
  · rw [map_eq_pure_bind, bind_eq_ok] at h
    obtain ⟨rs, hrs, -⟩ := h
    obtain ⟨r, -, hr⟩ := mem_of_mapM hrs (List.mem_filter.2 ⟨hentry, rfl⟩)
    exact ⟨r.type, (diskRecord_eq_ok hr).2⟩

/-- `add_disks_to_hosts.py` does not raise for a host if it accepts its new disks. -/
theorem exists_newDisksRequest {inv : Inventory} {host : String} {disks new_disks : Dict String DiskInfo}
    (hdisks : getDisks inv host = .ok disks) (h : ∀ d ∈ disks.entries, d.1 ∈ new_disks.keys →
      ∃ r, diskRecord newDiskType d.1 d.2 = .ok r) :
    ∃ request, newDisksRequest inv host new_disks = .ok request ∧
      ∀ d ∈ disks.entries, d.1 ∈ new_disks.keys →
        ∃ r ∈ request.disks, diskRecord newDiskType d.1 d.2 = .ok r := by
  have hall : ∀ d ∈ disks.entries.filter (·.1 ∈ new_disks.keys),
      ∃ r, diskRecord newDiskType d.1 d.2 = .ok r := by
    intro d hd
    obtain ⟨hd, hnew⟩ := List.mem_filter.1 hd
    exact h d hd (of_decide_eq_true hnew)
  obtain ⟨records, hrecords⟩ := mapM_ok hall
  refine ⟨⟨host, records⟩, ?_, fun d hd hnew => ?_⟩
  · unfold newDisksRequest
    simp only [bind_eq_ok, pure_eq_ok]
    exact ⟨disks, hdisks, records, hrecords, rfl⟩
  · exact mem_of_mapM hrecords (List.mem_filter.2 ⟨hd, decide_eq_true hnew⟩)

end StateDatabase

/-! ## Runs of additions and measurements -/

/-- An update of the disks, with its arguments. -/
inductive DiskUpdate where
  | add_disks (decimals : Decimals) (hosts_to_add_disks new_disks : List String)
  | measure (hostname disk : String) (read_bandwidth_MB write_bandwidth_MB : ℤ)

/-- An update of named hosts that does not raise. -/
def DiskStep (inv : Inventory) (e : DiskUpdate) (inv' : Inventory) : Prop :=
  match e with
  | .add_disks decimals hosts new_disks =>
    (∀ host ∈ hosts, host ≠ "") ∧
      ∃ added_disks, addDisksToHosts decimals hosts new_disks inv = .ok (inv', added_disks)
  | .measure hostname disk read_bw write_bw =>
    hostname ≠ "" ∧ updateInventoryDisk hostname disk read_bw write_bw inv = .ok inv'

/-- The update gives the host a path that none of its disks has. -/
def DiskUpdate.GivesNewPath (inv : Inventory) (host : String) : DiskUpdate → Prop
  | add_disks _ hosts new_disks => host ∈ hosts ∧ ∃ path ∈ new_disks, ¬ HasPath inv host path
  | measure .. => False

/-- No update of the run gives the host a path that none of its disks has by then. -/
def NoNewPath (inv : Inventory) (es : List DiskUpdate) (host : String) : Prop :=
  ∀ es₁ e es₂ inv₁, es = es₁ ++ e :: es₂ → Run DiskStep inv es₁ inv₁ → ¬ e.GivesNewPath inv₁ host

/-- An update of the run put the disk into the entry of the host. -/
def PutDisk (inv : Inventory) (es : List DiskUpdate) (host disk : String) : Prop :=
  ∃ es₁ e es₂ inv₁ inv₂, es = es₁ ++ e :: es₂ ∧ Run DiskStep inv es₁ inv₁ ∧ DiskStep inv₁ e inv₂ ∧
    disk ∈ (disksOf inv₂ host).keys ∧ disk ∉ (disksOf inv₁ host).keys

/-- All disks of the host have been measured. -/
def Measured (inv : Inventory) (host : String) : Prop :=
  ∀ disk info, (disksOf inv host).get? disk = some info → info.read_bw.isSome ∧ info.write_bw.isSome

theorem diskStep_deterministic (inv : Inventory) (e : DiskUpdate) (inv₁ inv₂ : Inventory)
    (h : DiskStep inv e inv₁) (h' : DiskStep inv e inv₂) : inv₁ = inv₂ := by
  cases e with
  | add_disks decimals hosts new_disks =>
    obtain ⟨-, added_disks, h⟩ := h
    obtain ⟨-, added_disks', h'⟩ := h'
    exact congrArg Prod.fst (Except.ok.inj (h.symm.trans h'))
  | measure hostname disk read_bw write_bw => exact Except.ok.inj (h.2.symm.trans h'.2)

/-- A step keeps the names of the disks; the new ones are `new_<id>`, and there are some exactly
    if the host is given a new path. -/
theorem diskStep_keys {inv inv' : Inventory} {e : DiskUpdate} (h : DiskStep inv e inv') (host : String) :
    (∀ disk ∈ (disksOf inv host).keys, disk ∈ (disksOf inv' host).keys) ∧
      (∀ disk ∈ (disksOf inv' host).keys, disk ∈ (disksOf inv host).keys ∨
        ∃ disk_id, disk = newDiskName disk_id) ∧
      ((∃ disk ∈ (disksOf inv' host).keys, disk ∉ (disksOf inv host).keys) ↔ e.GivesNewPath inv host) := by
  cases e with
  | add_disks decimals hosts new_disks =>
    obtain ⟨hne, added_disks, h⟩ := h
    have hgrow := addDisksToHosts_spec hne h host
    exact ⟨fun _ => hgrow.keys, hgrow.names, hgrow.paths⟩
  | measure hostname disk read_bw write_bw =>
    obtain ⟨hne, h⟩ := h
    have hkeys := updateDisk_keys hne h host
    refine ⟨fun name => (hkeys name).2, fun name hname => .inl ((hkeys name).1 hname), ?_⟩
    constructor
    · rintro ⟨name, hname, hnot⟩
      exact hnot ((hkeys name).1 hname)
    · intro hfalse
      cases hfalse

theorem run_keys {inv inv' : Inventory} {es : List DiskUpdate} (hrun : Run DiskStep inv es inv')
    {host disk : String} (hdisk : disk ∈ (disksOf inv host).keys) : disk ∈ (disksOf inv' host).keys :=
  hrun.inv (I := fun inv => disk ∈ (disksOf inv host).keys)
    (fun _ _ _ hdisk hstep => (diskStep_keys hstep host).1 disk hdisk) hdisk

/-- A disk that was put is called `new_<id>` and is still there at the end. -/
theorem PutDisk.spec {inv inv' : Inventory} {es : List DiskUpdate} {host disk : String}
    (hrun : Run DiskStep inv es inv') (h : PutDisk inv es host disk) :
    (∃ disk_id, disk = newDiskName disk_id) ∧ disk ∈ (disksOf inv' host).keys := by
  obtain ⟨es₁, e, es₂, inv₁, inv₂, rfl, hrun₁, hstep, hdisk, hnot⟩ := h
  refine ⟨((diskStep_keys hstep host).2.1 disk hdisk).resolve_left hnot, ?_⟩
  -- the rest of the run starts after that step
  obtain ⟨inv₃, hstep', hrest⟩ := hrun.of_append_cons diskStep_deterministic hrun₁
  obtain rfl := diskStep_deterministic _ _ _ _ hstep hstep'
  exact run_keys hrest hdisk

/-- Something is put on a host exactly if it is given a new path. -/
theorem exists_putDisk_iff {inv inv' : Inventory} {es : List DiskUpdate} {host : String}
    (hrun : Run DiskStep inv es inv') : (∃ disk, PutDisk inv es host disk) ↔ ¬ NoNewPath inv es host := by
  unfold NoNewPath
  push Not
  constructor
  · rintro ⟨disk, es₁, e, es₂, inv₁, inv₂, hes, hrun₁, hstep, hdisk, hnot⟩
    exact ⟨es₁, e, es₂, inv₁, hes, hrun₁, (diskStep_keys hstep host).2.2.1 ⟨disk, hdisk, hnot⟩⟩
  · rintro ⟨es₁, e, es₂, inv₁, rfl, hrun₁, hnew⟩
    obtain ⟨inv₂, hstep, -⟩ := hrun.of_append_cons diskStep_deterministic hrun₁
    obtain ⟨disk, hdisk, hnot⟩ := (diskStep_keys hstep host).2.2.2 hnew
    exact ⟨disk, es₁, e, es₂, inv₁, inv₂, rfl, hrun₁, hstep, hdisk, hnot⟩

/-! ## Registering the added disks -/

open StateDatabase

/-- `add_disks_to_hosts.py` sends a record of the disk, for every dictionary of new disks of
    the host that names it. -/
def AcceptedByAddDisks (inv : Inventory) (es : List DiskUpdate) (inv' : Inventory) (host disk : String)
    (r : DiskRecord) : Prop :=
  ∀ new_disks : Dict String DiskInfo, disk ∈ new_disks.keys →
    (∀ name ∈ new_disks.keys, PutDisk inv es host name) →
      ∃ request, newDisksRequest inv' host new_disks = .ok request ∧ r ∈ request.disks

/-- `add_hosts.py` sends a record of the disk. -/
def AcceptedByAddHosts (inv' : Inventory) (host : String) (r : DiskRecord) : Prop :=
  ∀ host_resources, ∃ request records, launchAddHosts inv' false host host_resources = .ok request ∧
    request.disks = some records ∧ r ∈ records

/-- Both scripts accept every disk put on the host, with the same record. -/
def RegisteredAlike (inv : Inventory) (es : List DiskUpdate) (inv' : Inventory) (host : String) : Prop :=
  ∀ disk, PutDisk inv es host disk → ∃ r : DiskRecord, r.name = disk ∧
    AcceptedByAddDisks inv es inv' host disk r ∧ AcceptedByAddHosts inv' host r

/-- **`add_disks_to_hosts.py` accepts every disk that was added**, as an SSD, once the disks
    of the host have been measured. -/
theorem added_disks_accepted {inv inv' : Inventory} {es : List DiskUpdate} {host disk : String}
    (hrun : Run DiskStep inv es inv') (hmeasured : Measured inv' host) (hput : PutDisk inv es host disk) :
    ∃ r : DiskRecord, r.name = disk ∧ r.type = "SSD" ∧ AcceptedByAddDisks inv es inv' host disk r := by
  obtain ⟨⟨disk_id, hname⟩, hdisk⟩ := hput.spec hrun
  obtain ⟨info, hinfo⟩ := Dict.mem_keys_iff.1 hdisk
  have hentry := Dict.get?_eq_some_iff.1 hinfo
  have hdisks : getDisks inv' host = .ok (disksOf inv' host) := by
    rcases hd : getDisks inv' host with err | disks
    · unfold disksOf at hdisk
      rw [hd] at hdisk
      exact absurd hdisk List.not_mem_nil
    · rw [disksOf_of_ok hd]
  -- the names put on the host are accepted, and their disks have been measured
  have hrecord : ∀ name info, (disksOf inv' host).get? name = some info → PutDisk inv es host name →
      ∃ r, diskRecord newDiskType name info = .ok r := by
    intro name info hinfo hput
    obtain ⟨⟨disk_id, rfl⟩, -⟩ := hput.spec hrun
    obtain ⟨hread, hwrite⟩ := hmeasured _ info hinfo
    exact exists_diskRecord hread hwrite (newDiskType_newDiskName disk_id)
  obtain ⟨r, hr⟩ := hrecord disk info hinfo hput
  obtain ⟨hrname, hrtype⟩ := diskRecord_eq_ok hr
  rw [hname, newDiskType_newDiskName] at hrtype
  refine ⟨r, hrname, (Except.ok.inj hrtype).symm, fun new_disks hnew hall => ?_⟩
  obtain ⟨request, hrequest, hsent⟩ := exists_newDisksRequest hdisks fun d hd hd' =>
    hrecord d.1 d.2 (Dict.get?_eq_some_iff.2 hd) (hall d.1 hd')
  obtain ⟨r', hr', hrecord'⟩ := hsent (disk, info) hentry hnew
  obtain rfl : r = r' := Except.ok.inj (hr.symm.trans hrecord')
  exact ⟨request, hrequest, hr'⟩

/-- `add_hosts.py` sends no record of a disk that was added. -/
theorem added_disks_not_accepted {inv inv' : Inventory} {es : List DiskUpdate} {host disk : String}
    (hrun : Run DiskStep inv es inv') (hput : PutDisk inv es host disk) (r : DiskRecord) :
    ¬ AcceptedByAddHosts inv' host r := by
  obtain ⟨⟨disk_id, rfl⟩, hdisk⟩ := hput.spec hrun
  intro haccepted
  obtain ⟨request, records, h, -⟩ := haccepted .empty
  unfold launchAddHosts addHosts at h
  simp only [bind_eq_ok] at h
  obtain ⟨disks, hdisks, sent, hsent, -⟩ := h
  rw [disksOf_of_ok hdisks] at hdisk
  obtain ⟨type, htype⟩ := hostDisks_accepts hsent (mem_launchDisks hdisk (withoutSpaces_newDiskName disk_id))
  exact hostDiskType_newDiskName disk_id type htype

/-- **The two scripts register the disks alike** exactly when the host is never given a path
    that none of its disks has: every name that is made is rejected by `add_hosts.py`. -/
theorem put_disks_registered_iff {inv inv' : Inventory} {es : List DiskUpdate} {host : String}
    (hrun : Run DiskStep inv es inv') : RegisteredAlike inv es inv' host ↔ NoNewPath inv es host := by
  constructor
  · intro hall
    by_contra hnew
    obtain ⟨disk, hput⟩ := (exists_putDisk_iff hrun).2 hnew
    obtain ⟨r, -, -, haccepted⟩ := hall disk hput
    exact added_disks_not_accepted hrun hput r haccepted
  · intro hnone disk hput
    exact absurd hnone ((exists_putDisk_iff hrun).1 ⟨disk, hput⟩)

/-- One host without disks. -/
def disklessHost : Inventory := Dict.empty.set HOST_GROUP_NAME
  ⟨some (Dict.empty.set "host0" .empty),
    some ((Dict.empty.set "disks" (.disks .empty)).set "containers" (.containers []))⟩

/-- A directory is added to the host as a disk, and measured. -/
def oneDiskAdded : List DiskUpdate :=
  [.add_disks asciiDecimals ["host0"] ["/data/new"], .measure "host0" "new_0" 500 400]

theorem oneDiskAdded_run : ∃ inv', Run DiskStep disklessHost oneDiskAdded inv' ∧ Measured inv' "host0" := by
  obtain ⟨inv₁, added_disks, hadd⟩ : ∃ inv₁ added_disks,
      addDisksToHosts asciiDecimals ["host0"] ["/data/new"] disklessHost = .ok (inv₁, added_disks) := ⟨_, _, rfl⟩
  obtain ⟨inv', hmeasure⟩ : ∃ inv', updateInventoryDisk "host0" "new_0" 500 400 inv₁ = .ok inv' := by
    cases hadd
    exact ⟨_, rfl⟩
  have hne : ∀ host ∈ ["host0"], host ≠ "" := by decide
  refine ⟨inv', .cons ⟨hne, added_disks, hadd⟩ (.single ⟨by decide, hmeasure⟩), ?_⟩
  cases hadd
  cases hmeasure
  refine Dict.forall_get?_iff.2 ?_
  intro d hd
  obtain rfl := List.mem_singleton.1 hd
  exact ⟨rfl, rfl⟩

/-- The host is given a new path, so the scripts do not agree. -/
theorem one_disk_registered_iff : ∃ inv', Run DiskStep disklessHost oneDiskAdded inv' ∧
    (RegisteredAlike disklessHost oneDiskAdded inv' "host0" ↔ NoNewPath disklessHost oneDiskAdded "host0") := by
  obtain ⟨inv', hrun, -⟩ := oneDiskAdded_run
  exact ⟨inv', hrun, put_disks_registered_iff hrun⟩

/-- The next launch that adds hosts raises for this one. -/
theorem added_disk_not_registered : ¬ ∀ (inv : Inventory) (es : List DiskUpdate) (inv' : Inventory)
    (host : String), Run DiskStep inv es inv' → Measured inv' host → RegisteredAlike inv es inv' host := by
  intro hall
  obtain ⟨inv', hrun, hmeasured⟩ := oneDiskAdded_run
  have hgiven : ¬ NoNewPath disklessHost oneDiskAdded "host0" := by
    intro hnone
    refine hnone [] _ _ disklessHost rfl .nil ⟨List.mem_singleton_self _, "/data/new",
      List.mem_singleton_self _, ?_⟩
    rw [hasPath_iff]
    exact List.not_mem_nil
  obtain ⟨disk, hput⟩ := (exists_putDisk_iff hrun).2 hgiven
  obtain ⟨r, -, -, haccepted⟩ := hall disklessHost oneDiskAdded inv' "host0" hrun hmeasured disk hput
  exact added_disks_not_accepted hrun hput r haccepted

end ServerlessYarn
