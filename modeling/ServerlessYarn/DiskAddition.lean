/-
  ServerlessYARN model — which disks `add_disks_to_hosts` adds
  (`ui/update_inventory_file.py`, with `add_disks` of `manage_inventory.py`).

  A path is compared with the disks that the host had at the start, and a host that is
  given twice is visited twice.  The limit that an interpreter puts on the digits of an integer,
  which only an id of thousands of digits meets, is left out.

  * `addDisksToHost_ok_iff`, `addDisksLoop_ok_iff`: when a disk of a host has a name that
    cannot be numbered, nothing is added;
  * `HostResult`: what the visit of a host adds to its disks;
  * `add_disks_exact_iff`: when each new path becomes one disk, and is returned.
-/
import ServerlessYarn.DiskRegistration

namespace ServerlessYarn

open Inventory

/-! ## What should be added -/

/-- A new disk of the host, with its path. -/
def NewDisk (inv inv' : Inventory) (host disk path : String) : Prop :=
  disk ∉ (disksOf inv host).keys ∧ ∃ info, (disksOf inv' host).get? disk = some info ∧ info.path = path

/-- Every selected host gets one disk for each path that is new there, no other disk
    changes, and what was added is returned. -/
structure DisksExact (hosts new_disks : List String) (inv inv' : Inventory)
    (added_disks : Dict String (Dict String DiskInfo)) : Prop where
  keeps : ∀ host disk info, (disksOf inv host).get? disk = some info →
    (disksOf inv' host).get? disk = some info
  once : ∀ host ∈ hosts, ∀ path ∈ new_disks, ¬ HasPath inv host path →
    ∃! disk, NewDisk inv inv' host disk path
  only : ∀ host disk path, NewDisk inv inv' host disk path →
    host ∈ hosts ∧ path ∈ new_disks ∧ ¬ HasPath inv host path
  returned_hosts : ∀ host, host ∈ added_disks.keys ↔ host ∈ hosts
  returned : ∀ host added, added_disks.get? host = some added → ∀ disk,
    added.get? disk = if disk ∈ (disksOf inv host).keys then none else (disksOf inv' host).get? disk

/-- The disks are added exactly. -/
def AddsExactly (decimals : Decimals) (hosts new_disks : List String) (inv : Inventory) : Prop :=
  ∃ inv' added_disks, addDisksToHosts decimals hosts new_disks inv = .ok (inv', added_disks) ∧
    DisksExact hosts new_disks inv inv' added_disks

/-! ## When nothing is raised -/

/-- `int` reads the number of every disk `new_[0-9]+…`. -/
def NumberedDisks (decimals : Decimals) (disks : List String) : Prop :=
  ∀ d ∈ disks, matchNewDisk d = true → ∃ i, readInt decimals.reader ((d.toList.splitOn '_').getD 1 []) = .ok i

/-- The host is in the inventory. -/
def Listed (inv : Inventory) (host : String) : Prop :=
  ∃ g hosts vars, inv.get? HOST_GROUP_NAME = some g ∧ g.hosts = some hosts ∧ hosts.get? host = some vars

/-- Disks can be added to the host: it is in the inventory, and its disks can be read and
    numbered. -/
structure Addable (decimals : Decimals) (inv : Inventory) (host : String) : Prop where
  listed : Listed inv host
  readable : ∃ disks, getDisks inv host = .ok disks ∧ NumberedDisks decimals disks.keys

variable {decimals : Decimals}

theorem nextDiskId_ok_iff {disks : List String} :
    (∃ disk_id, nextDiskId decimals disks = .ok disk_id) ↔ NumberedDisks decimals disks := by
  suffices hgen : ∀ (disks : List String) (first : ℕ), (∃ disk_id, disks.foldlM (fun (disk_id : ℕ) d =>
      if matchNewDisk d then do
        let i ← readInt decimals.reader ((d.toList.splitOn '_').getD 1 [])
        return if (disk_id : ℤ) ≤ i then (i + 1).toNat else disk_id
      else return disk_id) first = .ok disk_id) ↔ NumberedDisks decimals disks from hgen disks 0
  intro disks
  induction disks with
  | nil =>
    intro first
    exact ⟨fun _ d hd => absurd hd List.not_mem_nil, fun _ => ⟨first, rfl⟩⟩
  | cons d disks ih =>
    intro first
    unfold NumberedDisks
    rw [List.foldlM_cons, List.forall_mem_cons]
    by_cases hmatch : matchNewDisk d = true
    · rw [if_pos hmatch]
      constructor
      · rintro ⟨disk_id, h⟩
        obtain ⟨next, hnext, h⟩ := bind_eq_ok.1 h
        obtain ⟨i, hi, -⟩ := bind_eq_ok.1 hnext
        exact ⟨fun _ => ⟨i, hi⟩, (ih next).1 ⟨disk_id, h⟩⟩
      · rintro ⟨hd, hrest⟩
        obtain ⟨i, hi⟩ := hd hmatch
        obtain ⟨disk_id, h⟩ := (ih (if (first : ℤ) ≤ i then (i + 1).toNat else first)).2 hrest
        refine ⟨disk_id, bind_eq_ok.2 ⟨_, bind_eq_ok.2 ⟨i, hi, rfl⟩, h⟩⟩
    · rw [if_neg hmatch]
      constructor
      · rintro ⟨disk_id, h⟩
        exact ⟨fun h => absurd h hmatch, (ih first).1 ⟨disk_id, h⟩⟩
      · rintro ⟨-, hrest⟩
        exact (ih first).2 hrest

theorem setHostVar_ok_iff {inv : Inventory} {host key : String} {v : InvValue} (hne : host ≠ "") :
    (∃ inv', setHostVar inv HOST_GROUP_NAME key v host = .ok inv') ↔ Listed inv host := by
  simp only [setHostVar_eq_ok hne]
  constructor
  · rintro ⟨inv', g, hosts, vars, hg, hhosts, hvars, -⟩
    exact ⟨g, hosts, vars, hg, hhosts, hvars⟩
  · rintro ⟨g, hosts, vars, hg, hhosts, hvars⟩
    exact ⟨_, g, hosts, vars, hg, hhosts, hvars, rfl⟩

/-- The paths that are compared with nothing but the disks of the start. -/
def newPaths (disks : Dict String DiskInfo) (new_disks : List String) : List String :=
  new_disks.filter (· ∉ disks.entries.map fun d => d.2.path)

/-- What the loop body of `add_disks_to_hosts` adds, from this id on. -/
def addedDisks (disks : Dict String DiskInfo) (new_disks : List String) (disk_id : ℕ) :
    Dict String DiskInfo :=
  ((newPaths disks new_disks).zipIdx disk_id).foldl (fun (added_disks : Dict String DiskInfo) d =>
    added_disks.set (newDiskName d.2) ⟨d.1, none, none⟩) .empty

/-- The visit of a host whose disks can be read. -/
theorem addDisksToHost_eq {inv : Inventory} {host : String} {new_disks : List String}
    {disks : Dict String DiskInfo} {disk_id : ℕ} (hdisks : getDisks inv host = .ok disks)
    (hid : nextDiskId decimals disks.keys = .ok disk_id) :
    addDisksToHost decimals inv host new_disks =
      (setHostVar inv HOST_GROUP_NAME "disks"
        (.disks (disks.update (addedDisks disks new_disks disk_id))) host).map
          fun inv' => (inv', addedDisks disks new_disks disk_id) := by
  unfold addDisksToHost addDisks
  rw [hdisks]
  simp only [bind, Except.bind]
  rw [hid]
  rfl

/-- A host can be visited exactly when disks can be added to it. -/
theorem addDisksToHost_ok_iff {inv : Inventory} {host : String} {new_disks : List String}
    (hne : host ≠ "") : (∃ r, addDisksToHost decimals inv host new_disks = .ok r) ↔ Addable decimals inv host := by
  constructor
  · rintro ⟨⟨inv', added⟩, h⟩
    unfold addDisksToHost addDisks at h
    simp only [bind_eq_ok, pure_eq_ok, Prod.mk.injEq] at h
    obtain ⟨disks, hdisks, disk_id, hid, inv₁, ⟨current_disks, -, hset⟩, -⟩ := h
    exact ⟨(setHostVar_ok_iff hne).1 ⟨inv₁, hset⟩, disks, hdisks, nextDiskId_ok_iff.1 ⟨disk_id, hid⟩⟩
  · rintro ⟨hlisted, disks, hdisks, hnumbered⟩
    obtain ⟨disk_id, hid⟩ := nextDiskId_ok_iff.2 hnumbered
    rw [addDisksToHost_eq hdisks hid]
    obtain ⟨inv', hset⟩ := (setHostVar_ok_iff (v := .disks (disks.update
      (addedDisks disks new_disks disk_id))) hne).2 hlisted
    exact ⟨_, congrArg (Except.map _) hset⟩

/-! ## The visit of a host -/

theorem newDiskName_injective : Function.Injective newDiskName := by
  intro i j h
  have hi := readInt_newDiskName asciiDecimals i
  rw [h, readInt_newDiskName] at hi
  cases hi
  rfl

theorem addedDisks_entries (disks : Dict String DiskInfo) (new_disks : List String) (disk_id : ℕ) :
    (addedDisks disks new_disks disk_id).entries =
      ((newPaths disks new_disks).zipIdx disk_id).map fun d => (newDiskName d.2, ⟨d.1, none, none⟩) := by
  have hnodup : (((newPaths disks new_disks).zipIdx disk_id).map fun d => newDiskName d.2).Nodup := by
    have hcomp : (fun d : String × ℕ => newDiskName d.2) = newDiskName ∘ Prod.snd := rfl
    rw [hcomp, ← List.map_map, List.zipIdx_map_snd]
    exact List.Nodup.map newDiskName_injective List.nodup_range'
  have hentries := Dict.entries_foldl_set (d := Dict.empty)
    (g := fun d : String × ℕ => (⟨d.1, none, none⟩ : DiskInfo)) hnodup fun _ _ => List.not_mem_nil
  exact hentries

theorem addedDisks_paths (disks : Dict String DiskInfo) (new_disks : List String) (disk_id : ℕ) :
    ((addedDisks disks new_disks disk_id).entries.map fun d => d.2.path) = newPaths disks new_disks := by
  rw [addedDisks_entries, List.map_map]
  exact List.zipIdx_map_fst _ _

/-- What a host has gained: new names, one for every path that it did not have, each time
    that the path is given. -/
structure HostResult (inv inv' : Inventory) (host : String) (new_disks : List String)
    (gained : Dict String DiskInfo) : Prop where
  disks : ∀ disk, (disksOf inv' host).get? disk = (gained.get? disk).or ((disksOf inv host).get? disk)
  fresh : ∀ disk ∈ gained.keys, disk ∉ (disksOf inv host).keys
  paths : (gained.entries.map fun d => d.2.path) = newPaths (disksOf inv host) new_disks

/-- What a visit writes. -/
theorem addDisksToHost_writes {inv inv' : Inventory} {host : String} {new_disks : List String}
    {added : Dict String DiskInfo} (hne : host ≠ "")
    (h : addDisksToHost decimals inv host new_disks = .ok (inv', added)) :
    (∃ disk_id, added = addedDisks (disksOf inv host) new_disks disk_id) ∧
      setHostVar inv HOST_GROUP_NAME "disks" (.disks ((disksOf inv host).update added)) host =
        .ok inv' := by
  obtain ⟨-, disks, hdisks, hnumbered⟩ := (addDisksToHost_ok_iff hne).1 ⟨_, h⟩
  obtain ⟨disk_id, hid⟩ := nextDiskId_ok_iff.2 hnumbered
  rw [addDisksToHost_eq hdisks hid] at h
  cases hset : setHostVar inv HOST_GROUP_NAME "disks"
      (.disks (disks.update (addedDisks disks new_disks disk_id))) host with
  | error e =>
    rw [hset] at h
    cases h
  | ok inv₁ =>
    rw [hset] at h
    cases h
    rw [disksOf_of_ok hdisks]
    exact ⟨⟨disk_id, rfl⟩, hset⟩

theorem addDisksToHost_result {inv inv' : Inventory} {host : String} {new_disks : List String}
    {added : Dict String DiskInfo} (hne : host ≠ "")
    (h : addDisksToHost decimals inv host new_disks = .ok (inv', added)) :
    HostResult inv inv' host new_disks added := by
  have hgains := addDisksToHost_spec hne h
  refine ⟨hgains.disks, fun disk hdisk => (hgains.names disk hdisk).2, ?_⟩
  obtain ⟨⟨disk_id, rfl⟩, -⟩ := addDisksToHost_writes hne h
  exact addedDisks_paths _ _ _

theorem mem_newPaths {inv : Inventory} {host path : String} {new_disks : List String} :
    path ∈ newPaths (disksOf inv host) new_disks ↔ path ∈ new_disks ∧ ¬ HasPath inv host path := by
  rw [hasPath_iff, newPaths, List.mem_filter, decide_eq_true_eq]

theorem count_newPaths {inv : Inventory} {host path : String} {new_disks : List String}
    (hnot : ¬ HasPath inv host path) :
    (newPaths (disksOf inv host) new_disks).count path = new_disks.count path := by
  rw [hasPath_iff] at hnot
  exact List.count_filter (decide_eq_true hnot)

namespace HostResult

variable {inv inv' : Inventory} {host : String} {new_disks : List String} {gained : Dict String DiskInfo}

theorem newDisk_iff (h : HostResult inv inv' host new_disks gained) {disk path : String} :
    NewDisk inv inv' host disk path ↔ ∃ info, gained.get? disk = some info ∧ info.path = path := by
  unfold NewDisk
  rw [h.disks]
  constructor
  · rintro ⟨hnot, info, hinfo, hpath⟩
    rw [Dict.get?_eq_none_iff.2 hnot, Option.or_none] at hinfo
    exact ⟨info, hinfo, hpath⟩
  · rintro ⟨info, hinfo, hpath⟩
    refine ⟨h.fresh disk (Dict.mem_keys_of_get? hinfo), info, ?_, hpath⟩
    rw [hinfo, Option.some_or]

/-- A path becomes as many disks as it is given times. -/
theorem existsUnique_newDisk_iff (h : HostResult inv inv' host new_disks gained) {path : String}
    (hnot : ¬ HasPath inv host path) :
    (∃! disk, NewDisk inv inv' host disk path) ↔ new_disks.count path = 1 := by
  simp only [h.newDisk_iff]
  rw [Dict.existsUnique_key_iff, h.paths, count_newPaths hnot]

theorem gained_eq_empty (h : HostResult inv inv' host new_disks gained)
    (hnone : ∀ path ∈ new_disks, HasPath inv host path) : gained = .empty := by
  have hpaths : newPaths (disksOf inv host) new_disks = [] := by
    rw [List.eq_nil_iff_forall_not_mem]
    intro path hpath
    obtain ⟨hmem, hnot⟩ := mem_newPaths.1 hpath
    exact hnot (hnone path hmem)
  have hgained := h.paths
  rw [hpaths] at hgained
  exact Dict.ext (List.map_eq_nil_iff.1 hgained)

theorem keeps (h : HostResult inv inv' host new_disks gained) {disk : String} {info : DiskInfo}
    (hinfo : (disksOf inv host).get? disk = some info) : (disksOf inv' host).get? disk = some info := by
  have hnot : disk ∉ gained.keys := fun hgained =>
    h.fresh disk hgained (Dict.mem_keys_of_get? hinfo)
  rw [h.disks, Dict.get?_eq_none_iff.2 hnot, Option.none_or, hinfo]

theorem of_newDisk (h : HostResult inv inv' host new_disks gained) {disk path : String}
    (hdisk : NewDisk inv inv' host disk path) : path ∈ new_disks ∧ ¬ HasPath inv host path := by
  obtain ⟨info, hinfo, rfl⟩ := h.newDisk_iff.1 hdisk
  rw [← mem_newPaths, ← h.paths]
  exact List.mem_map.2 ⟨_, Dict.get?_eq_some_iff.1 hinfo, rfl⟩

/-- After the visit, the host has all paths. -/
theorem hasPath (h : HostResult inv inv' host new_disks gained) {path : String} (hpath : path ∈ new_disks) :
    HasPath inv' host path := by
  by_cases hold : HasPath inv host path
  · obtain ⟨disk, info, hinfo, rfl⟩ := hold
    exact ⟨disk, info, h.keeps hinfo, rfl⟩
  · have hmem : path ∈ gained.entries.map fun d => d.2.path := by
      rw [h.paths]
      exact mem_newPaths.2 ⟨hpath, hold⟩
    obtain ⟨⟨disk, info⟩, hentry, rfl⟩ := List.mem_map.1 hmem
    refine ⟨disk, info, ?_, rfl⟩
    rw [h.disks, Dict.get?_eq_some_iff.2 hentry, Option.some_or]

/-- The gained disks are read off the inventories. -/
theorem gained_get? (h : HostResult inv inv' host new_disks gained) (disk : String) :
    gained.get? disk =
      if disk ∈ (disksOf inv host).keys then none else (disksOf inv' host).get? disk := by
  split_ifs with hdisk
  · rw [Dict.get?_eq_none_iff]
    exact fun hgained => h.fresh disk hgained hdisk
  · rw [h.disks, Dict.get?_eq_none_iff.2 hdisk, Option.or_none]

/-- A second visit adds nothing. -/
theorem gained_again {inv₁ : Inventory} {again : Dict String DiskInfo}
    (h : HostResult inv inv₁ host new_disks gained) (h' : HostResult inv₁ inv' host new_disks again) :
    again = .empty :=
  h'.gained_eq_empty fun _ hpath => h.hasPath hpath

/-- A visit of a host that was not changed before. -/
theorem of_eq {inv₁ : Inventory} (h : HostResult inv₁ inv' host new_disks gained)
    (hsame : disksOf inv₁ host = disksOf inv host) : HostResult inv inv' host new_disks gained := by
  refine ⟨fun disk => ?_, fun disk hdisk => ?_, ?_⟩
  · rw [h.disks, hsame]
  · rw [← hsame]
    exact h.fresh disk hdisk
  · rw [h.paths, hsame]

end HostResult

/-! ## The loop over the hosts -/

/-- The loop of `add_disks_to_hosts`, after some hosts. -/
def addDisksLoop (decimals : Decimals) (new_disks hosts : List String) (inv : Inventory)
    (before : Dict String (Dict String DiskInfo)) : Py (Inventory × Dict String (Dict String DiskInfo)) :=
  hosts.foldlM (fun (inv, added_disks) host => do
    let (inv, added) ← addDisksToHost decimals inv host new_disks
    return (inv, added_disks.set host added)) (inv, before)

section
variable {new_disks hosts : List String} {inv inv' : Inventory} {host : String}
  {before added_disks : Dict String (Dict String DiskInfo)}

theorem addDisksLoop_cons {r : Inventory × Dict String (Dict String DiskInfo)} :
    addDisksLoop decimals new_disks (host :: hosts) inv before = .ok r ↔
      ∃ inv₁ added, addDisksToHost decimals inv host new_disks = .ok (inv₁, added) ∧
        addDisksLoop decimals new_disks hosts inv₁ (before.set host added) = .ok r := by
  unfold addDisksLoop
  rw [List.foldlM_cons, bind_eq_ok]
  constructor
  · rintro ⟨⟨inv₁, before₁⟩, hvisit, h⟩
    obtain ⟨⟨inv₂, added⟩, hadd, hvisit⟩ := bind_eq_ok.1 hvisit
    cases hvisit
    exact ⟨inv₁, added, hadd, h⟩
  · rintro ⟨inv₁, added, hadd, h⟩
    exact ⟨_, bind_eq_ok.2 ⟨_, hadd, rfl⟩, h⟩

/-- A host that is not selected. -/
theorem addDisksLoop_of_notMem (hne : ∀ x ∈ hosts, x ≠ "") (hhost : host ∉ hosts)
    (h : addDisksLoop decimals new_disks hosts inv before = .ok (inv', added_disks)) :
    disksOf inv' host = disksOf inv host ∧ added_disks.get? host = before.get? host := by
  induction hosts generalizing inv before with
  | nil =>
    cases h
    exact ⟨rfl, rfl⟩
  | cons x hosts ih =>
    obtain ⟨inv₁, added, hadd, h⟩ := addDisksLoop_cons.1 h
    rw [List.mem_cons, not_or] at hhost
    obtain ⟨hdisks, hreturned⟩ := ih (fun y hy => hne y (List.mem_cons_of_mem _ hy)) hhost.2 h
    have hgains := addDisksToHost_spec (hne x List.mem_cons_self) hadd
    rw [hgains.others host hhost.1] at hdisks
    rw [Dict.get?_set_of_ne _ _ hhost.1] at hreturned
    exact ⟨hdisks, hreturned⟩

/-- A selected host gets the new paths once; if it is selected again, nothing is returned
    for it. -/
theorem addDisksLoop_of_mem (hne : ∀ x ∈ hosts, x ≠ "") (hhost : host ∈ hosts)
    (h : addDisksLoop decimals new_disks hosts inv before = .ok (inv', added_disks)) :
    ∃ gained, HostResult inv inv' host new_disks gained ∧
      added_disks.get? host = some (if hosts.count host = 1 then gained else .empty) := by
  induction hosts generalizing inv before with
  | nil => exact absurd hhost List.not_mem_nil
  | cons x hosts ih =>
    obtain ⟨inv₁, added, hadd, h⟩ := addDisksLoop_cons.1 h
    have hne' : ∀ y ∈ hosts, y ≠ "" := fun y hy => hne y (List.mem_cons_of_mem _ hy)
    by_cases hx : host = x
    · subst hx
      have hresult := addDisksToHost_result (hne host List.mem_cons_self) hadd
      refine ⟨added, ?_⟩
      by_cases hagain : host ∈ hosts
      · obtain ⟨again, hresult', hreturned⟩ := ih hne' hagain h
        have hnothing := hresult.gained_again hresult'
        subst hnothing
        have hcount : (host :: hosts).count host ≠ 1 := by
          have hpos := List.count_pos_iff.2 hagain
          rw [List.count_cons_self]
          omega
        refine ⟨⟨fun disk => ?_, hresult.fresh, hresult.paths⟩, ?_⟩
        · rw [hresult'.disks, Dict.get?_empty, Option.none_or, hresult.disks]
        · rw [hreturned, if_neg hcount, ite_self]
      · obtain ⟨hdisks, hreturned⟩ := addDisksLoop_of_notMem hne' hagain h
        have hcount : (host :: hosts).count host = 1 := by
          rw [List.count_cons_self, List.count_eq_zero.2 hagain]
        refine ⟨⟨fun disk => ?_, hresult.fresh, hresult.paths⟩, ?_⟩
        · rw [hdisks, hresult.disks]
        · rw [hreturned, Dict.get?_set_self, if_pos hcount]
    · have hmem : host ∈ hosts := (List.mem_cons.1 hhost).resolve_left hx
      obtain ⟨gained, hresult, hreturned⟩ := ih hne' hmem h
      have hgains := addDisksToHost_spec (hne x List.mem_cons_self) hadd
      refine ⟨gained, hresult.of_eq (hgains.others host hx), ?_⟩
      rw [hreturned, List.count_cons_of_ne (Ne.symm hx)]

end

/-! ## Visiting a host again -/

/-- The group of the hosts has defaults. -/
def HasVars (inv : Inventory) : Prop :=
  ∃ g, inv.get? HOST_GROUP_NAME = some g ∧ g.vars ≠ none

/-- After its visit, the disks of the host can still be read: an empty dictionary is not
    stored, and a group without defaults has nothing to read instead. -/
def StaysReadable (new_disks : List String) (inv : Inventory) (host : String) : Prop :=
  new_disks ≠ [] ∨ (disksOf inv host).entries ≠ [] ∨ HasVars inv

theorem readable_setHostVar {inv inv' : Inventory} {host : String} {disks : Dict String DiskInfo}
    (hne : host ≠ "") (h : setHostVar inv HOST_GROUP_NAME "disks" (.disks disks) host = .ok inv') :
    (∃ disks', getDisks inv' host = .ok disks') ↔ disks.entries ≠ [] ∨ HasVars inv := by
  obtain ⟨g, vars, hg, hread⟩ := getHostVar_setHostVar_self hne h
  have hvars : HasVars inv ↔ g.vars ≠ none := by
    unfold HasVars
    rw [hg]
    simp
  rw [hvars]
  unfold getDisks getNodeResource
  rw [hread]
  cases hdefaults : g.vars with
  | none =>
    have hgroup : groupVar g "disks" = .error (.keyError "vars") := by rw [groupVar, hdefaults]
    have hdefault : groupDefault g "disks" = none := by rw [groupDefault, hdefaults, Option.bind_none]
    rw [hgroup]
    by_cases hempty : disks.entries = []
    · -- the empty dictionary is dropped
      have hdropped : (storeVar g "disks" (.disks disks) vars).get? "disks" = none := by
        simp [storeVar, hdefault, InvValue.falsy, hempty]
      rw [hdropped]
      constructor
      · rintro ⟨disks', h'⟩
        cases h'
      · rintro (h' | h')
        · exact absurd hempty h'
        · exact absurd rfl h'
    · have hstored : (storeVar g "disks" (.disks disks) vars).get? "disks" = some (.disks disks) := by
        simp [storeVar, hdefault, InvValue.falsy, hempty]
      rw [hstored]
      exact ⟨fun _ => .inl hempty, fun _ => ⟨disks, rfl⟩⟩
  | some gv =>
    have hgroup : groupVar g "disks" = .ok (gv.get? "disks") := by rw [groupVar, hdefaults]
    refine ⟨fun _ => .inr (Option.some_ne_none _), fun _ => ?_⟩
    have hkey : "disks" ∈ EMPTIABLE_VARS := by decide
    rcases shadow_storeVar vars (rfl : g.vars = g.vars) hkey (v := .disks disks) (by simp) with
      ⟨-, hr | hr⟩ | ⟨w, hr, hw⟩
    · -- with defaults, nothing is missing
      rw [hgroup] at hr
      unfold shadow at hr
      split at hr <;> cases hr
    · rw [hr]
      exact ⟨.empty, rfl⟩
    · rw [hr]
      obtain ⟨disks', rfl, -⟩ := exists_disks_of_stored hw
      exact ⟨disks', rfl⟩

theorem entries_ne_nil_iff {disks : Dict String DiskInfo} :
    disks.entries ≠ [] ↔ ∃ disk info, disks.get? disk = some info := by
  simp only [Dict.get?_eq_some_iff]
  constructor
  · intro h
    obtain ⟨⟨disk, info⟩, hentry⟩ := List.exists_mem_of_ne_nil _ h
    exact ⟨disk, info, hentry⟩
  · rintro ⟨disk, info, hentry⟩
    exact List.ne_nil_of_mem hentry

section
variable {new_disks hosts : List String} {inv inv₁ : Inventory} {x host : String}
  {added : Dict String DiskInfo}

theorem hasVars_iff_of_visit (hne : x ≠ "") (h : addDisksToHost decimals inv x new_disks = .ok (inv₁, added)) :
    HasVars inv₁ ↔ HasVars inv := by
  obtain ⟨g, hosts, vars, hg, -, -, rfl⟩ := (setHostVar_eq_ok hne).1 (addDisksToHost_writes hne h).2
  unfold HasVars
  rw [Dict.get?_set_self, hg]
  simp

theorem listed_of_visit (hne : x ≠ "") (h : addDisksToHost decimals inv x new_disks = .ok (inv₁, added)) :
    Listed inv₁ host ↔ Listed inv host := by
  obtain ⟨g, hosts, vars, hg, hhosts, hvars, rfl⟩ :=
    (setHostVar_eq_ok hne).1 (addDisksToHost_writes hne h).2
  unfold Listed
  rw [Dict.get?_set_self, hg]
  constructor
  · rintro ⟨g', hosts', vars', hg', hhosts', hvars'⟩
    cases hg'
    cases hhosts'
    by_cases hx : host = x
    · subst hx
      exact ⟨g, hosts, vars, rfl, hhosts, hvars⟩
    · rw [Dict.get?_set_of_ne _ _ hx] at hvars'
      exact ⟨g, hosts, vars', rfl, hhosts, hvars'⟩
  · rintro ⟨g', hosts', vars', hg', hhosts', hvars'⟩
    cases hg'
    rw [hhosts] at hhosts'
    cases hhosts'
    by_cases hx : host = x
    · subst hx
      exact ⟨_, _, _, rfl, rfl, Dict.get?_set_self _ _ _⟩
    · refine ⟨_, _, vars', rfl, rfl, ?_⟩
      rw [Dict.get?_set_of_ne _ _ hx, hvars']

/-- The visit of another host changes nothing. -/
theorem addable_other (hne : x ≠ "") (hx : host ≠ x)
    (h : addDisksToHost decimals inv x new_disks = .ok (inv₁, added)) : Addable decimals inv₁ host ↔ Addable decimals inv host := by
  have hread : getDisks inv₁ host = getDisks inv host := by
    unfold getDisks
    rw [getNodeResource_setHostVar_of_ne hne (.inl hx) (addDisksToHost_writes hne h).2]
  constructor
  · rintro ⟨hlisted, hreadable⟩
    rw [hread] at hreadable
    exact ⟨(listed_of_visit hne h).1 hlisted, hreadable⟩
  · rintro ⟨hlisted, hreadable⟩
    rw [← hread] at hreadable
    exact ⟨(listed_of_visit hne h).2 hlisted, hreadable⟩

/-- The host itself can be visited again if its disks can still be read. -/
theorem addable_again (hne : host ≠ "") (h : addDisksToHost decimals inv host new_disks = .ok (inv₁, added)) :
    Addable decimals inv₁ host ↔ StaysReadable new_disks inv host := by
  obtain ⟨hlisted, disks, hdisks, hnumbered⟩ := (addDisksToHost_ok_iff hne).1 ⟨_, h⟩
  have hresult := addDisksToHost_result hne h
  have hnames := (addDisksToHost_spec hne h).names
  have hnumbered₁ : NumberedDisks decimals (disksOf inv₁ host).keys := by
    intro disk hdisk hmatch
    obtain ⟨info, hinfo⟩ := Dict.mem_keys_iff.1 hdisk
    rw [hresult.disks] at hinfo
    by_cases hadded : disk ∈ added.keys
    · obtain ⟨⟨i, rfl⟩, -⟩ := hnames disk hadded
      exact ⟨i, readInt_newDiskName decimals i⟩
    · rw [Dict.get?_eq_none_iff.2 hadded, Option.none_or, disksOf_of_ok hdisks] at hinfo
      exact hnumbered disk (Dict.mem_keys_of_get? hinfo) hmatch
  have hentries : ((disksOf inv host).update added).entries ≠ [] ↔
      new_disks ≠ [] ∨ (disksOf inv host).entries ≠ [] := by
    simp only [entries_ne_nil_iff, Dict.get?_update]
    constructor
    · rintro ⟨disk, info, hinfo⟩
      by_cases hadded : disk ∈ added.keys
      · obtain ⟨path, hpath, -⟩ := (addDisksToHost_spec hne h).paths.1 ⟨disk, hadded⟩
        exact .inl (List.ne_nil_of_mem hpath)
      · rw [Dict.get?_eq_none_iff.2 hadded, Option.none_or] at hinfo
        exact .inr ⟨disk, info, hinfo⟩
    · rintro (hnew | ⟨disk, info, hinfo⟩)
      · obtain ⟨path, hpath⟩ := List.exists_mem_of_ne_nil _ hnew
        obtain ⟨disk, info, hinfo, -⟩ := hresult.hasPath hpath
        rw [hresult.disks] at hinfo
        exact ⟨disk, info, hinfo⟩
      · have hkept := hresult.keeps hinfo
        rw [hresult.disks] at hkept
        exact ⟨disk, info, hkept⟩
  unfold StaysReadable
  rw [← or_assoc, ← hentries, ← readable_setHostVar hne (addDisksToHost_writes hne h).2]
  constructor
  · rintro ⟨-, disks₁, hdisks₁, -⟩
    exact ⟨disks₁, hdisks₁⟩
  · rintro ⟨disks₁, hdisks₁⟩
    rw [disksOf_of_ok hdisks₁] at hnumbered₁
    exact ⟨(listed_of_visit hne h).2 hlisted, disks₁, hdisks₁, hnumbered₁⟩

theorem staysReadable_of_visit (hne : x ≠ "") (h : addDisksToHost decimals inv x new_disks = .ok (inv₁, added))
    (hstays : StaysReadable new_disks inv host) : StaysReadable new_disks inv₁ host := by
  rcases hstays with hnew | hentries | hvars
  · exact .inl hnew
  · refine .inr (.inl ?_)
    by_cases hx : host = x
    · subst hx
      obtain ⟨disk, info, hinfo⟩ := entries_ne_nil_iff.1 hentries
      exact entries_ne_nil_iff.2 ⟨disk, info, (addDisksToHost_result hne h).keeps hinfo⟩
    · rw [(addDisksToHost_spec hne h).others host hx]
      exact hentries
  · exact .inr (.inr ((hasVars_iff_of_visit hne h).2 hvars))

/-- The loop returns exactly when disks can be added to all hosts, also when a host comes
    again. -/
theorem addDisksLoop_ok_iff (before : Dict String (Dict String DiskInfo)) (hne : ∀ x ∈ hosts, x ≠ "") :
    (∃ r, addDisksLoop decimals new_disks hosts inv before = .ok r) ↔
      ∀ host ∈ hosts, Addable decimals inv host ∧ (1 < hosts.count host → StaysReadable new_disks inv host) := by
  induction hosts generalizing inv before with
  | nil => exact ⟨fun _ host hhost => absurd hhost List.not_mem_nil, fun _ => ⟨_, rfl⟩⟩
  | cons x hosts ih =>
    have hx := hne x List.mem_cons_self
    have hne' : ∀ y ∈ hosts, y ≠ "" := fun y hy => hne y (List.mem_cons_of_mem _ hy)
    constructor
    · rintro ⟨r, h⟩
      obtain ⟨inv₁, added, hadd, h⟩ := addDisksLoop_cons.1 h
      have hrest := (ih _ hne').1 ⟨r, h⟩
      intro host hhost
      by_cases hsame : host = x
      · subst hsame
        refine ⟨(addDisksToHost_ok_iff hx).1 ⟨_, hadd⟩, fun hcount => ?_⟩
        have hagain : host ∈ hosts := by
          rw [List.count_cons_self] at hcount
          exact List.count_pos_iff.1 (by omega)
        exact (addable_again hx hadd).1 (hrest host hagain).1
      · obtain ⟨haddable, hstays⟩ := hrest host ((List.mem_cons.1 hhost).resolve_left hsame)
        refine ⟨(addable_other hx hsame hadd).1 haddable, fun hcount => ?_⟩
        rw [List.count_cons_of_ne (Ne.symm hsame)] at hcount
        have hstays₁ := hstays hcount
        unfold StaysReadable at hstays₁ ⊢
        rwa [(addDisksToHost_spec hx hadd).others host hsame, hasVars_iff_of_visit hx hadd] at hstays₁
    · intro h
      obtain ⟨⟨inv₁, added⟩, hadd⟩ := (addDisksToHost_ok_iff hx).2 (h x List.mem_cons_self).1
      have hrest : ∀ host ∈ hosts, Addable decimals inv₁ host ∧
          (1 < hosts.count host → StaysReadable new_disks inv₁ host) := by
        intro host hhost
        obtain ⟨haddable, hstays⟩ := h host (List.mem_cons_of_mem _ hhost)
        by_cases hsame : host = x
        · subst hsame
          have hcount : 1 < (host :: hosts).count host := by
            have hpos := List.count_pos_iff.2 hhost
            rw [List.count_cons_self]
            omega
          exact ⟨(addable_again hx hadd).2 (hstays hcount),
            fun _ => staysReadable_of_visit hx hadd (hstays hcount)⟩
        · rw [List.count_cons_of_ne (Ne.symm hsame)] at hstays
          exact ⟨(addable_other hx hsame hadd).2 haddable,
            fun hcount => staysReadable_of_visit hx hadd (hstays hcount)⟩
      obtain ⟨r, hr⟩ := (ih _ hne').2 hrest
      exact ⟨r, addDisksLoop_cons.2 ⟨inv₁, added, hadd, hr⟩⟩

end

/-! ## The hosts and their paths -/

section
variable {hosts new_disks : List String} {inv inv' : Inventory}
  {added_disks : Dict String (Dict String DiskInfo)}

/-- What was added exactly was given once. -/
theorem DisksExact.once_given (hne : ∀ host ∈ hosts, host ≠ "")
    (h : addDisksToHosts decimals hosts new_disks inv = .ok (inv', added_disks))
    (hexact : DisksExact hosts new_disks inv inv' added_disks) {host path : String} (hhost : host ∈ hosts)
    (hpath : path ∈ new_disks) (hnot : ¬ HasPath inv host path) :
    new_disks.count path = 1 ∧ hosts.count host = 1 := by
  obtain ⟨gained, hresult, hreturned⟩ := addDisksLoop_of_mem hne hhost h
  have honce := hexact.once host hhost path hpath hnot
  refine ⟨(hresult.existsUnique_newDisk_iff hnot).1 honce, ?_⟩
  by_contra hcount
  rw [if_neg hcount] at hreturned
  -- the new disk is not returned
  obtain ⟨disk, ⟨hfresh, info, hinfo, -⟩, -⟩ := honce
  have hget := hexact.returned host .empty hreturned disk
  rw [if_neg hfresh, hinfo, Dict.get?_empty] at hget
  cases hget

/-- What is given once is added exactly. -/
theorem disksExact_of_once_given (hne : ∀ host ∈ hosts, host ≠ "")
    (h : addDisksToHosts decimals hosts new_disks inv = .ok (inv', added_disks))
    (honce : ∀ host ∈ hosts, ∀ path ∈ new_disks, ¬ HasPath inv host path →
      new_disks.count path = 1 ∧ hosts.count host = 1) :
    DisksExact hosts new_disks inv inv' added_disks := by
  have hmem (host : String) (hhost : host ∈ hosts) := addDisksLoop_of_mem hne hhost h
  have hnotMem (host : String) (hhost : host ∉ hosts) := addDisksLoop_of_notMem hne hhost h
  have hselected (host : String) (added : Dict String DiskInfo)
      (hadded : added_disks.get? host = some added) : host ∈ hosts := by
    by_contra hhost
    rw [(hnotMem host hhost).2, Dict.get?_empty] at hadded
    cases hadded
  constructor
  · intro host disk info hinfo
    by_cases hhost : host ∈ hosts
    · obtain ⟨gained, hresult, -⟩ := hmem host hhost
      exact hresult.keeps hinfo
    · rw [(hnotMem host hhost).1, hinfo]
  · intro host hhost path hpath hnot
    obtain ⟨gained, hresult, -⟩ := hmem host hhost
    exact (hresult.existsUnique_newDisk_iff hnot).2 (honce host hhost path hpath hnot).1
  · intro host disk path hdisk
    by_cases hhost : host ∈ hosts
    · obtain ⟨gained, hresult, -⟩ := hmem host hhost
      exact ⟨hhost, hresult.of_newDisk hdisk⟩
    · obtain ⟨hfresh, info, hinfo, -⟩ := hdisk
      rw [(hnotMem host hhost).1] at hinfo
      exact absurd (Dict.mem_keys_of_get? hinfo) hfresh
  · intro host
    constructor
    · intro hkey
      obtain ⟨added, hadded⟩ := Dict.mem_keys_iff.1 hkey
      exact hselected host added hadded
    · intro hhost
      obtain ⟨gained, -, hreturned⟩ := hmem host hhost
      exact Dict.mem_keys_of_get? hreturned
  · intro host added hadded disk
    have hhost := hselected host added hadded
    obtain ⟨gained, hresult, hreturned⟩ := hmem host hhost
    rw [← hresult.gained_get? disk]
    rw [hadded, Option.some.injEq] at hreturned
    rw [hreturned]
    split_ifs with hcount
    · rfl
    · -- a host that comes again has nothing to gain
      have hnothing : gained = .empty := by
        refine hresult.gained_eq_empty fun path hpath => ?_
        by_contra hnot
        exact hcount (honce host hhost path hpath hnot).2
      rw [hnothing]

end

end ServerlessYarn
