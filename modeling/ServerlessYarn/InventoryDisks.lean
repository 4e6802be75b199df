/-
  ServerlessYARN model — what the updates do to the disks of the hosts.

  The inventory is arbitrary here: its group need not have defaults, and a host
  whose disks cannot be read counts as one without disks.

  * `disksOf_setHostVar_self`: the disks written for a host are read back;
  * `nextDiskId_spec`: the next id is above that of every disk `new_<id>`;
  * `addDisksToHost_spec`, `addDisksToHosts_spec`: a host gets new names `new_<id>`,
    and it gets one exactly when it is given a path that none of its disks has;
  * `updateDisk_keys`: a measurement keeps the names.
-/
import ServerlessYarn.PlainInventory

namespace ServerlessYarn

open Inventory

/-! ## Reading and writing the disks of a host -/

namespace Inventory

/-- The disks of a host, none if they cannot be read. -/
def disksOf (inv : Inventory) (hostname : String) : Dict String DiskInfo :=
  (getDisks inv hostname).toOption.getD .empty

theorem disksOf_of_ok {inv : Inventory} {hostname : String} {disks : Dict String DiskInfo}
    (h : getDisks inv hostname = .ok disks) : disksOf inv hostname = disks := by
  unfold disksOf
  rw [h]
  rfl

theorem disksOf_of_read {inv : Inventory} {hostname : String} {v : Option InvValue}
    (h : getHostVar inv HOST_GROUP_NAME "disks" hostname = .ok v) :
    disksOf inv hostname = (InvValue.diskDict v).toOption.getD .empty := by
  unfold disksOf getDisks getNodeResource
  rw [h]
  rfl

/-- Writing the disks of a host leaves those of the others alone. -/
theorem disksOf_setHostVar_of_ne {inv inv' : Inventory} {key hostname other : String} {v : InvValue}
    (hne : hostname ≠ "") (ho : other ≠ hostname)
    (h : setHostVar inv HOST_GROUP_NAME key v hostname = .ok inv') :
    disksOf inv' other = disksOf inv other := by
  unfold disksOf getDisks
  rw [getNodeResource_setHostVar_of_ne hne (.inl ho) h]

/-- What is read of a variable of a host after it was written. -/
theorem getHostVar_setHostVar_self {inv inv' : Inventory} {group_name key hostname : String}
    {v : InvValue} (hne : hostname ≠ "") (h : setHostVar inv group_name key v hostname = .ok inv') :
    ∃ g vars, inv.get? group_name = some g ∧ getHostVar inv' group_name key hostname =
      shadow ((storeVar g key v vars).get? key) (groupVar g key) := by
  obtain ⟨g, hosts, vars, hg, -, -, hinv'⟩ := (setHostVar_eq_ok hne).1 h
  refine ⟨g, vars, hg, ?_⟩
  unfold getHostVar getItem
  rw [hinv', Dict.get?_set_self]
  change hostVar _ key hostname = _
  rw [hostVar_eq hne rfl, Dict.get?_set_self]
  rfl

/-- Only disks are written as disks. -/
theorem exists_disks_of_stored {disks : Dict String DiskInfo} {w : InvValue}
    (hw : w = .disks disks ∨ InvValue.eq (.disks disks) w = true) :
    ∃ disks', w = .disks disks' ∧ disks'.get? = disks.get? := by
  have hplain : w.plain = InvValue.plain (.disks disks) := by
    rcases hw with rfl | hw
    · rfl
    · exact (InvValue.plain_of_eq hw).symm
  cases w with
  | disks disks' =>
    simp only [InvValue.plain, Option.some.injEq, PlainValue.disks.injEq] at hplain
    exact ⟨disks', rfl, hplain⟩
  | _ => simp [InvValue.plain] at hplain

/-- The disks written for a host are read back. -/
theorem disksOf_setHostVar_self {inv inv' : Inventory} {hostname : String}
    {disks : Dict String DiskInfo} (hne : hostname ≠ "")
    (h : setHostVar inv HOST_GROUP_NAME "disks" (.disks disks) hostname = .ok inv') :
    (disksOf inv' hostname).get? = disks.get? := by
  obtain ⟨g, vars, -, hread⟩ := getHostVar_setHostVar_self hne h
  have hkey : "disks" ∈ EMPTIABLE_VARS := by decide
  rcases shadow_storeVar vars rfl hkey (v := .disks disks) (by simp) with ⟨hempty, hr | hr⟩ | ⟨w, hr, hw⟩
  · obtain rfl : disks = .empty := Dict.ext (List.isEmpty_iff.1 hempty)
    rw [hr] at hread
    unfold disksOf getDisks getNodeResource
    rw [hread]
    rfl
  · obtain rfl : disks = .empty := Dict.ext (List.isEmpty_iff.1 hempty)
    rw [hr] at hread
    rw [disksOf_of_read hread]
    rfl
  · rw [hr] at hread
    rw [disksOf_of_read hread]
    obtain ⟨disks', rfl, hsame⟩ := exists_disks_of_stored hw
    exact hsame

/-- A disk of the host has this path. -/
def HasPath (inv : Inventory) (hostname path : String) : Prop :=
  ∃ disk info, (disksOf inv hostname).get? disk = some info ∧ info.path = path

theorem hasPath_iff {inv : Inventory} {hostname path : String} :
    HasPath inv hostname path ↔ path ∈ (disksOf inv hostname).entries.map fun d => d.2.path := by
  unfold HasPath
  simp only [Dict.get?_eq_some_iff, List.mem_map, Prod.exists]

/-- A measurement of a disk keeps the names. -/
theorem updateDisk_keys {inv inv' : Inventory} {hostname disk : String} {read_bw write_bw : ℤ}
    (hne : hostname ≠ "") (h : updateDisk inv hostname disk read_bw write_bw = .ok inv')
    (other name : String) : name ∈ (disksOf inv' other).keys ↔ name ∈ (disksOf inv other).keys := by
  unfold updateDisk at h
  simp only [bind_eq_ok, getItem_eq_ok] at h
  obtain ⟨disks, hdisks, info, hinfo, h⟩ := h
  by_cases ho : other = hostname
  · subst ho
    rw [Dict.mem_keys_iff, disksOf_setHostVar_self hne h, disksOf_of_ok hdisks, ← Dict.mem_keys_iff,
      Dict.mem_keys_set]
    constructor
    · rintro (rfl | hname)
      · exact Dict.mem_keys_of_get? hinfo
      · exact hname
    · exact Or.inr
  · rw [disksOf_setHostVar_of_ne hne ho h]

end Inventory

/-! ## Names of new disks -/

/-- `new_<id>`. -/
def newDiskName (disk_id : ℕ) : String := "new_" ++ toString disk_id

theorem toList_newDiskName (disk_id : ℕ) :
    (newDiskName disk_id).toList = "new_".toList ++ Nat.toDigits 10 disk_id := by
  have hdigits : (toString disk_id).toList = Nat.toDigits 10 disk_id := Nat.toList_repr
  rw [newDiskName, String.toList_append, hdigits]

theorem isDigit_of_mem_toDigits_ten {disk_id : ℕ} {c : Char} (hc : c ∈ Nat.toDigits 10 disk_id) :
    c.isDigit := Nat.isDigit_of_mem_toDigits (by decide) (by decide) hc

theorem matchNewDisk_newDiskName (disk_id : ℕ) : matchNewDisk (newDiskName disk_id) = true := by
  unfold matchNewDisk
  rw [toList_newDiskName]
  rcases hd : Nat.toDigits 10 disk_id with _ | ⟨c, cs⟩
  · exact absurd hd Nat.toDigits_ne_nil
  · have hdigit : c.isDigit := isDigit_of_mem_toDigits_ten (by rw [hd]; exact List.mem_cons_self)
    change ([('n' : Char), 'e', 'w'].map Char.toLower == ['n', 'e', 'w'] && c.isDigit) = true
    rw [hdigit]
    rfl

variable {decimals : Decimals}

/-- The id of a disk `new_<id>` is read back. -/
theorem readInt_newDiskName (decimals : Decimals) (disk_id : ℕ) :
    readInt decimals.reader (((newDiskName disk_id).toList.splitOn '_').getD 1 []) = .ok disk_id := by
  have hsep : '_' ∉ Nat.toDigits 10 disk_id := by
    intro h
    exact absurd (isDigit_of_mem_toDigits_ten h) (by decide)
  have hsplit : (newDiskName disk_id).toList.splitOn '_' = ["new".toList, Nat.toDigits 10 disk_id] := by
    have hstart : "new_".toList ++ Nat.toDigits 10 disk_id =
        "new".toList ++ '_' :: Nat.toDigits 10 disk_id := rfl
    have hnew : '_' ∉ "new".toList := by decide
    rw [toList_newDiskName, hstart, List.splitOn_append_cons_self, List.splitOn_eq_singleton hnew,
      List.splitOn_eq_singleton hsep]
    rfl
  rw [hsplit]
  exact decimals.readInt_toDigits disk_id

/-- The next id is above that of every disk `new_<id>`. -/
theorem nextDiskId_spec {disks : List String} {disk_id : ℕ} (h : nextDiskId decimals disks = .ok disk_id) :
    ∀ i, newDiskName i ∈ disks → i < disk_id := by
  suffices hgen : ∀ (disks : List String) (first : ℕ), disks.foldlM (fun (disk_id : ℕ) d =>
      if matchNewDisk d then do
        let i ← readInt decimals.reader ((d.toList.splitOn '_').getD 1 [])
        return if (disk_id : ℤ) ≤ i then (i + 1).toNat else disk_id
      else return disk_id) first = .ok disk_id →
        first ≤ disk_id ∧ ∀ i, newDiskName i ∈ disks → i < disk_id from (hgen disks 0 h).2
  clear h disks
  intro disks
  induction disks with
  | nil =>
    intro first h
    cases h
    exact ⟨le_rfl, fun i hi => absurd hi List.not_mem_nil⟩
  | cons d disks ih =>
    intro first h
    rw [List.foldlM_cons, bind_eq_ok] at h
    obtain ⟨next, hnext, h⟩ := h
    obtain ⟨hle, hrest⟩ := ih next h
    have hstep : first ≤ next ∧ ∀ i, newDiskName i = d → i < next := by
      split_ifs at hnext with hmatch
      · obtain ⟨i, hi, hnext⟩ := bind_eq_ok.1 hnext
        rw [pure_eq_ok] at hnext
        have hbounds : first ≤ next ∧ i < (next : ℤ) := by
          split_ifs at hnext <;> omega
        refine ⟨hbounds.1, ?_⟩
        rintro j rfl
        rw [readInt_newDiskName] at hi
        cases hi
        exact_mod_cast hbounds.2
      · cases hnext
        refine ⟨le_rfl, ?_⟩
        rintro i rfl
        exact absurd (matchNewDisk_newDiskName i) hmatch
    refine ⟨hstep.1.trans hle, fun i hi => ?_⟩
    rcases List.mem_cons.1 hi with hi | hi
    · exact (hstep.2 i hi).trans_le hle
    · exact hrest i hi

/-! ## Adding disks -/

/-- What the loop body of `add_disks_to_hosts` does for a host. -/
structure HostGains (inv inv' : Inventory) (host : String) (new_disks : List String)
    (added : Dict String DiskInfo) : Prop where
  others : ∀ other ≠ host, disksOf inv' other = disksOf inv other
  disks : ∀ disk, (disksOf inv' host).get? disk =
    (added.get? disk).or ((disksOf inv host).get? disk)
  names : ∀ disk ∈ added.keys, (∃ disk_id, disk = newDiskName disk_id) ∧ disk ∉ (disksOf inv host).keys
  paths : (∃ disk, disk ∈ added.keys) ↔ ∃ path ∈ new_disks, ¬ HasPath inv host path

theorem addDisksToHost_spec {inv inv' : Inventory} {host : String} {new_disks : List String}
    {added : Dict String DiskInfo} (hne : host ≠ "")
    (h : addDisksToHost decimals inv host new_disks = .ok (inv', added)) :
    HostGains inv inv' host new_disks added := by
  unfold addDisksToHost addDisks at h
  simp only [bind_eq_ok, pure_eq_ok, Prod.mk.injEq] at h
  obtain ⟨disks, hdisks, disk_id, hid, inv₁, ⟨current_disks, hcurrent, hset⟩, rfl, hadded⟩ := h
  obtain rfl : disks = current_disks := Except.ok.inj (hdisks.symm.trans hcurrent)
  rw [hadded] at hset
  -- an added name belongs to a path that is not there yet
  have hkeys : ∀ disk, disk ∈ added.keys ↔ ∃ d ∈ (new_disks.filter (· ∉ disks.entries.map fun d =>
      d.2.path)).zipIdx disk_id, disk = newDiskName d.2 := by
    intro disk
    rw [← hadded, Dict.mem_keys_foldl_set, Dict.keys_empty, or_iff_right List.not_mem_nil]
    rfl
  constructor
  · intro other ho
    exact disksOf_setHostVar_of_ne hne ho hset
  · intro disk
    rw [disksOf_setHostVar_self hne hset, Dict.get?_update, disksOf_of_ok hdisks]
  · intro disk hdisk
    obtain ⟨⟨path, i⟩, hi, rfl⟩ := (hkeys disk).1 hdisk
    refine ⟨⟨i, rfl⟩, ?_⟩
    rw [disksOf_of_ok hdisks]
    intro hold
    have hlt := nextDiskId_spec hid i hold
    have hle := (List.mem_zipIdx hi).1
    exact absurd hlt (by omega)
  · simp only [hkeys, hasPath_iff, disksOf_of_ok hdisks]
    constructor
    · rintro ⟨disk, ⟨path, i⟩, hi, -⟩
      have hpath := List.mem_filter.1 (List.fst_mem_of_mem_zipIdx hi)
      exact ⟨path, hpath.1, of_decide_eq_true hpath.2⟩
    · rintro ⟨path, hmem, hnot⟩
      have hpath : path ∈ new_disks.filter (· ∉ disks.entries.map fun d => d.2.path) :=
        List.mem_filter.2 ⟨hmem, decide_eq_true hnot⟩
      obtain ⟨i, hi⟩ := List.mem_iff_getElem?.1 hpath
      exact ⟨_, (path, disk_id + i), List.mk_add_mem_zipIdx_iff_getElem?.2 hi, rfl⟩

/-- What `add_disks_to_hosts` does to the disks of a host. -/
structure DisksGrow (hosts new_disks : List String) (inv inv' : Inventory) (host : String) : Prop where
  keeps : ∀ disk info, (disksOf inv host).get? disk = some info →
    (disksOf inv' host).get? disk = some info
  names : ∀ disk ∈ (disksOf inv' host).keys, disk ∈ (disksOf inv host).keys ∨
    ∃ disk_id, disk = newDiskName disk_id
  paths : (∃ disk ∈ (disksOf inv' host).keys, disk ∉ (disksOf inv host).keys) ↔
    host ∈ hosts ∧ ∃ path ∈ new_disks, ¬ HasPath inv host path

namespace DisksGrow

variable {hosts new_disks : List String} {inv inv₁ inv' : Inventory} {host disk path : String}

theorem keys (h : DisksGrow hosts new_disks inv inv' host) (hdisk : disk ∈ (disksOf inv host).keys) :
    disk ∈ (disksOf inv' host).keys := by
  obtain ⟨info, hinfo⟩ := Dict.mem_keys_iff.1 hdisk
  exact Dict.mem_keys_of_get? (h.keeps disk info hinfo)

theorem hasPath (h : DisksGrow hosts new_disks inv inv' host) (hpath : HasPath inv host path) :
    HasPath inv' host path := by
  obtain ⟨disk, info, hinfo, rfl⟩ := hpath
  exact ⟨disk, info, h.keeps disk info hinfo, rfl⟩

theorem refl (new_disks : List String) (inv : Inventory) (host : String) :
    DisksGrow [] new_disks inv inv host where
  keeps _ _ hinfo := hinfo
  names _ hdisk := .inl hdisk
  paths := by
    constructor
    · rintro ⟨disk, hdisk, hnot⟩
      exact absurd hdisk hnot
    · rintro ⟨hmem, -⟩
      exact absurd hmem List.not_mem_nil

/-- One host after another. -/
theorem cons {x : String} (h : DisksGrow [x] new_disks inv inv₁ host)
    (h' : DisksGrow hosts new_disks inv₁ inv' host) :
    DisksGrow (x :: hosts) new_disks inv inv' host where
  keeps disk info hinfo := h'.keeps disk info (h.keeps disk info hinfo)
  names disk hdisk := by
    rcases h'.names disk hdisk with hdisk | hnew
    · exact h.names disk hdisk
    · exact .inr hnew
  paths := by
    constructor
    · rintro ⟨disk, hdisk, hnot⟩
      by_cases hdisk₁ : disk ∈ (disksOf inv₁ host).keys
      · obtain ⟨hx, hpath⟩ := h.paths.1 ⟨disk, hdisk₁, hnot⟩
        exact ⟨List.mem_cons.2 (.inl (List.mem_singleton.1 hx)), hpath⟩
      · obtain ⟨hhost, path, hpath, hnew⟩ := h'.paths.1 ⟨disk, hdisk, hdisk₁⟩
        exact ⟨List.mem_cons_of_mem _ hhost, path, hpath, fun hold => hnew (h.hasPath hold)⟩
    · rintro ⟨hhost, path, hpath, hnew⟩
      by_cases hpath₁ : HasPath inv₁ host path
      · -- the path came with the first host
        obtain ⟨disk, info, hinfo, hinfoPath⟩ := hpath₁
        refine ⟨disk, h'.keys (Dict.mem_keys_of_get? hinfo), fun hold => hnew ?_⟩
        obtain ⟨info', hinfo'⟩ := Dict.mem_keys_iff.1 hold
        obtain rfl : info' = info :=
          Option.some.inj ((h.keeps disk info' hinfo').symm.trans hinfo)
        exact ⟨disk, info', hinfo', hinfoPath⟩
      · rcases List.mem_cons.1 hhost with rfl | hhost
        · obtain ⟨disk, hdisk, hnot⟩ := h.paths.2 ⟨List.mem_singleton_self host, path, hpath, hnew⟩
          exact ⟨disk, h'.keys hdisk, hnot⟩
        · obtain ⟨disk, hdisk, hnot⟩ := h'.paths.2 ⟨hhost, path, hpath, hpath₁⟩
          exact ⟨disk, hdisk, fun hold => hnot (h.keys hold)⟩

end DisksGrow

theorem HostGains.disksGrow {inv inv' : Inventory} {x : String} {new_disks : List String}
    {added : Dict String DiskInfo} (h : HostGains inv inv' x new_disks added) (host : String) :
    DisksGrow [x] new_disks inv inv' host := by
  by_cases hx : host = x
  · subst hx
    have hmem : ∀ disk, disk ∈ (disksOf inv' host).keys ↔
        disk ∈ added.keys ∨ disk ∈ (disksOf inv host).keys := by
      intro disk
      rw [Dict.mem_keys_iff, h.disks, Dict.mem_keys_iff, Dict.mem_keys_iff]
      rcases added.get? disk with _ | info <;> simp
    constructor
    · intro disk info hinfo
      have hnot : disk ∉ added.keys := fun hadded =>
        (h.names disk hadded).2 (Dict.mem_keys_of_get? hinfo)
      rw [h.disks, Dict.get?_eq_none_iff.2 hnot, hinfo]
      rfl
    · intro disk hdisk
      rcases (hmem disk).1 hdisk with hadded | hold
      · exact .inr (h.names disk hadded).1
      · exact .inl hold
    · rw [← h.paths]
      constructor
      · rintro ⟨disk, hdisk, hnot⟩
        exact ⟨List.mem_singleton_self host, disk, ((hmem disk).1 hdisk).resolve_right hnot⟩
      · rintro ⟨-, disk, hadded⟩
        exact ⟨disk, (hmem disk).2 (.inl hadded), (h.names disk hadded).2⟩
  · have hsame : disksOf inv' host = disksOf inv host := h.others host hx
    constructor
    · intro disk info hinfo
      rw [hsame, hinfo]
    · intro disk hdisk
      rw [hsame] at hdisk
      exact .inl hdisk
    · rw [hsame]
      constructor
      · rintro ⟨disk, hdisk, hnot⟩
        exact absurd hdisk hnot
      · rintro ⟨hmem, -⟩
        exact absurd (List.mem_singleton.1 hmem) hx

/-- The loop of `add_disks_to_hosts`, after some of the hosts. -/
theorem addDisksLoop_spec {inv inv' : Inventory} {hosts new_disks : List String}
    {before added_disks : Dict String (Dict String DiskInfo)} (hne : ∀ host ∈ hosts, host ≠ "")
    (h : hosts.foldlM (fun (inv, added_disks) host => do
      let (inv, added) ← addDisksToHost decimals inv host new_disks
      return (inv, added_disks.set host added)) (inv, before) = .ok (inv', added_disks)) (host : String) :
    DisksGrow hosts new_disks inv inv' host ∧
      ∀ added, added_disks.get? host = some added → before.get? host = some added ∨
        ∀ disk ∈ added.keys, disk ∈ (disksOf inv' host).keys ∧ disk ∉ (disksOf inv host).keys := by
  induction hosts generalizing inv before with
  | nil =>
    cases h
    exact ⟨.refl new_disks _ host, fun added hadded => .inl hadded⟩
  | cons x hosts ih =>
    rw [List.foldlM_cons, bind_eq_ok] at h
    obtain ⟨⟨inv₁, before₁⟩, hx, h⟩ := h
    obtain ⟨⟨inv₂, addedHere⟩, hadd, hx⟩ := bind_eq_ok.1 hx
    cases hx
    have hgain := addDisksToHost_spec (hne x List.mem_cons_self) hadd
    obtain ⟨hrest, hreturn⟩ := ih (fun y hy => hne y (List.mem_cons_of_mem _ hy)) h
    refine ⟨(hgain.disksGrow host).cons hrest, fun added hadded => ?_⟩
    rcases hreturn added hadded with hbefore | hnew
    · by_cases hhost : host = x
      · -- what was added to this host stays there
        subst hhost
        rw [Dict.get?_set_self] at hbefore
        cases hbefore
        refine .inr fun disk hdisk => ⟨hrest.keys ?_, (hgain.names disk hdisk).2⟩
        obtain ⟨info, hinfo⟩ := Dict.mem_keys_iff.1 hdisk
        refine Dict.mem_keys_of_get? (v := info) ?_
        rw [hgain.disks, hinfo]
        rfl
      · rw [Dict.get?_set_of_ne _ _ hhost] at hbefore
        exact .inl hbefore
    · refine .inr fun disk hdisk => ⟨(hnew disk hdisk).1, fun hold => (hnew disk hdisk).2 ?_⟩
      exact (hgain.disksGrow host).keys hold

/-- **Adding disks** keeps the disks of every host, gives a host only names `new_<id>`, and
    gives it one exactly when it is given a path that none of its disks has. -/
theorem addDisksToHosts_spec {inv inv' : Inventory} {hosts new_disks : List String}
    {added_disks : Dict String (Dict String DiskInfo)} (hne : ∀ host ∈ hosts, host ≠ "")
    (h : addDisksToHosts decimals hosts new_disks inv = .ok (inv', added_disks)) (host : String) :
    DisksGrow hosts new_disks inv inv' host :=
  (addDisksLoop_spec hne h host).1

/-- The disks that `add_disks_to_hosts` returns for a host are new there. -/
theorem addDisksToHosts_returns {inv inv' : Inventory} {hosts new_disks : List String}
    {added_disks : Dict String (Dict String DiskInfo)} (hne : ∀ host ∈ hosts, host ≠ "")
    (h : addDisksToHosts decimals hosts new_disks inv = .ok (inv', added_disks)) {host : String}
    {added : Dict String DiskInfo} (hadded : added_disks.get? host = some added) :
    ∀ disk ∈ added.keys, disk ∈ (disksOf inv' host).keys ∧ disk ∉ (disksOf inv host).keys := by
  rcases (addDisksLoop_spec hne h host).2 added hadded with hempty | hnew
  · rw [Dict.get?_empty] at hempty
    cases hempty
  · exact hnew

end ServerlessYarn
