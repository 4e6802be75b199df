/-
  ServerlessYARN model — the selection of disks and hosts
  (`ui/views/core/utils.py`: `getFreestDisk`, `getFreestHost`).

  Both functions scan a list with the best candidate so far, where `-1` in
  `current_max_bw` and `current_min` stands for "no candidate yet".  The usages of hosts that
  `getFreestHost` compares are quotients of doubles in the source and exact ones here; the
  two compare alike for integer amounts below 2^26, where different quotients are further
  apart than their roundings.

  * `getFreestDisk_fits`, `getFreestDisk_isSome`: the selected disk has the
    requested bandwidth free, and some disk is selected if one has;
  * `getFreestHost_accepts`: the selected host passes the requested checks.
-/
import ServerlessYarn.Resources

namespace ServerlessYarn

/-! ## Disks -/

/-- The disk has the requested read, write and combined bandwidth free. -/
def Disk.Fits (d : Disk) (read write : ℚ) : Prop :=
  read ≤ d.free_read ∧ write ≤ d.free_write ∧ read + write ≤ d.total_free

/-- The loop of `getFreestDisk` over the disks of a host. -/
def freestDiskLoop (requested_read_bw requested_write_bw : ℚ) :
    List (String × Disk) → ℚ → Option String → Option String
  | [], _, freest_disk => freest_disk
  | (disk_name, disk) :: rest, current_max_bw, freest_disk =>
    if disk.free_read < requested_read_bw ∨ disk.free_write < requested_write_bw ∨
        disk.total_free < requested_read_bw + requested_write_bw then
      freestDiskLoop requested_read_bw requested_write_bw rest current_max_bw freest_disk
    else if disk.total_free = disk.total_max then some disk_name
    else if current_max_bw = -1 ∨ current_max_bw < disk.total_free then
      freestDiskLoop requested_read_bw requested_write_bw rest disk.total_free (some disk_name)
    else freestDiskLoop requested_read_bw requested_write_bw rest current_max_bw freest_disk

/-- `getFreestDisk(host, requested_read_bw, requested_write_bw)`. -/
def getFreestDisk (host : Host) (requested_read_bw requested_write_bw : ℚ) : Option String :=
  match host.disks with
  | some disks => freestDiskLoop requested_read_bw requested_write_bw disks.entries (-1) none
  | none => none

theorem Disk.fits_iff {d : Disk} {read write : ℚ} :
    d.Fits read write ↔
      ¬ (d.free_read < read ∨ d.free_write < write ∨ d.total_free < read + write) := by
  simp [Fits]

theorem freestDiskLoop_fits {read write : ℚ} {name : String} :
    ∀ {es : List (String × Disk)} {cur : ℚ} {freest : Option String},
      freestDiskLoop read write es cur freest = some name →
        freest = some name ∨ ∃ d, (name, d) ∈ es ∧ d.Fits read write
  | [], _, _, h => Or.inl h
  | (n, d) :: es, cur, freest, h => by
    have hrest : ∀ {cur freest'}, freestDiskLoop read write es cur freest' = some name →
        freest' = some name ∨ ∃ d', (name, d') ∈ (n, d) :: es ∧ d'.Fits read write :=
      fun h => (freestDiskLoop_fits h).imp_right fun ⟨d', hd', hf⟩ =>
        ⟨d', List.mem_cons_of_mem _ hd', hf⟩
    unfold freestDiskLoop at h
    split_ifs at h with hfit hidle hbest
    · exact hrest h
    · cases h
      exact Or.inr ⟨d, List.mem_cons_self, Disk.fits_iff.2 hfit⟩
    · rcases hrest h with hn | hn
      · cases hn
        exact Or.inr ⟨d, List.mem_cons_self, Disk.fits_iff.2 hfit⟩
      · exact Or.inr hn
    · exact hrest h

/-- The loop ends with a disk if it has one or meets one that fits; while it
    has none, `current_max_bw` is still `-1`. -/
theorem freestDiskLoop_isSome {read write : ℚ} : ∀ {es : List (String × Disk)} {cur : ℚ}
    {freest : Option String}, (freest = none → cur = -1) →
      (freest.isSome ∨ ∃ e ∈ es, e.2.Fits read write) →
        (freestDiskLoop read write es cur freest).isSome
  | [], _, _, _, h => h.elim id fun ⟨_, he, _⟩ => absurd he List.not_mem_nil
  | (n, d) :: es, cur, freest, hcur, h => by
    unfold freestDiskLoop
    split_ifs with hfit hidle hbest
    · refine freestDiskLoop_isSome hcur (h.imp_right ?_)
      rintro ⟨e, he, hf⟩
      rcases List.mem_cons.1 he with rfl | he
      · exact absurd hf (Disk.fits_iff.not.2 (not_not.2 hfit))
      · exact ⟨e, he, hf⟩
    · rfl
    · exact freestDiskLoop_isSome (by simp) (Or.inl rfl)
    · have hs : freest ≠ none := fun hn => hbest (Or.inl (hcur hn))
      exact freestDiskLoop_isSome hcur (Or.inl (Option.isSome_iff_ne_none.2 hs))

/-- The selected disk is a disk of the host with enough bandwidth. -/
theorem getFreestDisk_fits {host : Host} {read write : ℚ} {name : String}
    (h : getFreestDisk host read write = some name) :
    ∃ disks d, host.disks = some disks ∧ disks.get? name = some d ∧ d.Fits read write := by
  unfold getFreestDisk at h
  split at h
  · rename_i disks hd
    rcases freestDiskLoop_fits h with hn | ⟨d, hmem, hf⟩
    · cases hn
    · exact ⟨disks, d, hd, Dict.get?_eq_some_iff.2 hmem, hf⟩
  · cases h

/-- A disk is selected if one has enough bandwidth. -/
theorem getFreestDisk_isSome {host : Host} {read write : ℚ} {disks : Dict String Disk}
    {name : String} {d : Disk} (hd : host.disks = some disks) (hn : disks.get? name = some d)
    (hf : d.Fits read write) : (getFreestDisk host read write).isSome := by
  unfold getFreestDisk
  rw [hd]
  exact freestDiskLoop_isSome (fun _ => rfl)
    (Or.inr ⟨(name, d), Dict.get?_eq_some_iff.1 hn, hf⟩)

/-! ## Hosts -/

/-- `host_disk_free` of `getFreestHost`: the total free bandwidth of all disks. -/
def Host.disk_free (host : Host) : ℚ := (host.disks.map (·.sum fun _ d => d.total_free)).getD 0

/-- `host_disk_max` of `getFreestHost`. -/
def Host.disk_max (host : Host) : ℚ := (host.disks.map (·.sum fun _ d => d.total_max)).getD 0

/-- The loop of `getFreestHost` over the hosts.  With the energy check, no disk
    is looked at.  `energy_usage` and `host_disk_usage` are read exactly. -/
def freestHostLoop (container_resources : Request) (check_disks check_energy : Bool)
    (limit_key : LimitKey) : List (String × Host) → Option String → ℚ → Py (Option String)
  | [], freest_host, _ => .ok freest_host
  | (name, host) :: rest, freest_host, current_min =>
    let next := freestHostLoop container_resources check_disks check_energy limit_key rest
    if host.free .cpu < container_resources.get .cpu limit_key ∨
        host.free .mem < container_resources.get .mem limit_key then
      next freest_host current_min
    else if check_energy ∧ host.free .energy < container_resources.get .energy limit_key then
      next freest_host current_min
    else if !check_disks ∧ !check_energy then .ok (some name)
    else if check_energy then
      if host.energy_max = 0 then .error .zeroDivisionError
      else
        let energy_usage := 1 - host.free .energy / host.energy_max
        if current_min = -1 ∨ energy_usage < current_min then next (some name) energy_usage
        else next freest_host current_min
    else if (getFreestDisk host (container_resources.read limit_key)
        (container_resources.write limit_key)).isNone then
      next freest_host current_min
    else if host.disk_max = 0 then next freest_host current_min
    else
      let host_disk_usage := host.disk_free / host.disk_max
      if host_disk_usage = 0 then .ok (some name)
      else if current_min = -1 ∨ host_disk_usage < current_min then
        next (some name) host_disk_usage
      else next freest_host current_min

/-- `getFreestHost(hosts, container_resources, check_disks, check_energy, limit_key)`. -/
def getFreestHost (hosts : Hosts) (container_resources : Request)
    (check_disks check_energy : Bool) (limit_key : LimitKey) : Py (Option String) :=
  freestHostLoop container_resources check_disks check_energy limit_key hosts.entries none (-1)

/-- The host passes the checks of `getFreestHost` on cpu, mem and energy. -/
def Host.Accepts (host : Host) (c : Request) (check_energy : Bool) (k : LimitKey) : Prop :=
  c.get .cpu k ≤ host.free .cpu ∧ c.get .mem k ≤ host.free .mem ∧
    (check_energy → c.get .energy k ≤ host.free .energy)

theorem freestHostLoop_accepts {c : Request} {cd ce : Bool} {k : LimitKey} {name : String} :
    ∀ {es : List (String × Host)} {freest : Option String} {cur : ℚ},
      freestHostLoop c cd ce k es freest cur = .ok (some name) →
        freest = some name ∨ ∃ h, (name, h) ∈ es ∧ h.Accepts c ce k
  | [], _, _, h => by
    simp only [freestHostLoop, Except.ok.injEq] at h
    exact Or.inl h
  | (n, host) :: es, freest, cur, h => by
    have hrest : ∀ {freest' cur'}, freestHostLoop c cd ce k es freest' cur' = .ok (some name) →
        freest' = some name ∨ ∃ h', (name, h') ∈ (n, host) :: es ∧ h'.Accepts c ce k :=
      fun h => (freestHostLoop_accepts h).imp_right fun ⟨h', hm, ha⟩ =>
        ⟨h', List.mem_cons_of_mem _ hm, ha⟩
    unfold freestHostLoop at h
    by_cases hcm : host.free .cpu < c.get .cpu k ∨ host.free .mem < c.get .mem k
    · rw [if_pos hcm] at h; exact hrest h
    by_cases hen : ce ∧ host.free .energy < c.get .energy k
    · rw [if_neg hcm, if_pos hen] at h; exact hrest h
    have hacc : host.Accepts c ce k := by
      simp only [not_or, not_lt] at hcm
      exact ⟨hcm.1, hcm.2, fun he => not_lt.1 fun hlt => hen ⟨he, hlt⟩⟩
    have hself : some n = some name → freest = some name ∨
        ∃ h', (name, h') ∈ (n, host) :: es ∧ h'.Accepts c ce k := by
      intro hn; cases hn
      exact Or.inr ⟨host, List.mem_cons_self, hacc⟩
    -- past the checks, the loop returns this host, keeps it as candidate or skips it
    rw [if_neg hcm, if_neg hen] at h
    simp only at h
    split_ifs at h
    all_goals first
      | exact hrest h
      | exact (hrest h).elim hself Or.inr
      | exact hself (Except.ok.inj h)

/-- The selected host is in the list and passes the cpu, mem and energy checks. -/
theorem getFreestHost_accepts {hosts : Hosts} {c : Request} {cd ce : Bool} {k : LimitKey}
    {name : String} (h : getFreestHost hosts c cd ce k = .ok (some name)) :
    ∃ host, hosts.get? name = some host ∧ host.Accepts c ce k := by
  rcases freestHostLoop_accepts h with hn | ⟨host, hm, ha⟩
  · cases hn
  · exact ⟨host, Dict.get?_eq_some_iff.2 hm, ha⟩

end ServerlessYarn
