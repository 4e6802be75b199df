/-
  ServerlessYARN model — when the deployment respects the disks.

  The deployment hands the disks of a host out anew, irregular containers
  first.  With one disk, or if all containers request the same bandwidth, this
  makes no difference; otherwise the irregular container can end up on the disk
  that was planned for a regular one.

  * `deploysWithin_iff`: these are exactly the requests that are safe on all
    hosts with a given number of disks.
-/
import ServerlessYarn.DiskConflict

namespace ServerlessYarn

/-- Whatever the inventory, the deployed containers of a successful call stay
    within the bandwidth that their disks had free. -/
def AppRequest.DeploysWithin (q : AppRequest) : Prop :=
  ∀ r bind_dir_name inv inv' infos, getContainerAssignationForApp q = .ok r → r.error = none →
    deployAppContainers q.cfg q.container_resources bind_dir_name r.new_containers
      r.disk_assignation inv = .ok (inv', infos) →
    ∀ name host disk d, q.hosts.get? name = some host → host.disk? disk = some d →
      deployedLoad infos q.key (name, disk) ≤ d.free

/-- No disk has less than nothing free. -/
def DisksNonneg (hosts : Hosts) : Prop :=
  ∀ name host disk d, hosts.get? name = some host → host.disk? disk = some d → 0 ≤ d.free

/-- No host has more than `m` disks. -/
def AtMostDisks (m : ℕ) (hosts : Hosts) : Prop :=
  ∀ name host disks, hosts.get? name = some host → host.disks = some disks → disks.keys.length ≤ m

theorem AtMostDisks.single {hosts : Hosts} (h : AtMostDisks 1 hosts) {name : String} {host : Host}
    (hhost : hosts.get? name = some host) {disk disk' : String} (hd : (host.disk? disk).isSome)
    (hd' : (host.disk? disk').isSome) : disk' = disk := by
  unfold Host.disk? at hd hd'
  rcases hds : host.disks with _ | ds
  · simp [hds] at hd
  · have hmem : disk ∈ ds.keys := Dict.mem_keys_iff.2 (Option.isSome_iff_exists.1 (by simpa [hds] using hd))
    have hmem' : disk' ∈ ds.keys :=
      Dict.mem_keys_iff.2 (Option.isSome_iff_exists.1 (by simpa [hds] using hd'))
    have hlen := h name host ds hhost hds
    rcases hk : ds.keys with _ | ⟨x, _ | ⟨y, l⟩⟩
    · simp [hk] at hmem
    · simp only [hk, List.mem_singleton] at hmem hmem'
      rw [hmem, hmem']
    · simp [hk] at hlen

/-- The containers of a successful call that have a disk request the same, if
    the irregular ones do or if there are no regular ones. -/
theorem AssignationResult.PlannedBy.diskBandwidth {q : AppRequest} {r : AssignationResult}
    {evs : List Placement} (hevs : r.PlannedBy q evs)
    (hcond : q.container_resources.SameBandwidth q.key ∨
      q.number_of_containers ≤ q.container_resources.special) :
    ∃ b, ∀ name dt, dt ≠ .rm_nn → r.count name dt ≠ 0 →
      q.container_resources.diskBandwidth q.key dt = b := by
  have hmem : ∀ name dt, dt ≠ .rm_nn → r.count name dt ≠ 0 → ∃ ev ∈ evs, ev.type.deployed = dt := by
    intro name dt hdt hne
    rw [hevs.count name dt hdt] at hne
    obtain ⟨ev, hev, h⟩ := List.countP_pos_iff.1 (Nat.pos_of_ne_zero hne)
    exact ⟨ev, hev, (of_decide_eq_true h).2⟩
  have hsome : ∀ name dt, dt ≠ .rm_nn → r.count name dt ≠ 0 →
      ∃ c, q.container_resources.deploy? dt = some c := by
    intro name dt hdt hne
    obtain ⟨ev, hev, rfl⟩ := hmem name dt hdt hne
    obtain ⟨c, hc⟩ := Option.isSome_iff_exists.1 (hevs.requested ev hev)
    exact ⟨c, ContainerResources.deploy?_deployed hc⟩
  rcases hcond with hsame | hfew
  · refine ⟨q.container_resources.regular.bandwidth q.key, fun name dt hdt hne => ?_⟩
    obtain ⟨c, hc⟩ := hsome name dt hdt hne
    rw [ContainerResources.diskBandwidth, if_neg hdt, hc]
    cases dt with
    | rm_nn => exact absurd rfl hdt
    | irregular => exact hsame c hc
    | regular => cases hc; rfl
  · refine ⟨q.container_resources.diskBandwidth q.key .irregular, fun name dt hdt hne => ?_⟩
    cases dt with
    | rm_nn => exact absurd rfl hdt
    | irregular => rfl
    | regular =>
      obtain ⟨ev, hev, hreg⟩ := hmem name .regular hdt hne
      have htype : ev.type = .regular := by
        cases ht : ev.type <;> rw [ht] at hreg <;> cases hreg
      have hpos := hevs.allocated ev hev
      rw [htype, q.initial_toAllocate, if_neg (by simp)] at hpos
      rw [ContainerResources.special] at hfew
      simp only [toAllocate] at hpos
      omega

/-- **When the deployment respects the disks.** -/
theorem deploysWithin_of {q : AppRequest} (hcd : q.cfg.check_disks) (hfree : DisksNonneg q.hosts)
    (hcond : q.container_resources.SameBandwidth q.key ∨
      q.number_of_containers ≤ q.container_resources.special ∨ AtMostDisks 1 q.hosts) :
    q.DeploysWithin := by
  intro r bind_dir_name inv inv' infos h herr hdeploy name host disk d hhost hd
  obtain ⟨⟨inv₁, added⟩, hadd, hdeploy⟩ := bind_eq_ok.1 hdeploy
  obtain ⟨infos', hinfos', hall, htypes, hcount⟩ :=
    deployAppContainers_planned hcd h herr hadd bind_dir_name
  obtain ⟨infos'', hformat, hdeploy⟩ := bind_eq_ok.1 hdeploy
  cases pure_eq_ok.1 hdeploy
  have hsame : infos' = infos := by
    simp only [deployAppContainers, hadd, bind, Except.bind, hformat] at hinfos'
    cases hinfos'
    rfl
  subst hsame
  obtain ⟨evs, hevs⟩ := exists_plannedBy hcd h herr
  have hload : deployedLoad infos' q.key (name, disk) =
      Ledger.charged Placement.place (fun ev => q.env.bandwidth ev.type) evs (name, disk) := by
    rw [← or_assoc] at hcond
    rcases hcond with hsame | hone
    · obtain ⟨b, hb⟩ := hevs.diskBandwidth hsame
      exact deployedLoad_eq_of_const hevs hall htypes hcount hb (name, disk)
    · exact deployedLoad_eq_of_single hevs hall htypes hcount hhost
        fun disk' hd' => hone.single hhost (by rw [hd]; rfl) hd'
  rw [hload]
  exact hevs.charged_le hcd hhost hd (hfree name host disk d hhost hd)

/-! ## When it does not -/

/-- A disk of which nothing is used. -/
def idleDisk (read write : ℚ) : Disk := ⟨"/disk", read, read, write, write⟩

/-- A disk of which a little is used. -/
def roomyDisk (room : ℚ) : Disk := ⟨"/disk", room + 1, room, room + 1, room + 1⟩

theorem idleDisk_idle (read write : ℚ) : (idleDisk read write).Idle := by
  simp [Disk.Idle, Disk.total_free, Disk.total_max, idleDisk]

theorem idleDisk_free (read write : ℚ) :
    (idleDisk read write).free = (read, write, max read write) := by
  simp [Disk.free, Disk.total_free, Disk.total_max, idleDisk]

theorem roomyDisk_free (room : ℚ) : (roomyDisk room).free = (room, room + 1, room) := by
  simp [Disk.free, Disk.total_free, Disk.total_max, roomyDisk]

theorem roomyDisk_inUse (room : ℚ) : (roomyDisk room).InUse := by
  simp [Disk.InUse, Disk.total_free, Disk.total_max, roomyDisk]

/-- A request for containers of these resources, by Cyclic. -/
def cyclicRequest (cr : ContainerResources) (k : LimitKey) (n : ℤ) : AppRequest where
  cfg := ⟨true, true, false, false, false⟩
  server_name := "server"
  assignation_policy := "Cyclic"
  allow_oversubscription := decide (k = .min)
  hosts := .empty
  number_of_containers := n
  container_resources := cr
  app_name := "app"

theorem cyclicRequest_key (cr : ContainerResources) (k : LimitKey) (n : ℤ) :
    (cyclicRequest cr k n).key = k := by
  cases k <;> rfl

/-- The request on a host with two disks. -/
abbrev onTwoDisks (q : AppRequest) (E : ℚ) (d₀ d₁ : Disk) : AppRequest :=
  q.onRoomyHosts "host0" E (twoDisks d₀ d₁)

section twoDisks
variable {q : AppRequest} {E : ℚ} {d₀ d₁ : Disk}

theorem onTwoDisks_get? (hp : q.assignation_policy = "Cyclic") {name : String} {host : Host}
    (hhost : (onTwoDisks q E d₀ d₁).hosts.get? name = some host) :
    host.disks = some (twoDisks d₀ d₁) := by
  rw [q.onRoomyHosts_get?] at hhost
  have hhosts : policyHosts q.assignation_policy = ["host0"] := by simp [policyHosts, hp]
  split_ifs at hhost with hmem hname
  · cases hhost
    rfl
  · rw [hhosts, List.mem_singleton] at hmem
    exact absurd hmem hname

theorem onTwoDisks_nonneg (hp : q.assignation_policy = "Cyclic") (h₀ : 0 ≤ d₀.free)
    (h₁ : 0 ≤ d₁.free) : DisksNonneg (onTwoDisks q E d₀ d₁).hosts := by
  intro name host disk d hhost hd
  rw [Host.disk?, onTwoDisks_get? hp hhost, Option.bind_some, twoDisks, Dict.get?_set,
    Dict.get?_set] at hd
  split_ifs at hd
  · cases hd
    exact h₁
  · cases hd
    exact h₀
  · cases hd

theorem onTwoDisks_atMost (hp : q.assignation_policy = "Cyclic") {m : ℕ} (hm : 2 ≤ m) :
    AtMostDisks m (onTwoDisks q E d₀ d₁).hosts := by
  intro name host disks hhost hdisks
  rw [onTwoDisks_get? hp hhost, Option.some.injEq] at hdisks
  subst hdisks
  rw [Dict.keys, twoDisks_entries]
  exact hm

end twoDisks

section necessary
variable {cr : ContainerResources} {k : LimitKey} {n : ℤ} {c : Request}
  (hnn : cr.Nonneg k) (hn : cr.special < n) (hc : cr.deploy? .irregular = some c)
  (hall : ∀ E d₀ d₁, 0 ≤ d₀.free → 0 ≤ d₁.free →
    (onTwoDisks (cyclicRequest cr k n) E d₀ d₁).DeploysWithin)

theorem roomyDisk_nonneg {room : ℚ} (h : 0 ≤ room) : 0 ≤ (roomyDisk room).free := by
  rw [roomyDisk_free]
  exact ⟨h, add_nonneg h zero_le_one, h⟩

include hnn in
theorem cyclicRequest_nonneg : (cyclicRequest cr k n).container_resources.Nonneg
    (cyclicRequest cr k n).key := by
  rw [cyclicRequest_key]
  exact hnn

include hnn hn in
theorem cyclicRequest_room : 0 ≤ (cyclicRequest cr k n).room :=
  AppRequest.room_nonneg (cyclicRequest_nonneg hnn) hn.le

include hnn hn hc in
/-- There is a plan on the disks if one of them is in use and has room. -/
theorem exists_cyclicPlan (d₀ d₁ : Disk)
    (hroom : roomyDisk (cyclicRequest cr k n).room = d₀ ∨ roomyDisk (cyclicRequest cr k n).room = d₁) :
    ∃ E s evs, PlanOnTwoDisks (onTwoDisks (cyclicRequest cr k n) E d₀ d₁) d₀ d₁ s evs := by
  have hfree : ((cyclicRequest cr k n).room, (cyclicRequest cr k n).room, (cyclicRequest cr k n).room) ≤
      (roomyDisk (cyclicRequest cr k n).room).free := by
    rw [roomyDisk_free]
    exact ⟨le_rfl, by linarith, le_rfl⟩
  have hres : (cyclicRequest cr k n).reserved = false := by
    simp [AppRequest.reserved, reservesServer, cyclicRequest]
  refine exists_planOnTwoDisks rfl rfl hres (cyclicRequest_nonneg hnn) hn
    (by rw [show (cyclicRequest cr k n).container_resources = cr from rfl, hc]; rfl) ?_
  rcases hroom with rfl | rfl
  · exact ⟨"disk0", _, by simp [twoDisks, Dict.get?_set], hfree⟩
  · exact ⟨"disk1", _, Dict.get?_set_self _ _ _, hfree⟩

include hall in
/-- What the deployment puts on a disk is within its free bandwidth. -/
theorem deployedLoad_le_of_all {E : ℚ} {d₀ d₁ : Disk} {s : Plan} {evs : List Placement}
    (h : PlanOnTwoDisks (onTwoDisks (cyclicRequest cr k n) E d₀ d₁) d₀ d₁ s evs)
    (h₀ : 0 ≤ d₀.free) (h₁ : 0 ≤ d₁.free) {inv' : Inventory}
    {infos : List (DeployType × ContainerInfo)}
    (hdeploy : deployAppContainers (cyclicRequest cr k n).cfg cr "app"
      (formatAssignation s.assignation) s.disk_assignation (inventoryOf "host0") = .ok (inv', infos))
    {disk : String} {d : Disk} (hd : (twoDisks d₀ d₁).get? disk = some d) :
    deployedLoad infos k ("host0", disk) ≤ d.free := by
  obtain ⟨host, -, hhost, hdisks⟩ := h.host
  have hle := hall E d₀ d₁ h₀ h₁ _ "app" (inventoryOf "host0") inv' infos
    h.getContainerAssignationForApp rfl hdeploy "host0" host disk d hhost
    (by rw [Host.disk?, hdisks, Option.bind_some, hd])
  rwa [show (onTwoDisks (cyclicRequest cr k n) E d₀ d₁).key = k from cyclicRequest_key cr k n] at hle

include hnn hn hc hall

/-- A disk that fits a regular container fits an irregular one. -/
theorem irregular_le_of_all {d : Disk} (hfree : 0 ≤ d.free) (hidle : d.Idle)
    (hfits : d.Fits (cr.regular.read k) (cr.regular.write k)) : c.bandwidth k ≤ d.free := by
  obtain ⟨E, s, evs, h⟩ := exists_cyclicPlan hnn hn hc d _ (.inr rfl)
  have hkey : (onTwoDisks (cyclicRequest cr k n) E d
    (roomyDisk (cyclicRequest cr k n).room)).key = k := cyclicRequest_key cr k n
  obtain ⟨inv', infos, hdeploy, hle⟩ := h.irregular_on_idle rfl (hkey.symm ▸ hnn)
    (hkey.symm ▸ hfits) hidle
  rw [hkey] at hle
  have hb : cr.diskBandwidth k .irregular = c.bandwidth k := by
    simp [ContainerResources.diskBandwidth, hc]
  calc c.bandwidth k = cr.diskBandwidth k .irregular := hb.symm
    _ ≤ deployedLoad infos k ("host0", "disk0") := hle
    _ ≤ d.free := deployedLoad_le_of_all hall h hfree
      (roomyDisk_nonneg (cyclicRequest_room hnn hn)) hdeploy (by simp [twoDisks, Dict.get?_set])

/-- A disk that fits an irregular container fits a regular one. -/
theorem regular_le_of_all {d : Disk} (hfree : 0 ≤ d.free) (hidle : d.Idle)
    (hfits : d.Fits (c.read k) (c.write k)) : cr.regular.bandwidth k ≤ d.free := by
  by_contra hnot
  obtain ⟨E, s, evs, h⟩ := exists_cyclicPlan hnn hn hc _ d (.inl rfl)
  have hkey : (onTwoDisks (cyclicRequest cr k n) E (roomyDisk (cyclicRequest cr k n).room)
    d).key = k := cyclicRequest_key cr k n
  obtain ⟨inv', infos, hdeploy, hle⟩ := h.regular_on_idle rfl (hkey.symm ▸ hnn) hc
    (hkey.symm ▸ hfits) hidle hfree (roomyDisk_inUse _) (hkey.symm ▸ hnot)
  rw [hkey] at hle
  refine hnot (calc cr.regular.bandwidth k = cr.diskBandwidth k .regular := rfl
    _ ≤ deployedLoad infos k ("host0", "disk1") := hle
    _ ≤ d.free := deployedLoad_le_of_all hall h
      (roomyDisk_nonneg (cyclicRequest_room hnn hn)) hfree hdeploy (Dict.get?_set_self _ _ _))

/-- **Irregular containers request what regular ones do**, if all plans on two
    disks are respected. -/
theorem bandwidth_eq_of_all : c.bandwidth k = cr.regular.bandwidth k := by
  have hcnn : 0 ≤ c.read k ∧ 0 ≤ c.write k := by
    have hb := hnn.diskBandwidth .irregular
    simp only [ContainerResources.diskBandwidth, hc] at hb
    exact ⟨hb.1, hb.2.1⟩
  have hrnn : 0 ≤ cr.regular.read k ∧ 0 ≤ cr.regular.write k := (hnn .regular cr.regular rfl).2
  have hfree : ∀ {r w : ℚ}, 0 ≤ r → 0 ≤ w → 0 ≤ (idleDisk r w).free := by
    intro r w hr hw
    rw [idleDisk_free]
    exact ⟨hr, hw, le_max_of_le_left hr⟩
  -- disks that just fit the reads or the writes of a container
  have hreads : ∀ {r w : ℚ}, 0 ≤ r → 0 ≤ w → (idleDisk r (r + w)).Fits r w := by
    intro r w hr hw
    have h := idleDisk_free r (r + w)
    simp only [Disk.free, Prod.mk.injEq] at h
    rw [Disk.Fits, h.1, h.2.1, h.2.2]
    exact ⟨le_rfl, by linarith, le_max_right _ _⟩
  have hwrites : ∀ {r w : ℚ}, 0 ≤ r → 0 ≤ w → (idleDisk (r + w) w).Fits r w := by
    intro r w hr hw
    have h := idleDisk_free (r + w) w
    simp only [Disk.free, Prod.mk.injEq] at h
    rw [Disk.Fits, h.1, h.2.1, h.2.2]
    exact ⟨by linarith, le_rfl, le_max_left _ _⟩
  have h₁ := irregular_le_of_all hnn hn hc hall (hfree hrnn.1 (add_nonneg hrnn.1 hrnn.2))
    (idleDisk_idle _ _) (hreads hrnn.1 hrnn.2)
  have h₂ := irregular_le_of_all hnn hn hc hall (hfree (add_nonneg hrnn.1 hrnn.2) hrnn.2)
    (idleDisk_idle _ _) (hwrites hrnn.1 hrnn.2)
  have h₃ := regular_le_of_all hnn hn hc hall (hfree hcnn.1 (add_nonneg hcnn.1 hcnn.2))
    (idleDisk_idle _ _) (hreads hcnn.1 hcnn.2)
  have h₄ := regular_le_of_all hnn hn hc hall (hfree (add_nonneg hcnn.1 hcnn.2) hcnn.2)
    (idleDisk_idle _ _) (hwrites hcnn.1 hcnn.2)
  rw [idleDisk_free] at h₁ h₂ h₃ h₄
  have hread : c.read k = cr.regular.read k := le_antisymm h₁.1 h₃.1
  have hwrite : c.write k = cr.regular.write k := le_antisymm h₂.2.1 h₄.2.1
  simp only [Request.bandwidth, hread, hwrite]

end necessary

/-- The same containers under the same limit, whatever the hosts and the policy. -/
def AppRequest.SameContainers (q q' : AppRequest) : Prop :=
  q'.container_resources = q.container_resources ∧ q'.key = q.key ∧
    q'.number_of_containers = q.number_of_containers

end ServerlessYarn
