/-
  ServerlessYARN model — planned and deployed disks.

  The planner chooses a disk for every container, but only the number of
  containers of each disk reaches the deployment, which hands the disks out
  anew: irregular containers first, each to the first disk not used up.

  * `disk_planning`: the plan is sound, and the deployment uses every disk as
    often as planned;
  * `deployedLoad_eq_of_const`, `deployedLoad_eq_of_single`: the containers deployed on a
    disk request what was planned for it if all request the same bandwidth, or if the
    host has one disk.
-/
import ServerlessYarn.Deploy

namespace ServerlessYarn

/-! ## The containers of a call -/

/-- A type of which containers are assigned is requested. -/
theorem AssignationResult.deploy?_isSome {q : AppRequest} {r : AssignationResult}
    (h : getContainerAssignationForApp q = .ok r) (herr : r.error = none) {name : String}
    {dt : DeployType} (hpos : r.count name dt ≠ 0) :
    (q.container_resources.deploy? dt).isSome := by
  obtain ⟨s, hs, -, rfl⟩ := getContainerAssignationForApp_ok h herr
  rw [Plan.formatted_count] at hpos
  obtain ⟨t, ht, hcount⟩ := Finset.exists_ne_zero_of_sum_ne_zero hpos
  rcases hc : q.container_resources.get? t with _ | c
  · exact absurd (planContainers_count_of_absent hs hc name) hcount
  · rw [← (Finset.mem_filter.1 ht).2, ContainerResources.deploy?_deployed hc]
    rfl

section deploy
variable {q : AppRequest} {r : AssignationResult} (hcd : q.cfg.check_disks)
  (h : getContainerAssignationForApp q = .ok r) (herr : r.error = none)
  {inv inv' : Inventory} {added : AddedContainers}
  (hadd : addPlanned r.new_containers inv = .ok (inv', added))

include hadd in
theorem countP_added (name : String) (dt : DeployType) :
    ((addedList added).countP fun x => x.host = name ∧ x.type = dt) = r.count name dt := by
  rw [countP_addedList, addPlanned_length hadd]
  rfl

include hcd h herr hadd in
/-- **The deployment hands out the planned disks**: every container but the
    master gets one, and every disk is used as often as planned. -/
theorem formatContainers_planned (bind_dir_name : String) :
    ∃ infos, formatContainers q.cfg q.container_resources bind_dir_name (addedList added)
        r.disk_assignation = .ok infos ∧
      List.Forall₂ (Describes q.container_resources) (addedList added) infos ∧
      ∀ hd, (infos.countP fun i => i.2.attached = some hd) = r.disk_assignation.planned hd := by
  obtain ⟨evs, hevs⟩ := exists_plannedBy hcd h herr
  refine formatContainers_spec hcd (addedList added) r.disk_assignation ?_ ?_
  · intro x hx
    have hcount : r.count x.host x.type ≠ 0 := by
      rw [← countP_added hadd]
      exact (List.countP_pos_iff.2 ⟨x, hx, by simp⟩).ne'
    exact AssignationResult.deploy?_isSome h herr hcount
  · intro host
    rw [hevs.plannedOn, ← countP_added hadd, ← countP_added hadd,
      ← countP_with_disk Added.host Added.type]

end deploy

/-- The containers of a host and a type, among their descriptions. -/
theorem countP_described {cr : ContainerResources} {l : List Added}
    {infos : List (DeployType × ContainerInfo)} (h : List.Forall₂ (Describes cr) l infos)
    (name : String) (dt : DeployType) :
    (infos.countP fun i => i.2.host = name ∧ i.1 = dt) =
      l.countP fun x => x.host = name ∧ x.type = dt := by
  induction h with
  | nil => rfl
  | cons hx _ ih => simp only [List.countP_cons, ih, hx.host, hx.type]

theorem exists_described {cr : ContainerResources} {l : List Added}
    {infos : List (DeployType × ContainerInfo)} (h : List.Forall₂ (Describes cr) l infos)
    {i : DeployType × ContainerInfo} (hi : i ∈ infos) : ∃ x ∈ l, Describes cr x i := by
  induction h with
  | nil => simp at hi
  | cons hx _ ih =>
    rcases List.mem_cons.1 hi with rfl | hi
    · exact ⟨_, List.mem_cons_self, hx⟩
    · obtain ⟨y, hy, hd⟩ := ih hi
      exact ⟨y, List.mem_cons_of_mem _ hy, hd⟩

/-- **The deployment of a successful call**: it only fails if the containers
    cannot be added to the inventory. -/
theorem deployAppContainers_planned {q : AppRequest} {r : AssignationResult}
    (hcd : q.cfg.check_disks) (h : getContainerAssignationForApp q = .ok r) (herr : r.error = none)
    {inv inv' : Inventory} {added : AddedContainers}
    (hadd : addPlanned r.new_containers inv = .ok (inv', added)) (bind_dir_name : String) :
    ∃ infos, deployAppContainers q.cfg q.container_resources bind_dir_name r.new_containers
        r.disk_assignation inv = .ok (inv', infos) ∧
      List.Forall₂ (Describes q.container_resources) (addedList added) infos ∧
      (∀ name dt, (infos.countP fun i => i.2.host = name ∧ i.1 = dt) = r.count name dt) ∧
      ∀ hd, (infos.countP fun i => i.2.attached = some hd) = r.disk_assignation.planned hd := by
  obtain ⟨infos, hinfos, hall, hcount⟩ := formatContainers_planned hcd h herr hadd bind_dir_name
  refine ⟨infos, ?_, hall, fun name dt => ?_, hcount⟩
  · simp only [deployAppContainers, hadd, bind, Except.bind, hinfos]
    rfl
  · rw [countP_described hall, countP_added hadd]

/-- What a container requests of its disk. -/
def ContainerInfo.bandwidth (i : ContainerInfo) (k : LimitKey) : Bandwidth :=
  (i.disk.map fun d =>
    (d.disk_read.at k, d.disk_write.at k, d.disk_read.at k + d.disk_write.at k)).getD 0

/-- What the containers on a disk request of it in all. -/
def deployedLoad (infos : List (DeployType × ContainerInfo)) (k : LimitKey)
    (hd : String × String) : Bandwidth :=
  Ledger.charged (fun i : DeployType × ContainerInfo => i.2.attached) (fun i => i.2.bandwidth k)
    infos hd

/-- What a container of a type requests of its disk; the master has none. -/
def ContainerResources.diskBandwidth (cr : ContainerResources) (k : LimitKey) (dt : DeployType) :
    Bandwidth :=
  if dt = .rm_nn then 0 else ((cr.deploy? dt).map (·.bandwidth k)).getD 0

theorem Describes.bandwidth {cr : ContainerResources} {x : Added} {i : DeployType × ContainerInfo}
    (h : Describes cr x i) (k : LimitKey) : i.2.bandwidth k = cr.diskBandwidth k i.1 := by
  obtain ⟨c, hc, -, -, hlimits⟩ := h.limits
  unfold ContainerInfo.bandwidth ContainerResources.diskBandwidth
  rcases hd : i.2.disk with _ | d
  · have hrm : x.type = .rm_nn := by
      by_contra hne
      simpa [hd] using h.disk.2 hne
    rw [h.type, if_pos hrm]
    rfl
  · have hrm : x.type ≠ .rm_nn := h.disk.1 (by simp [hd])
    rw [h.type, if_neg hrm, hc]
    simp only [Option.map_some, Option.getD_some, (hlimits d hd).1, (hlimits d hd).2]
    rfl

/-- The planner charges what the deployment type requests. -/
theorem AssignationResult.PlannedBy.bandwidth {q : AppRequest} {r : AssignationResult}
    {evs : List Placement} (h : r.PlannedBy q evs) {ev : Placement} (hev : ev ∈ evs)
    {hd : String × String} (hpl : ev.place = some hd) :
    q.env.bandwidth ev.type = q.container_resources.diskBandwidth q.key ev.type.deployed := by
  obtain ⟨c, hc⟩ := Option.isSome_iff_exists.1 (h.requested ev hev)
  have hrm : ev.type.deployed ≠ .rm_nn :=
    (h.disk ev hev).1 (by rw [(Placement.place_eq.1 hpl).2]; rfl)
  have hc' : q.env.container_resources.get? ev.type = some c := hc
  simp only [Env.bandwidth, hc', ContainerResources.diskBandwidth, if_neg hrm,
    ContainerResources.deploy?_deployed hc, Option.map_some, Option.getD_some]
  rfl

/-- An irregular container requests the bandwidth of a regular one. -/
def ContainerResources.SameBandwidth (cr : ContainerResources) (k : LimitKey) : Prop :=
  ∀ c, cr.deploy? .irregular = some c → c.bandwidth k = cr.regular.bandwidth k

section load
variable {q : AppRequest} {r : AssignationResult} {evs : List Placement}
  {infos : List (DeployType × ContainerInfo)} {l : List Added}
  (hevs : r.PlannedBy q evs) (hall : List.Forall₂ (Describes q.container_resources) l infos)
  (htypes : ∀ name dt, (infos.countP fun i => i.2.host = name ∧ i.1 = dt) = r.count name dt)
  (hcount : ∀ hd, (infos.countP fun i => i.2.attached = some hd) = r.disk_assignation.planned hd)
include hevs hall hcount

include htypes in
/-- If all containers with a disk request the same, only their number matters. -/
theorem deployedLoad_eq_of_const {b : Bandwidth}
    (hb : ∀ name dt, dt ≠ .rm_nn → r.count name dt ≠ 0 →
      q.container_resources.diskBandwidth q.key dt = b) (hd : String × String) :
    deployedLoad infos q.key hd =
      Ledger.charged Placement.place (fun ev => q.env.bandwidth ev.type) evs hd := by
  rw [deployedLoad, Ledger.charged_const (c := b), Ledger.charged_const (c := b), hcount,
    hevs.planned]
  · intro ev hev hpl
    have hdt : ev.type.deployed ≠ .rm_nn :=
      (hevs.disk ev hev).1 (by rw [(Placement.place_eq.1 hpl).2]; rfl)
    rw [hevs.bandwidth hev hpl]
    refine hb ev.host _ hdt ?_
    rw [hevs.count _ _ hdt]
    exact (List.countP_pos_iff.2 ⟨ev, hev, by simp⟩).ne'
  · intro i hi hatt
    obtain ⟨x, -, hx⟩ := exists_described hall hi
    rw [hx.bandwidth]
    refine hb i.2.host _ ?_ ?_
    · rw [hx.type]
      refine hx.disk.1 ?_
      obtain ⟨d, hd, -⟩ := Option.map_eq_some_iff.1 hatt
      simp [hd]
    · rw [← htypes]
      exact (List.countP_pos_iff.2 ⟨i, hi, by simp⟩).ne'

include htypes in
/-- If the host has one disk, all its containers are on it in both. -/
theorem deployedLoad_eq_of_single {name disk : String} {host : Host}
    (hhost : q.hosts.get? name = some host)
    (hone : ∀ disk', (host.disk? disk').isSome → disk' = disk) :
    deployedLoad infos q.key (name, disk) =
      Ledger.charged Placement.place (fun ev => q.env.bandwidth ev.type) evs (name, disk) := by
  have hplace : ∀ ev ∈ evs, (ev.place = some (name, disk) ↔
      ev.host = name ∧ ev.type.deployed ≠ .rm_nn) := by
    intro ev hev
    rw [← hevs.disk ev hev, Placement.place_eq]
    constructor
    · rintro ⟨hn, hd⟩
      exact ⟨hn, by rw [hd]; rfl⟩
    · rintro ⟨hn, hd⟩
      obtain ⟨disk', hd⟩ := Option.isSome_iff_exists.1 hd
      obtain ⟨host', hhost', hsome⟩ := hevs.disk_mem ev hev disk' hd
      rw [hn, hhost] at hhost'
      cases hhost'
      exact ⟨hn, hone disk' hsome ▸ hd⟩
  have hatt : ∀ i ∈ infos, (i.2.attached = some (name, disk) ↔
      i.2.host = name ∧ i.1 ≠ .rm_nn) := by
    intro i hi
    obtain ⟨x, -, hx⟩ := exists_described hall hi
    rw [hx.type, ← hx.disk, ContainerInfo.attached]
    constructor
    · intro ha
      obtain ⟨d, hd, he⟩ := Option.map_eq_some_iff.1 ha
      exact ⟨congrArg Prod.fst he, by rw [hd]; rfl⟩
    · rintro ⟨hn, hd⟩
      obtain ⟨d, hd⟩ := Option.isSome_iff_exists.1 hd
      have hpos : 0 < r.disk_assignation.planned (name, d.disk) := by
        rw [← hcount]
        exact List.countP_pos_iff.2 ⟨i, hi, by simp [ContainerInfo.attached, hd, hn]⟩
      rw [hevs.planned] at hpos
      obtain ⟨ev, hev, hpl⟩ := List.countP_pos_iff.1 hpos
      obtain ⟨hevn, hevd⟩ := Placement.place_eq.1 (of_decide_eq_true hpl)
      obtain ⟨host', hhost', hsome⟩ := hevs.disk_mem ev hev d.disk hevd
      rw [hevn, hhost] at hhost'
      cases hhost'
      rw [hd, Option.map_some, hn, hone d.disk hsome]
  have hbw : ∀ i ∈ infos, i.2.attached = some (name, disk) →
      i.2.bandwidth q.key = q.container_resources.diskBandwidth q.key i.1 := by
    intro i hi _
    obtain ⟨x, -, hx⟩ := exists_described hall hi
    exact hx.bandwidth q.key
  rw [deployedLoad, Ledger.charged_eq_sum (fun i : DeployType × ContainerInfo => i.1)
      (q.container_resources.diskBandwidth q.key) hbw,
    Ledger.charged_eq_sum (fun ev : Placement => ev.type.deployed)
      (q.container_resources.diskBandwidth q.key) fun ev hev hpl => hevs.bandwidth hev hpl]
  refine Finset.sum_congr rfl fun dt _ => ?_
  by_cases hdt : dt = .rm_nn
  · subst hdt
    simp [ContainerResources.diskBandwidth]
  · have hi : (infos.countP fun i => i.2.attached = some (name, disk) ∧ i.1 = dt) =
        r.count name dt := by
      rw [← htypes]
      refine List.countP_congr fun i hi => ?_
      have := hatt i hi
      simp only [decide_eq_true_eq, this]
      exact ⟨fun ⟨⟨hn, _⟩, ht⟩ => ⟨hn, ht⟩, fun ⟨hn, ht⟩ => ⟨⟨hn, ht ▸ hdt⟩, ht⟩⟩
    have he : (evs.countP fun ev => ev.place = some (name, disk) ∧ ev.type.deployed = dt) =
        r.count name dt := by
      rw [hevs.count name dt hdt]
      refine List.countP_congr fun ev hev => ?_
      have := hplace ev hev
      simp only [decide_eq_true_eq, this]
      exact ⟨fun ⟨⟨hn, _⟩, ht⟩ => ⟨hn, ht⟩, fun ⟨hn, ht⟩ => ⟨⟨hn, ht ▸ hdt⟩, ht⟩⟩
    rw [hi, he]

end load

end ServerlessYarn
