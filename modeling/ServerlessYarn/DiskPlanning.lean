/-
  ServerlessYARN model — the disks of the placement.

  The bandwidth of a disk is kept twice: in `disk_assignation`, where the
  planner charges every container, and on the host record, which Fill-up does
  not touch.  The bandwidth is a triple (read, write, both together).

  * `Placed.agree`: under Cyclic and Best-effort the two records agree;
  * `Placed.disk_charge`: every placement charges a disk that has the bandwidth;
  * `exists_plannedBy`, `AssignationResult.PlannedBy.charged_le`: a successful
    call charges no disk more than it had, and the counters of a host add up to
    its containers with a disk.
-/
import Mathlib.Algebra.Order.Monoid.Prod
import ServerlessYarn.Capacity

namespace ServerlessYarn

/-! ## Bandwidth -/

/-- Read, write, and both together. -/
abbrev Bandwidth := ℚ × ℚ × ℚ

def Request.bandwidth (c : Request) (k : LimitKey) : Bandwidth :=
  (c.read k, c.write k, c.read k + c.write k)

/-- What the planner has left of a disk. -/
def DiskPlan.free (p : DiskPlan) : Bandwidth := (p.free_read, p.free_write, p.free_total)

/-- What a disk has free. -/
def Disk.free (d : Disk) : Bandwidth := (d.free_read, d.free_write, d.total_free)

theorem DiskPlan.free_charge (p : DiskPlan) (c : Request) (k : LimitKey) :
    (p.charge c k).free = p.free - c.bandwidth k := rfl

theorem Disk.free_charge (d : Disk) (c : Request) (k : LimitKey) :
    (d.charge c k).free = d.free - c.bandwidth k := by
  simp only [free, Disk.total_free_charge]
  rfl

theorem checkAvailableDisk_iff {p : DiskPlan} {c : Request} {k : LimitKey} :
    checkAvailableDisk p c k ↔ c.bandwidth k ≤ p.free := by
  simp [checkAvailableDisk, Request.bandwidth, DiskPlan.free, Prod.le_def, and_assoc]

theorem Disk.fits_iff_le {d : Disk} {c : Request} {k : LimitKey} :
    d.Fits (c.read k) (c.write k) ↔ c.bandwidth k ≤ d.free := by
  simp [Disk.Fits, Request.bandwidth, Disk.free, Prod.le_def]

/-! ## The two records -/

/-- `disk_assignation[host][disk]`. -/
def DiskAssignation.disk? (a : DiskAssignation) (hd : String × String) : Option DiskPlan :=
  (a.get? hd.1).bind (·.get? hd.2)

/-- `host['resources']['disks'].get(disk)`. -/
def Host.disk? (h : Host) (disk : String) : Option Disk := h.disks.bind (·.get? disk)

/-- What holds of the disks of the only host. -/
theorem Hosts.forall_disk_single {p : Disk → Prop} (name : String) {host : Host}
    {disks : Dict String Disk} (hdisks : host.disks = some disks) (h : ∀ e ∈ disks.entries, p e.2)
    (name' : String) (host' : Host) (disk : String) (d : Disk)
    (hhost : (Dict.empty.set name host).get? name' = some host') (hd : host'.disk? disk = some d) :
    p d := by
  rw [Dict.get?_set] at hhost
  split_ifs at hhost
  · cases hhost
    rw [Host.disk?, hdisks] at hd
    exact h (disk, d) (Dict.get?_eq_some_iff.1 hd)
  · cases hhost

/-- The two records of every disk agree. -/
def Plan.Agree (s : Plan) : Prop :=
  ∀ name host disk, s.hosts.get? name = some host →
    (s.disk_assignation.disk? (name, disk)).map DiskPlan.free = (host.disk? disk).map Disk.free

theorem DiskAssignation.disk?_modify (a : DiskAssignation) (name disk : String)
    (f : DiskPlan → DiskPlan) (hd : String × String) :
    disk? (a.modify name fun ds => ds.modify disk f) hd =
      if hd = (name, disk) then (a.disk? hd).map f else a.disk? hd := by
  rcases hd with ⟨n, d⟩
  unfold disk?
  rw [Dict.get?_modify]
  by_cases hn : n = name
  · subst hn
    rcases ha : Dict.get? a n with _ | ds
    · simp
    · by_cases hd : d = disk
      · subst hd; simp
      · simp [hd, Dict.get?_modify_of_ne _ _ hd]
  · simp [hn]

theorem Host.disk?_place (h : Host) (tr : Tracking) (c : Request) (k : LimitKey)
    (o : Option String) (disk : String) :
    (h.place tr c k o).disk? disk =
      if tr.disks ∧ o = some disk then (h.disk? disk).map (·.charge c k) else h.disk? disk := by
  unfold disk?
  cases o with
  | none => simp [Host.place_disks_none]
  | some d =>
    rw [Host.place_disks_some]
    rcases h.disks with _ | ds
    · split_ifs <;> rfl
    · by_cases hd : disk = d
      · subst hd; by_cases htr : tr.disks <;> simp [htr]
      · have hd' : d ≠ disk := Ne.symm hd
        by_cases htr : tr.disks <;> simp [htr, hd', Dict.get?_modify_of_ne _ _ hd]

section step
variable {e : Env} {tr : Tracking} {s s' : Plan} {ev : Placement}

/-- Where a placement charges the disks. -/
def Placement.place (ev : Placement) : Option (String × String) := ev.disk.map (ev.host, ·)

theorem Placement.place_eq {ev : Placement} {name disk : String} :
    ev.place = some (name, disk) ↔ ev.host = name ∧ ev.disk = some disk := by
  rcases ev with ⟨h, t, _ | d⟩ <;> simp [place]

theorem Placed.disk? (h : Placed e tr s ev s') (hd : String × String) :
    ∃ c, e.container_resources.get? ev.type = some c ∧ s'.disk_assignation.disk? hd =
      if ev.place = some hd then (s.disk_assignation.disk? hd).map (·.charge c e.limit_key)
      else s.disk_assignation.disk? hd := by
  obtain ⟨c, host, hc, -, -, -, rfl⟩ := h.step
  refine ⟨c, hc, ?_⟩
  rcases ev with ⟨name, t, _ | d⟩
  · simp [Plan.place, Placement.place]
  · simp only [Plan.place, DiskAssignation.disk?_modify, Placement.place, Option.map_some,
      Option.some.injEq, eq_comm (a := hd)]

/-- **The records agree after a placement** that charges both. -/
theorem Placed.agree (htr : tr.disks) (h : Placed e tr s ev s') (ha : s.Agree) : s'.Agree := by
  intro name host' disk hhost'
  obtain ⟨c, hc, hdisk⟩ := h.disk? (name, disk)
  obtain ⟨c', host, hc', hhost, -, -, rfl⟩ := h.step
  obtain rfl : c = c' := Option.some.inj (hc.symm.trans hc')
  rw [hdisk]
  simp only [Plan.place, Dict.get?_modify] at hhost'
  by_cases hn : name = ev.host
  · subst hn
    rw [if_pos rfl, hhost, Option.map_some] at hhost'
    cases hhost'
    have hagree := ha ev.host host disk hhost
    rw [Host.disk?_place]
    by_cases hev : ev.disk = some disk
    · rw [if_pos (Placement.place_eq.2 ⟨rfl, hev⟩), if_pos ⟨htr, hev⟩, Option.map_map,
        Option.map_map]
      have hp : DiskPlan.free ∘ (·.charge c e.limit_key) =
          (· - c.bandwidth e.limit_key) ∘ DiskPlan.free := rfl
      have hd : Disk.free ∘ (·.charge c e.limit_key) =
          (· - c.bandwidth e.limit_key) ∘ Disk.free :=
        funext fun d => d.free_charge c e.limit_key
      rw [hp, hd, ← Option.map_map, ← Option.map_map, hagree]
    · rw [if_neg fun hpl => hev (Placement.place_eq.1 hpl).2, if_neg fun hpl => hev hpl.2, hagree]
  · rw [if_neg hn] at hhost'
    rw [if_neg fun hpl => hn (Placement.place_eq.1 hpl).1.symm]
    exact ha name host' disk hhost'

/-- `container_resources[t]` as a bandwidth. -/
def Env.bandwidth (e : Env) (t : ContainerType) : Bandwidth :=
  ((e.container_resources.get? t).map (·.bandwidth e.limit_key)).getD 0

/-- What the planner has left of the disks. -/
def DiskAssignation.free (a : DiskAssignation) (hd : String × String) : Bandwidth :=
  ((a.disk? hd).map DiskPlan.free).getD 0

/-- **A placement charges its disk**, which has the bandwidth. -/
theorem Placed.disk_charge (h : Placed e tr s ev s') (ha : tr.disks → s.Agree) :
    Ledger.Charge Placement.place (fun ev => e.bandwidth ev.type) s.disk_assignation.free ev
      s'.disk_assignation.free := by
  rintro ⟨name, disk⟩
  obtain ⟨c, hc, hdisk⟩ := h.disk? (name, disk)
  obtain ⟨c', host, hc', hhost, -, hchosen, -⟩ := h.step
  obtain rfl : c = c' := Option.some.inj (hc.symm.trans hc')
  have hcost : e.bandwidth ev.type = c.bandwidth e.limit_key := by simp [Env.bandwidth, hc]
  by_cases hpl : ev.place = some (name, disk)
  · rw [if_pos hpl] at hdisk ⊢
    obtain ⟨rfl, hevd⟩ := Placement.place_eq.1 hpl
    obtain ⟨plans, p, hplans, hp, hfits⟩ := hchosen disk hevd
    have hget : s.disk_assignation.disk? (ev.host, disk) = some p := by
      simp [DiskAssignation.disk?, hplans, hp]
    have hle : c.bandwidth e.limit_key ≤ p.free := by
      split_ifs at hfits with htr
      · obtain ⟨disks, d, hdisks, hd, hfit⟩ := getFreestDisk_fits hfits
        have hagree := ha htr ev.host host disk hhost
        have hhd : host.disk? disk = some d := by simp [Host.disk?, hdisks, hd]
        rw [hget, hhd, Option.map_some, Option.map_some, Option.some.injEq] at hagree
        exact hagree ▸ Disk.fits_iff_le.1 hfit
      · exact checkAvailableDisk_iff.1 hfits
    have hfree : s.disk_assignation.free (ev.host, disk) = p.free := by
      simp [DiskAssignation.free, hget]
    have hfree' : s'.disk_assignation.free (ev.host, disk) = p.free - c.bandwidth e.limit_key := by
      simp [DiskAssignation.free, hdisk, hget, DiskPlan.free_charge]
    simp only [hcost, hfree, hfree', and_true]
    exact hle
  · rw [if_neg hpl] at hdisk ⊢
    simp only [DiskAssignation.free, hdisk]

/-! ## The counters of the disks -/

/-- `disk_assignation[host][disk]['new_containers']`. -/
def DiskAssignation.planned (a : DiskAssignation) (hd : String × String) : ℕ :=
  ((a.disk? hd).map (·.new_containers)).getD 0

/-- The sum of the counters of a host. -/
def DiskAssignation.plannedOn (a : DiskAssignation) (name : String) : ℕ :=
  ((a.get? name).map fun ds => ds.sum fun _ p => p.new_containers).getD 0

/-- The disk of a placement is one of `disk_assignation`. -/
theorem Placed.disk_mem (h : Placed e tr s ev s') {disk : String} (hd : ev.disk = some disk) :
    ∃ plans p, s.disk_assignation.get? ev.host = some plans ∧ plans.get? disk = some p := by
  obtain ⟨c, host, -, -, -, hchosen, -⟩ := h.step
  obtain ⟨plans, p, hplans, hp, -⟩ := hchosen disk hd
  exact ⟨plans, p, hplans, hp⟩

theorem Placed.disk?_isSome (h : Placed e tr s ev s') (hd : String × String) :
    (s'.disk_assignation.disk? hd).isSome = (s.disk_assignation.disk? hd).isSome := by
  obtain ⟨c, -, hdisk⟩ := h.disk? hd
  rw [hdisk]
  split_ifs
  · rw [Option.isSome_map]
  · rfl

theorem Placed.planned (h : Placed e tr s ev s') (hd : String × String) :
    s'.disk_assignation.planned hd =
      s.disk_assignation.planned hd + if ev.place = some hd then 1 else 0 := by
  rcases hd with ⟨name, disk⟩
  obtain ⟨c, -, hdisk⟩ := h.disk? (name, disk)
  unfold DiskAssignation.planned
  rw [hdisk]
  split_ifs with hpl
  · obtain ⟨rfl, hev⟩ := Placement.place_eq.1 hpl
    obtain ⟨plans, p, hplans, hp⟩ := h.disk_mem hev
    simp [DiskAssignation.disk?, hplans, hp, DiskPlan.charge]
  · rfl

theorem Placed.plannedOn (h : Placed e tr s ev s') (name : String) :
    s'.disk_assignation.plannedOn name = s.disk_assignation.plannedOn name +
      if ev.host = name ∧ e.needsDisk ev.type then 1 else 0 := by
  rw [← h.disk_isSome]
  rcases hev : ev.disk with _ | d
  · obtain ⟨c, host, -, -, -, -, rfl⟩ := h.step
    simp [Plan.place, hev]
  · obtain ⟨plans, p, hplans, hp⟩ := h.disk_mem hev
    obtain ⟨c, host, -, -, -, -, rfl⟩ := h.step
    simp only [DiskAssignation.plannedOn, Plan.place, hev, Dict.get?_modify, Option.isSome_some,
      and_true]
    by_cases hn : name = ev.host
    · subst hn
      rw [if_pos rfl, if_pos rfl, hplans, Option.map_some, Option.map_some, Option.getD_some,
        Option.map_some, Option.getD_some]
      exact Dict.sum_modify _ hp rfl
    · rw [if_neg hn, if_neg (Ne.symm hn), Nat.add_zero]

end step

/-! ## A whole call -/

theorem AppRequest.initial_disk_assignation {q : AppRequest} (hcd : q.cfg.check_disks)
    (name : String) : q.initial.disk_assignation.get? name =
      (q.initial.hosts.get? name).bind fun h => h.disks.map (·.mapVal fun _ d => d.plan) := by
  simp only [initial, initialPlan, hcd, if_true, Dict.get?_filterMap]

theorem AppRequest.initial_disk? {q : AppRequest} (hcd : q.cfg.check_disks) (name disk : String) :
    q.initial.disk_assignation.disk? (name, disk) =
      ((q.initial.hosts.get? name).bind (·.disk? disk)).map Disk.plan := by
  unfold DiskAssignation.disk?
  rw [AppRequest.initial_disk_assignation hcd]
  rcases q.initial.hosts.get? name with _ | h
  · rfl
  · simp only [Option.bind_some, Host.disk?]
    rcases h.disks with _ | ds
    · rfl
    · simp

theorem AppRequest.initial_agree {q : AppRequest} (hcd : q.cfg.check_disks) :
    q.initial.Agree := by
  intro name host disk hhost
  rw [AppRequest.initial_disk? hcd, hhost, Option.bind_some, Option.map_map]
  rfl

theorem AppRequest.initial_plannedOn {q : AppRequest} (hcd : q.cfg.check_disks) (name : String) :
    q.initial.disk_assignation.plannedOn name = 0 := by
  unfold DiskAssignation.plannedOn
  rw [AppRequest.initial_disk_assignation hcd]
  rcases q.initial.hosts.get? name with _ | h
  · rfl
  · rcases hds : h.disks with _ | ds
    · simp [hds]
    · simp [hds, Dict.sum, Dict.mapVal, Disk.plan, Function.comp_def]

theorem AppRequest.initial_planned {q : AppRequest} (hcd : q.cfg.check_disks)
    (hd : String × String) : q.initial.disk_assignation.planned hd = 0 := by
  rcases hd with ⟨name, disk⟩
  unfold DiskAssignation.planned
  rw [AppRequest.initial_disk? hcd]
  rcases (q.initial.hosts.get? name).bind (·.disk? disk) with _ | d <;> rfl

/-- Whether the policy keeps the disks of the host records up to date. -/
theorem policyTracking_disks {e : Env} {p : String} :
    (policyTracking e p).disks ↔ p ≠ "Fill-up" := by
  unfold policyTracking
  split_ifs <;> simp_all [Tracking.fillUp, Tracking.bestEffort, Tracking.cyclic]

/-- **The two records agree after every iteration** of a policy other than
    Fill-up. -/
theorem records_agree {q : AppRequest} (hcd : q.cfg.check_disks)
    (hp : q.assignation_policy ≠ "Fill-up") {s : Plan}
    (h : PolicyRun q.env q.assignation_policy q.initial s) : s.Agree :=
  h.reaches.inv (fun _ _ _ ha hst => hst.agree (policyTracking_disks.2 hp) ha)
    (AppRequest.initial_agree hcd)

/-- The placements of a call, as seen in its result. -/
structure AssignationResult.PlannedBy (q : AppRequest) (r : AssignationResult)
    (evs : List Placement) : Prop where
  /-- the containers with a disk, per host and type -/
  count : ∀ name dt, dt ≠ .rm_nn →
    r.count name dt = evs.countP fun ev => ev.host = name ∧ ev.type.deployed = dt
  /-- all containers but the master have a disk -/
  disk : ∀ ev ∈ evs, ev.disk.isSome ↔ ev.type.deployed ≠ .rm_nn
  /-- placements are of requested types, on disks of their host -/
  requested : ∀ ev ∈ evs, (q.container_resources.get? ev.type).isSome
  allocated : ∀ ev ∈ evs, 0 < q.initial.containers_to_allocate ev.type
  disk_mem : ∀ ev ∈ evs, ∀ disk, ev.disk = some disk →
    ∃ host, q.hosts.get? ev.host = some host ∧ (host.disk? disk).isSome
  /-- the counters of the disks -/
  planned : ∀ hd, r.disk_assignation.planned hd = evs.countP fun ev => ev.place = some hd
  /-- the counters of a host add up to its containers with a disk -/
  plannedOn : ∀ name,
    r.disk_assignation.plannedOn name = r.count name .irregular + r.count name .regular
  /-- the bandwidth charged to the disks -/
  ledger : Run (Ledger.Charge Placement.place fun ev => q.env.bandwidth ev.type)
    q.initial.disk_assignation.free evs r.disk_assignation.free

theorem ContainerType.deployed_eq_rm_nn {t : ContainerType} : t.deployed = .rm_nn ↔ t = .rm_nn := by
  cases t <;> simp [deployed]

theorem countP_deployed (evs : List Placement) (name : String) (dt : DeployType) :
    (evs.countP fun ev => ev.host = name ∧ ev.type.deployed = dt) =
      ∑ t with t.deployed = dt, evs.countP fun ev => ev.host = name ∧ ev.type = t := by
  induction evs with
  | nil => simp
  | cons ev evs ih =>
    simp only [List.countP_cons, ih, Finset.sum_add_distrib, decide_eq_true_eq]
    congr 1
    by_cases hn : ev.host = name
    · simp [hn, Finset.sum_ite_eq]
    · simp [hn]

/-- All containers of a host but the master are irregular or regular. -/
theorem countP_with_disk {α : Type} (host : α → String) (type : α → DeployType) (name : String)
    (l : List α) : (l.countP fun x => host x = name ∧ type x ≠ .rm_nn) =
      (l.countP fun x => host x = name ∧ type x = .irregular) +
        l.countP fun x => host x = name ∧ type x = .regular := by
  induction l with
  | nil => rfl
  | cons x l ih =>
    simp only [List.countP_cons, ih, decide_eq_true_eq]
    rcases ht : type x with _ | _ | _ <;> by_cases hn : host x = name <;> simp [hn] <;> omega

/-- A run of placements is what its result shows of it. -/
theorem plannedBy_of_run {q : AppRequest} {s : Plan} {evs : List Placement} (hcd : q.cfg.check_disks)
    (hrun : Run (Placed q.env (policyTracking q.env q.assignation_policy)) q.initial evs s) :
    (AssignationResult.mk (formatAssignation s.assignation) s.disk_assignation none).PlannedBy
      q evs := by
  have hneeds : ∀ t, q.env.needsDisk t ↔ t.deployed ≠ .rm_nn := by
    intro t
    have hcd' : q.env.check_disks = true := hcd
    simp [Env.needsDisk, hcd', ContainerType.deployed_eq_rm_nn]
  have hcount : ∀ name dt, dt ≠ .rm_nn →
      (AssignationResult.mk (formatAssignation s.assignation) s.disk_assignation none).count name
        dt = evs.countP fun ev => ev.host = name ∧ ev.type.deployed = dt := by
    intro name dt hdt
    rw [Plan.formatted_count, countP_deployed]
    refine Finset.sum_congr rfl fun t ht => ?_
    rw [count_of_run hrun, q.initial_count, if_neg, Nat.zero_add]
    rintro ⟨-, rfl⟩
    exact hdt (Finset.mem_filter.1 ht).2.symm
  refine ⟨hcount, ?_, ?_, ?_, ?_, ?_, ?_, ?_⟩
  · refine hrun.inv_hist (I := fun evs _ => ∀ ev ∈ evs, ev.disk.isSome ↔ ev.type.deployed ≠ .rm_nn)
      (by simp) ?_
    intro es s₁ ev s₂ _ hI hst ev' hev'
    rcases List.mem_append.1 hev' with hev' | hev'
    · exact hI ev' hev'
    · obtain rfl := List.mem_singleton.1 hev'
      rw [hst.disk_isSome, hneeds]
  · refine hrun.inv_hist (I := fun evs _ => ∀ ev ∈ evs,
      (q.container_resources.get? ev.type).isSome) (by simp) ?_
    intro es s₁ ev s₂ _ hI hst ev' hev'
    rcases List.mem_append.1 hev' with hev' | hev'
    · exact hI ev' hev'
    · exact List.mem_singleton.1 hev' ▸ hst.type_isSome
  · intro ev hev
    have hle := (List.countP_pos_iff (p := fun ev' => decide (ev'.type = ev.type))).2
      ⟨ev, hev, by simp⟩
    have := countP_le_toAllocate hrun ev.type
    omega
  · have hdom : ∀ {es s₁}, Run (Placed q.env (policyTracking q.env q.assignation_policy)) q.initial
        es s₁ → ∀ hd, (s₁.disk_assignation.disk? hd).isSome =
          (q.initial.disk_assignation.disk? hd).isSome := by
      intro es s₁ hr hd
      exact hr.inv (I := fun s₁ => (s₁.disk_assignation.disk? hd).isSome =
        (q.initial.disk_assignation.disk? hd).isSome)
        (fun _ _ _ hI hst => (hst.disk?_isSome hd).trans hI) rfl
    refine hrun.inv_hist (I := fun evs _ => ∀ ev ∈ evs, ∀ disk, ev.disk = some disk →
      ∃ host, q.hosts.get? ev.host = some host ∧ (host.disk? disk).isSome) (by simp) ?_
    intro es s₁ ev s₂ hr hI hst ev' hev' disk hd
    rcases List.mem_append.1 hev' with hev' | hev'
    · exact hI ev' hev' disk hd
    · obtain rfl := List.mem_singleton.1 hev'
      obtain ⟨plans, p, hplans, hp⟩ := hst.disk_mem hd
      have hsome : (s₁.disk_assignation.disk? (ev'.host, disk)).isSome := by
        simp [DiskAssignation.disk?, hplans, hp]
      rw [hdom hr, AppRequest.initial_disk? hcd, q.initial_hosts] at hsome
      split_ifs at hsome
      · simp at hsome
      · rcases hhost : q.hosts.get? ev'.host with _ | host
        · simp [hhost] at hsome
        · exact ⟨host, rfl, by simpa [hhost] using hsome⟩
  · intro hd
    refine hrun.inv_hist (I := fun evs s => s.disk_assignation.planned hd =
      evs.countP fun ev => ev.place = some hd) (AppRequest.initial_planned hcd hd) ?_
    intro es s₁ ev s₂ _ hI hst
    rw [hst.planned, hI, List.countP_append, List.countP_singleton]
    simp only [decide_eq_true_eq]
  · intro name
    rw [hcount name .irregular (by decide), hcount name .regular (by decide),
      ← countP_with_disk Placement.host fun ev => ev.type.deployed]
    refine hrun.inv_hist (I := fun evs s => s.disk_assignation.plannedOn name =
      evs.countP fun ev => ev.host = name ∧ ev.type.deployed ≠ .rm_nn)
      (AppRequest.initial_plannedOn hcd name) ?_
    intro es s₁ ev s₂ _ hI hst
    rw [hst.plannedOn, hI, List.countP_append, List.countP_singleton]
    simp only [decide_eq_true_eq, hneeds]
  · refine hrun.map (I := fun s => (policyTracking q.env q.assignation_policy).disks → s.Agree)
      (fun s : Plan => s.disk_assignation.free) ?_ ?_ fun _ => AppRequest.initial_agree hcd
    · exact fun _ _ _ hI hst htr => hst.agree htr (hI htr)
    · exact fun _ _ _ hI hst => hst.disk_charge hI

/-- **A successful call is a list of placements** that charge the disks. -/
theorem exists_plannedBy {q : AppRequest} {r : AssignationResult} (hcd : q.cfg.check_disks)
    (h : getContainerAssignationForApp q = .ok r) (herr : r.error = none) :
    ∃ evs, r.PlannedBy q evs := by
  obtain ⟨s, hs, -, rfl⟩ := getContainerAssignationForApp_ok h herr
  obtain ⟨evs, hrun⟩ := planContainers_reaches hs
  exact ⟨evs, plannedBy_of_run hcd hrun⟩

/-- No disk is charged more than it had free; the disks of the reserved server
    are not charged at all. -/
theorem AssignationResult.PlannedBy.charged_le {q : AppRequest} {r : AssignationResult}
    {evs : List Placement} (h : r.PlannedBy q evs) (hcd : q.cfg.check_disks) {name disk : String}
    {host : Host} {d : Disk} (hhost : q.hosts.get? name = some host)
    (hd : host.disk? disk = some d) (h0 : 0 ≤ d.free) :
    Ledger.charged Placement.place (fun ev => q.env.bandwidth ev.type) evs (name, disk) ≤
      d.free := by
  have hfree : q.initial.disk_assignation.free (name, disk) =
      if q.reserved ∧ name = q.server_name then 0 else d.free := by
    unfold DiskAssignation.free
    rw [AppRequest.initial_disk? hcd, q.initial_hosts]
    split_ifs
    · rfl
    · rw [hhost, Option.bind_some, hd]
      rfl
  refine (Ledger.charged_le h.ledger ?_).trans ?_
  · rw [hfree]
    split_ifs
    · exact le_rfl
    · exact h0
  · rw [hfree]
    split_ifs
    · exact h0
    · exact le_rfl

end ServerlessYarn
