/-
  ServerlessYARN model — the room that a placement leaves on the hosts.

  A host can hold a container if the checks of the policies pass on what is left
  of it.  Placements only take room away, so what a host once rejects it rejects
  for good.

  * `Placed.ready`, `AppRequest.initial_ready`: the policies find the entries
    that they read;
  * `Reaches.not_canHold`: what a host cannot hold it cannot hold later.
-/
import ServerlessYarn.Progress

namespace ServerlessYarn

/-- The entries that Fill-up and Cyclic read are there: the types left to
    allocate, and the assignation and, if checked, the disks of every host. -/
structure Plan.Ready (e : Env) (s : Plan) : Prop where
  requested : ∀ t, 0 < s.containers_to_allocate t → (e.container_resources.get? t).isSome
  assigned : ∀ name ∈ s.hosts.keys, name ∈ s.assignation.keys
  planned : e.check_disks → ∀ name ∈ s.hosts.keys, name ∈ s.disk_assignation.keys

/-- The checks of Fill-up and Cyclic pass for a container of the type, on what
    the plan has left of the host.  (Neither policy charges the energy: what is
    really left of it is at most what is checked.) -/
def Plan.CanHold (e : Env) (s : Plan) (name : String) (t : ContainerType) : Prop :=
  ∃ c host, e.container_resources.get? t = some c ∧ s.hosts.get? name = some host ∧
    availableResources e s name host t c = .ok true

/-- The host can hold none of the types left to allocate. -/
def Plan.Rejects (e : Env) (s : Plan) (name : String) : Prop :=
  ∀ t, 0 < s.containers_to_allocate t → ¬ s.CanHold e name t

theorem Plan.canHold_iff {e : Env} {s : Plan} {name : String} {t : ContainerType} :
    s.CanHold e name t ↔ ∃ c host, e.container_resources.get? t = some c ∧
      s.hosts.get? name = some host ∧ host.Accepts c e.check_energy e.limit_key ∧
      (e.needsDisk t → s.HasDisk name c e.limit_key) := by
  constructor
  · rintro ⟨c, host, hc, hhost, hav⟩
    obtain ⟨hacc, hdisk⟩ := availableResources_true hav
    exact ⟨c, host, hc, hhost, hacc, hdisk⟩
  · rintro ⟨c, host, hc, hhost, hacc, hdisk⟩
    exact ⟨c, host, hc, hhost, availableResources_eq_true hacc hdisk⟩

/-- A host that fails the checks cannot hold the container. -/
theorem Plan.not_canHold_of_false {e : Env} {s : Plan} {name : String} {t : ContainerType}
    {c : Request} {host : Host} (hc : e.container_resources.get? t = some c)
    (hhost : s.hosts.get? name = some host)
    (hav : availableResources e s name host t c = .ok false) : ¬ s.CanHold e name t := by
  rintro ⟨c', host', hc', hhost', hav'⟩
  obtain rfl : c = c' := Option.some.inj (hc.symm.trans hc')
  obtain rfl : host = host' := Option.some.inj (hhost.symm.trans hhost')
  rw [hav] at hav'
  cases hav'

theorem Env.needsDisk_checks {e : Env} {t : ContainerType} (h : e.needsDisk t) : e.check_disks := by
  simp only [needsDisk, Bool.and_eq_true] at h
  exact h.2

theorem Plan.Ready.availableResources {e : Env} {s : Plan} (hs : s.Ready e) {name : String}
    (hname : name ∈ s.hosts.keys) (host : Host) (t : ContainerType) (c : Request) :
    ∃ av, ServerlessYarn.availableResources e s name host t c = .ok av := by
  unfold ServerlessYarn.availableResources
  split_ifs with hres hneeds
  · obtain ⟨plans, hplans⟩ := Dict.mem_keys_iff.1 (hs.planned (Env.needsDisk_checks hneeds) name hname)
    refine ⟨_, bind_eq_ok.2 ⟨plans, getItem_eq_ok.2 hplans, rfl⟩⟩
  · exact ⟨true, rfl⟩
  · exact ⟨false, rfl⟩

/-- Whatever the counts, one that is positive shows in their sum if none is negative. -/
theorem notAllocated_pos {n : ContainerType → ℤ} (hn : ∀ t, 0 ≤ n t) {t : ContainerType}
    (ht : 0 < n t) : 0 < containersNotAllocated n :=
  ht.trans_le (Finset.single_le_sum (fun t _ => hn t) (Finset.mem_univ t))

/-! ## Placements -/

section step
variable {e : Env} {tr : Tracking} {s s' : Plan} {ev : Placement}

theorem Placed.toAllocate_le (h : Placed e tr s ev s') (t : ContainerType) :
    s'.containers_to_allocate t ≤ s.containers_to_allocate t := by
  rw [h.toAllocate, Function.update_apply]
  split_ifs with ht
  · rw [ht]; omega
  · exact le_rfl

theorem Placed.disk_assignation_keys (h : Placed e tr s ev s') :
    s'.disk_assignation.keys = s.disk_assignation.keys := by
  obtain ⟨c, host, -, -, -, -, rfl⟩ := h.step
  rcases ev with ⟨name, t, _ | d⟩
  · rfl
  · exact Dict.keys_modify _ _ _

theorem Placed.ready (h : Placed e tr s ev s') (hs : s.Ready e) : s'.Ready e := by
  constructor
  · intro t ht
    exact hs.requested t (ht.trans_le (h.toAllocate_le t))
  · intro name hname
    rw [h.assignation, Dict.keys_modify]
    exact hs.assigned name (h.hosts_keys ▸ hname)
  · intro hcd name hname
    rw [h.disk_assignation_keys]
    exact hs.planned hcd name (h.hosts_keys ▸ hname)

/-- A placement leaves no more of a host than there was. -/
theorem Placed.host_le (h : Placed e tr s ev s') (hnn : e.container_resources.Nonneg e.limit_key)
    {name : String} {host' : Host} (hhost' : s'.hosts.get? name = some host') :
    ∃ host, s.hosts.get? name = some host ∧ ∀ r, host'.free r ≤ host.free r := by
  obtain ⟨c, host, hc, hhost, -, -, rfl⟩ := h.step
  simp only [Plan.place, Dict.get?_modify] at hhost'
  split_ifs at hhost' with hn
  · subst hn
    rw [hhost, Option.map_some, Option.some.injEq] at hhost'
    refine ⟨host, hhost, fun r => ?_⟩
    rw [← hhost', Host.place_free]
    split_ifs
    · exact le_rfl
    · exact sub_le_self _ ((hnn ev.type c hc).1 r)
  · exact ⟨host', hhost', fun r => le_rfl⟩

/-- A placement leaves no more of a disk than there was. -/
theorem Placed.disk_le (h : Placed e tr s ev s') (hnn : e.container_resources.Nonneg e.limit_key)
    {hd : String × String} {p' : DiskPlan} (hp' : s'.disk_assignation.disk? hd = some p') :
    ∃ p, s.disk_assignation.disk? hd = some p ∧ p'.free ≤ p.free := by
  obtain ⟨c, hc, hdisk⟩ := h.disk? hd
  rw [hdisk] at hp'
  split_ifs at hp'
  · obtain ⟨p, hp, rfl⟩ := Option.map_eq_some_iff.1 hp'
    obtain ⟨-, hread, hwrite⟩ := hnn ev.type c hc
    refine ⟨p, hp, ?_⟩
    rw [DiskPlan.free_charge]
    exact sub_le_self _ ⟨hread, hwrite, add_nonneg hread hwrite⟩
  · exact ⟨p', hp', le_rfl⟩

theorem Plan.hasDisk_iff {s : Plan} {name : String} {c : Request} {k : LimitKey} :
    s.HasDisk name c k ↔
      ∃ disk p, s.disk_assignation.disk? (name, disk) = some p ∧ c.bandwidth k ≤ p.free := by
  constructor
  · rintro ⟨plans, hplans, disk, p, hp, hok⟩
    exact ⟨disk, p, Option.bind_eq_some_iff.2 ⟨plans, hplans, hp⟩, checkAvailableDisk_iff.1 hok⟩
  · rintro ⟨disk, p, hp, hle⟩
    obtain ⟨plans, hplans, hget⟩ := Option.bind_eq_some_iff.1 hp
    exact ⟨plans, hplans, disk, p, hget, checkAvailableDisk_iff.2 hle⟩

/-- If the two records of the disks agree, a disk that is available in the one is
    found in the other. -/
theorem Plan.Agree.freestDisk {s : Plan} (hs : s.Agree) {name : String} {host : Host} {c : Request}
    {k : LimitKey} (hhost : s.hosts.get? name = some host) (hdisk : s.HasDisk name c k) :
    ∃ disk, getFreestDisk host (c.read k) (c.write k) = some disk ∧
      (s.disk_assignation.disk? (name, disk)).isSome := by
  obtain ⟨d, p, hp, hle⟩ := Plan.hasDisk_iff.1 hdisk
  have hd := hs name host d hhost
  rw [hp, Option.map_some] at hd
  obtain ⟨dd, hdd, hfree⟩ := Option.map_eq_some_iff.1 hd.symm
  obtain ⟨disks, hdisks, hget⟩ := Option.bind_eq_some_iff.1 hdd
  have hfits : dd.Fits (c.read k) (c.write k) := Disk.fits_iff_le.2 (hfree ▸ hle)
  obtain ⟨disk, hfreest⟩ := Option.isSome_iff_exists.1 (getFreestDisk_isSome hdisks hget hfits)
  obtain ⟨disks', d', hdisks', hd', -⟩ := getFreestDisk_fits hfreest
  refine ⟨disk, hfreest, ?_⟩
  have hsome := congrArg Option.isSome (hs name host disk hhost)
  rw [Option.isSome_map, Option.isSome_map] at hsome
  rw [hsome]
  simp [Host.disk?, hdisks', hd']

/-- **What a host can hold after a placement it could hold before.** -/
theorem Placed.canHold (h : Placed e tr s ev s') (hnn : e.container_resources.Nonneg e.limit_key)
    {name : String} {t : ContainerType} (hc : s'.CanHold e name t) : s.CanHold e name t := by
  obtain ⟨c, host', hc, hhost', ⟨hcpu, hmem, hen⟩, hdisk⟩ := Plan.canHold_iff.1 hc
  obtain ⟨host, hhost, hle⟩ := h.host_le hnn hhost'
  refine Plan.canHold_iff.2 ⟨c, host, hc, hhost, ⟨?_, ?_, fun he => ?_⟩, fun hneeds => ?_⟩
  · exact hcpu.trans (hle .cpu)
  · exact hmem.trans (hle .mem)
  · exact (hen he).trans (hle .energy)
  · obtain ⟨disk, p', hp', hfits⟩ := Plan.hasDisk_iff.1 (hdisk hneeds)
    obtain ⟨p, hp, hple⟩ := h.disk_le hnn hp'
    exact Plan.hasDisk_iff.2 ⟨disk, p, hp, hfits.trans hple⟩

theorem Placed.rejects (h : Placed e tr s ev s') (hnn : e.container_resources.Nonneg e.limit_key)
    {name : String} (hr : s.Rejects e name) : s'.Rejects e name := by
  intro t ht hc
  exact hr t (ht.trans_le (h.toAllocate_le t)) (h.canHold hnn hc)

end step

namespace Reaches
variable {e : Env} {tr : Tracking} {s s' s'' : Plan}

theorem refl (s : Plan) : Reaches e tr s s := ⟨[], .nil⟩

theorem head {ev : Placement} (h : Placed e tr s ev s') (h' : Reaches e tr s' s'') :
    Reaches e tr s s'' := by
  obtain ⟨evs, hrun⟩ := h'
  exact ⟨ev :: evs, hrun.cons h⟩

theorem trans (h : Reaches e tr s s') (h' : Reaches e tr s' s'') : Reaches e tr s s'' := by
  obtain ⟨evs, hrun⟩ := h
  obtain ⟨evs', hrun'⟩ := h'
  exact ⟨evs ++ evs', hrun.append hrun'⟩

theorem ready (h : Reaches e tr s s') (hs : s.Ready e) : s'.Ready e :=
  h.inv (fun _ _ _ hI hst => hst.ready hI) hs

theorem hosts_keys (h : Reaches e tr s s') : s'.hosts.keys = s.hosts.keys :=
  h.inv (I := fun s₁ => s₁.hosts.keys = s.hosts.keys) (fun _ _ _ hI hst => hst.hosts_keys.trans hI) rfl

theorem toAllocate_le (h : Reaches e tr s s') (t : ContainerType) :
    s'.containers_to_allocate t ≤ s.containers_to_allocate t :=
  h.inv (I := fun s₁ => s₁.containers_to_allocate t ≤ s.containers_to_allocate t)
    (fun _ _ _ hI hst => (hst.toAllocate_le t).trans hI) le_rfl

theorem toAllocate_nonneg (h : Reaches e tr s s') (h0 : ∀ t, 0 ≤ s.containers_to_allocate t) :
    ∀ t, 0 ≤ s'.containers_to_allocate t :=
  h.inv (I := fun s₁ => ∀ t, 0 ≤ s₁.containers_to_allocate t)
    (fun _ _ _ hI hst => hst.toAllocate_nonneg hI) h0

/-- **What a host cannot hold it cannot hold later.** -/
theorem not_canHold (h : Reaches e tr s s') (hnn : e.container_resources.Nonneg e.limit_key)
    {name : String} {t : ContainerType} (hc : ¬ s.CanHold e name t) : ¬ s'.CanHold e name t :=
  h.inv (I := fun s₁ => ¬ s₁.CanHold e name t) (fun _ _ _ hI hst hc' => hI (hst.canHold hnn hc')) hc

/-- A host that gets a container of a type does so while some are left. -/
theorem pos_of_count_lt (h : Reaches e tr s s') {name : String} {t : ContainerType}
    (hlt : s.count name t < s'.count name t) : 0 < s.containers_to_allocate t := by
  by_contra hpos
  have hinv := h.inv (I := fun s₁ => s₁.containers_to_allocate t ≤ 0 ∧
      s₁.count name t = s.count name t) ?_ ⟨not_lt.1 hpos, rfl⟩
  · exact absurd hinv.2 hlt.ne'
  · rintro s₁ ev s₂ ⟨hzero, hcount⟩ hst
    have hne : ev.type ≠ t := by
      rintro rfl
      exact absurd hst.pos (not_lt.2 hzero)
    refine ⟨(hst.toAllocate_le t).trans hzero, ?_⟩
    rw [hst.count, if_neg fun hev => hne hev.2, hcount, Nat.add_zero]

end Reaches

/-! ## The initial state -/

theorem toAllocate_requested {cr : ContainerResources} {n : ℤ} {t : ContainerType}
    (h : 0 < toAllocate cr n t) : (cr.get? t).isSome := by
  cases t with
  | regular => rfl
  | _ =>
    simp only [toAllocate] at h
    split_ifs at h with hs
    · exact hs
    · exact absurd h (lt_irrefl 0)

theorem AppRequest.initial_requested {q : AppRequest} {t : ContainerType}
    (ht : 0 < q.initial.containers_to_allocate t) : (q.env.container_resources.get? t).isSome := by
  rw [q.initial_toAllocate] at ht
  split_ifs at ht
  · exact absurd ht (lt_irrefl 0)
  · exact toAllocate_requested ht

theorem AppRequest.initial_mem_assignation {q : AppRequest} {name : String}
    (hname : name ∈ q.initial.hosts.keys) : name ∈ q.initial.assignation.keys := by
  rw [Dict.mem_keys_iff]
  exact ⟨_, by rw [q.initial_assignation, if_pos hname]⟩

/-- **The policies start with all entries**, if every host has disks when disks
    are checked. -/
theorem AppRequest.initial_ready {q : AppRequest}
    (hdisks : q.cfg.check_disks → ∀ name host, q.hosts.get? name = some host → host.disks.isSome) :
    q.initial.Ready q.env := by
  refine ⟨fun t ht => AppRequest.initial_requested ht,
    fun name hname => AppRequest.initial_mem_assignation hname, ?_⟩
  intro hcd name hname
  obtain ⟨host, hhost⟩ := Dict.mem_keys_iff.1 hname
  have hget : q.hosts.get? name = some host := by
    rw [q.initial_hosts] at hhost
    split_ifs at hhost
    exact hhost
  obtain ⟨disks, hds⟩ := Option.isSome_iff_exists.1 (hdisks hcd name host hget)
  rw [Dict.mem_keys_iff]
  exact ⟨_, by rw [AppRequest.initial_disk_assignation hcd, hhost, Option.bind_some, hds]; rfl⟩

end ServerlessYarn
