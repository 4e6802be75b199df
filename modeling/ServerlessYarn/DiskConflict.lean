/-
  ServerlessYARN model — two disks that the deployment confuses.

  A host has room for everything on a disk in use, and an idle disk.  Cyclic
  puts a container on the idle disk if it fits there, whatever comes before;
  the deployment gives the first disk with a counter to the irregular container.

  * `exists_place_of_prefers`: the container that the idle disk fits is put there;
  * `Inventory.Ready.deploys`: the deployment on such a host;
  * `formatContainers_first`: the first container behind the masters takes the first disk.
-/
import ServerlessYarn.AmpleHost
import ServerlessYarn.DiskDeployment
import ServerlessYarn.FreestDisk

namespace ServerlessYarn

/-! ## The freest disk -/

/-- Some of the disk is used. -/
def Disk.InUse (d : Disk) : Prop := d.total_free < d.total_max

/-- The host has this disk, and the disks before it are in use. -/
def Host.Prefers (h : Host) (disk : String) (d : Disk) : Prop :=
  ∃ ds before after, h.disks = some ds ∧ ds.entries = before ++ (disk, d) :: after ∧
    ∀ e ∈ before, e.2.InUse

theorem Host.Prefers.getFreestDisk {h : Host} {disk : String} {d : Disk} {read write : ℚ}
    (hpref : h.Prefers disk d) (hfits : d.Fits read write) (hidle : d.Idle) :
    getFreestDisk h read write = some disk := by
  obtain ⟨ds, before, after, hds, hentries, huse⟩ := hpref
  unfold ServerlessYarn.getFreestDisk
  rw [hds]
  simp only [hentries]
  exact freestDiskLoop_of_idle hfits hidle after (fun e he hboth => (huse e he).ne hboth.2) _ _

/-- A container on another disk does not change this. -/
theorem Host.Prefers.place {h : Host} {disk : String} {d : Disk} {c : Request} {k : LimitKey}
    {o : Option String} (hpref : h.Prefers disk d) (hnn : 0 ≤ c.read k + c.write k)
    (ho : o ≠ some disk) : (h.place .cyclic c k o).Prefers disk d := by
  obtain ⟨ds, before, after, hds, hentries, huse⟩ := hpref
  cases o with
  | none =>
    refine ⟨ds, before, after, ?_, hentries, huse⟩
    rw [Host.place_disks_none, hds]
  | some disk' =>
    have hne : disk ≠ disk' := fun heq => ho (by rw [heq])
    let f : String × Disk → String × Disk := fun e =>
      (e.1, if e.1 = disk' then e.2.charge c k else e.2)
    refine ⟨ds.modify disk' fun d => d.charge c k, before.map f, after.map f, ?_, ?_, ?_⟩
    · rw [Host.place_disks_some, hds]
      rfl
    · change ds.entries.map f = _
      rw [hentries, List.map_append, List.map_cons]
      simp [f, hne]
    · intro e he
      obtain ⟨e₀, he₀, rfl⟩ := List.mem_map.1 he
      have huse₀ : e₀.2.total_free < e₀.2.total_max := huse e₀ he₀
      simp only [f]
      split_ifs
      · change (e₀.2.charge c k).total_free < e₀.2.total_max
        rw [Disk.total_free_charge]
        linarith
      · exact huse₀

/-! ## Cyclic and the idle disk -/

section run
variable {e : Env} {s s' : Plan} {evs : List Placement} {name disk : String} {d : Disk}
  {t : ContainerType} {c : Request}

/-- Until a container is put on the disk, none of the type that fits it is
    placed. -/
theorem place_or_prefers (hnn : e.container_resources.Nonneg e.limit_key)
    (hc : e.container_resources.get? t = some c) (hneeds : e.needsDisk t)
    (hfits : d.Fits (c.read e.limit_key) (c.write e.limit_key)) (hidle : d.Idle)
    (hpref : ∃ host, s.hosts.get? name = some host ∧ host.Prefers disk d)
    (hrun : Run (Placed e .cyclic) s evs s') (hone : ∀ ev ∈ evs, ev.host = name) :
    (∃ ev ∈ evs, ev.place = some (name, disk)) ∨ ((∀ ev ∈ evs, ev.type ≠ t) ∧
      ∃ host, s'.hosts.get? name = some host ∧ host.Prefers disk d) := by
  refine hrun.inv_hist (I := fun evs s' => (∀ ev ∈ evs, ev.host = name) →
    (∃ ev ∈ evs, ev.place = some (name, disk)) ∨ ((∀ ev ∈ evs, ev.type ≠ t) ∧
      ∃ host, s'.hosts.get? name = some host ∧ host.Prefers disk d)) ?_ ?_ hone
  · exact fun _ => .inr ⟨by simp, hpref⟩
  · intro es s₁ ev s₂ _ hI hst hall
    have hev : ev.host = name := hall ev (List.mem_append_right _ List.mem_cons_self)
    rcases hI fun ev' hev' => hall ev' (List.mem_append_left _ hev') with
      ⟨ev', hev', hpl⟩ | ⟨hnone, host, hhost, hpref⟩
    · exact .inl ⟨ev', List.mem_append_left _ hev', hpl⟩
    by_cases hdisk : ev.disk = some disk
    · exact .inl ⟨ev, List.mem_append_right _ List.mem_cons_self, Placement.place_eq.2 ⟨hev, hdisk⟩⟩
    · obtain ⟨c', host', hc', hhost', -, hchosen, rfl⟩ := hst.step
      obtain rfl : host = host' := by
        rw [hev, hhost] at hhost'
        exact Option.some.inj hhost'
      refine .inr ⟨fun ev' hev' => ?_, host.place .cyclic c' e.limit_key ev.disk, ?_, ?_⟩
      · rcases List.mem_append.1 hev' with hev' | hev'
        · exact hnone ev' hev'
        · -- a container of the type would have been put on the disk
          obtain rfl := List.mem_singleton.1 hev'
          rintro rfl
          have hsome := hst.disk_isSome
          rw [hneeds] at hsome
          obtain ⟨disk', hdisk'⟩ := Option.isSome_iff_exists.1 hsome
          obtain ⟨_, _, _, _, hfree⟩ := hchosen disk' hdisk'
          obtain rfl : c = c' := Option.some.inj (hc.symm.trans hc')
          have hfree : getFreestDisk host (c.read e.limit_key) (c.write e.limit_key) = some disk' :=
            hfree
          rw [hpref.getFreestDisk hfits hidle] at hfree
          exact hdisk (hdisk'.trans hfree.symm)
      · simp [Plan.place, hev, hhost]
      · obtain ⟨-, hread, hwrite⟩ := hnn ev.type c' hc'
        exact hpref.place (add_nonneg hread hwrite) hdisk

/-- **Cyclic puts a container on an idle disk** that fits one of those placed. -/
theorem exists_place_of_prefers (hnn : e.container_resources.Nonneg e.limit_key)
    (hc : e.container_resources.get? t = some c) (hneeds : e.needsDisk t)
    (hfits : d.Fits (c.read e.limit_key) (c.write e.limit_key)) (hidle : d.Idle)
    (hpref : ∃ host, s.hosts.get? name = some host ∧ host.Prefers disk d)
    (hrun : Run (Placed e .cyclic) s evs s') (hone : ∀ ev ∈ evs, ev.host = name)
    (ht : ∃ ev ∈ evs, ev.type = t) : ∃ ev ∈ evs, ev.place = some (name, disk) := by
  rcases place_or_prefers hnn hc hneeds hfits hidle hpref hrun hone with h | ⟨hnone, -⟩
  · exact h
  · obtain ⟨ev, hev, htype⟩ := ht
    exact absurd htype (hnone ev hev)

end run

/-! ## The deployment on one host -/

/-- The containers of the host can be read and written: the group has no
    defaults, and the list of the host is a list if it is set. -/
def Inventory.Ready (host : String) (inv : Inventory) : Prop :=
  ∃ g hosts vars, inv.get? HOST_GROUP_NAME = some g ∧ g.vars = some .empty ∧
    g.hosts = some hosts ∧ hosts.get? host = some vars ∧
    (vars.get? "containers" = none ∨ ∃ l, vars.get? "containers" = some (.containers l))

section ready
variable {host : String} {inv : Inventory}

theorem Inventory.Ready.getContainers (hne : host ≠ "") (h : inv.Ready host) :
    ∃ containers, inv.getContainers host = .ok containers := by
  obtain ⟨g, hosts, vars, hg, hvars, hhosts, hhost, hown⟩ := h
  have hread : inv.getHostVar HOST_GROUP_NAME "containers" host =
      shadow (vars.get? "containers") (.ok none) := by
    unfold Inventory.getHostVar getItem
    rw [hg]
    change Inventory.hostVar g "containers" host = _
    rw [Inventory.hostVar_eq hne hhosts, hhost]
    simp only [Inventory.groupVar, hvars]
    rfl
  unfold Inventory.getContainers Inventory.getNodeResource
  rw [hread]
  rcases hown with hown | ⟨l, hown⟩ <;> rw [hown]
  · exact ⟨[], rfl⟩
  · exact ⟨l, rfl⟩

theorem Inventory.Ready.addContainers (hne : host ≠ "") (h : inv.Ready host)
    (containers : List String) :
    ∃ inv', inv.addContainers host containers = .ok inv' ∧ inv'.Ready host := by
  obtain ⟨current, hcurrent⟩ := h.getContainers hne
  obtain ⟨g, hosts, vars, hg, hvars, hhosts, hhost, -⟩ := h
  let value := InvValue.containers (current ++ containers)
  let g' : Group :=
    { g with hosts := some (hosts.set host (Inventory.storeVar g "containers" value vars)) }
  refine ⟨inv.set HOST_GROUP_NAME g', ?_, g', _, _, Dict.get?_set_self inv HOST_GROUP_NAME g', hvars,
    rfl, Dict.get?_set_self _ _ _, ?_⟩
  · unfold Inventory.addContainers
    rw [hcurrent]
    exact (Inventory.setHostVar_eq_ok hne).2 ⟨g, hosts, vars, hg, hhosts, hhost, rfl⟩
  · unfold Inventory.storeVar
    simp only
    split_ifs
    · exact .inl (by simp)
    · exact .inr ⟨_, Dict.get?_set_self _ _ _⟩
    · exact .inl (by simp)

theorem Inventory.Ready.addContainersToHosts (hne : host ≠ "") (h : inv.Ready host) (n : ℕ) :
    ∃ inv' added names, ServerlessYarn.addContainersToHosts (Dict.empty.set host (n : ℤ)) inv =
      .ok (inv', added) ∧ added.get? host = some names ∧ inv'.Ready host := by
  have hentries : (Dict.empty.set host (n : ℤ)).entries = [(host, (n : ℤ))] :=
    Dict.entries_set_of_notMem _ _ (by simp)
  obtain ⟨containers, hcontainers⟩ := h.getContainers hne
  obtain ⟨inv', hadd, hready⟩ := h.addContainers hne (createContainerList host n (nextIndex containers))
  refine ⟨inv', _, _, ?_, Dict.get?_set_self .empty host
    (createContainerList host n (nextIndex containers)), hready⟩
  simp only [ServerlessYarn.addContainersToHosts, hentries, List.foldlM_cons, List.foldlM_nil,
    addContainersToHost, hcontainers, bind, Except.bind, hadd]
  rfl

theorem Inventory.Ready.addType_fold (hne : host ≠ "") (nc : NewContainers) :
    ∀ (ts : List DeployType) (st : Inventory × (DeployType → Option (List String))),
      st.1.Ready host → ∃ st', ts.foldlM (addType host nc) st = .ok st' ∧ st'.1.Ready host
  | [], st, h => ⟨st, rfl, h⟩
  | t :: ts, st, h => by
    have hone : ∃ st₁, addType host nc st t = .ok st₁ ∧ st₁.1.Ready host := by
      unfold addType
      rcases nc t with _ | n
      · exact ⟨st, rfl, h⟩
      · obtain ⟨inv', added, names, hadd, hnames, hready⟩ := h.addContainersToHosts hne n
        refine ⟨(inv', Function.update st.2 t (some names)), ?_, hready⟩
        simp only [hadd, bind, Except.bind, getItem, hnames]
        rfl
    obtain ⟨st₁, hst₁, hready⟩ := hone
    obtain ⟨st', hst', hready'⟩ := Inventory.Ready.addType_fold hne nc ts st₁ hready
    refine ⟨st', ?_, hready'⟩
    rw [List.foldlM_cons, hst₁]
    exact hst'

/-- **The containers planned on the host can be added** to such an inventory. -/
theorem Inventory.Ready.addPlanned_fold (hne : host ≠ "") :
    ∀ (es : List (String × NewContainers)) (st : Inventory × AddedContainers),
      st.1.Ready host → (∀ e ∈ es, e.1 = host) → ∃ st', es.foldlM addTypes st = .ok st'
  | [], st, _, _ => ⟨st, rfl⟩
  | e :: es, st, h, hes => by
    have he : e.1 = host := hes e List.mem_cons_self
    obtain ⟨st₁, hst₁, hready⟩ := Inventory.Ready.addType_fold hne e.2 deployOrder
      (st.1, fun _ => none) h
    obtain ⟨st', hst'⟩ := Inventory.Ready.addPlanned_fold hne es (st₁.1, st.2.set e.1 st₁.2)
      hready fun e' he' => hes e' (List.mem_cons_of_mem _ he')
    refine ⟨st', ?_⟩
    rw [List.foldlM_cons]
    simp only [addTypes, he, hst₁, bind, Except.bind]
    rw [← he]
    exact hst'

end ready

/-- An inventory with one host and no containers. -/
def inventoryOf (name : String) : Inventory :=
  Dict.empty.set HOST_GROUP_NAME ⟨some (Dict.empty.set name .empty), some .empty⟩

theorem inventoryOf_ready (name : String) : (inventoryOf name).Ready name :=
  ⟨_, _, _, Dict.get?_set_self _ _ _, rfl, rfl, Dict.get?_set_self _ _ _, .inl rfl⟩

/-! ## The disk of the irregular container -/

section format
variable {cfg : PlatformConfig} {cr : ContainerResources} {bind_dir_name : String}
  {a : DiskAssignation}

/-- The masters come first and leave the counters alone. -/
theorem formatContainers_masters (l : List Added) : ∀ (ms : List Added)
    {infos : List (DeployType × ContainerInfo)}, (∀ x ∈ ms, x.type = .rm_nn) →
    formatContainers cfg cr bind_dir_name (ms ++ l) a = .ok infos →
    ∃ infos₁ infos₂, infos = infos₁ ++ infos₂ ∧
      formatContainers cfg cr bind_dir_name l a = .ok infos₂
  | [], infos, _, h => ⟨[], infos, rfl, h⟩
  | x :: ms, infos, hms, h => by
    simp only [List.cons_append, formatContainers, bind_eq_ok, pure_eq_ok] at h
    obtain ⟨⟨info, a'⟩, hinfo, rest, hrest, rfl⟩ := h
    have hx : x.type = .rm_nn := hms x List.mem_cons_self
    have hc : (cr.deploy? x.type).isSome := by
      rcases hc : cr.deploy? x.type with _ | c
      · simp [formatContainer, hc, bind, Except.bind] at hinfo
      · rfl
    obtain ⟨info', hinfo', -⟩ := formatContainer_master cfg bind_dir_name hx hc a
    rw [hinfo'] at hinfo
    cases hinfo
    obtain ⟨infos₁, infos₂, rfl, h₂⟩ := formatContainers_masters l ms
      (fun y hy => hms y (List.mem_cons_of_mem _ hy)) hrest
    exact ⟨_ :: infos₁, infos₂, rfl, h₂⟩

/-- The first of the other containers takes the first disk, if its counter is not
    used up. -/
theorem formatContainers_first (hcd : cfg.check_disks) {x : Added} {l : List Added}
    {infos : List (DeployType × ContainerInfo)} {ds : Dict String DiskPlan} {disk : String}
    {p : DiskPlan} {es : List (String × DiskPlan)} (hx : x.type ≠ .rm_nn)
    (hds : a.get? x.host = some ds) (hentries : ds.entries = (disk, p) :: es)
    (hpos : 0 < p.new_containers)
    (h : formatContainers cfg cr bind_dir_name (x :: l) a = .ok infos) :
    ∃ i ∈ infos, i.1 = x.type ∧ i.2.attached = some (x.host, disk) := by
  simp only [formatContainers, bind_eq_ok, pure_eq_ok] at h
  obtain ⟨⟨info, a'⟩, hinfo, rest, -, rfl⟩ := h
  refine ⟨(x.type, info), List.mem_cons_self, rfl, ?_⟩
  have hfind : ds.entries.find? (fun d => 0 < d.2.new_containers) = some (disk, p) := by
    rw [hentries, List.find?_cons_of_pos (by simpa using hpos)]
  rcases hc : cr.deploy? x.type with _ | c
  · simp [formatContainer, hc, bind, Except.bind] at hinfo
  · simp only [formatContainer, hc, getItem, hds] at hinfo
    simp only [hcd, hx, ne_eq, not_false_eq_true, and_self, if_true, bind, Except.bind, pure,
      Except.pure, hfind, Except.ok.injEq, Prod.mk.injEq] at hinfo
    obtain ⟨rfl, -⟩ := hinfo
    rfl

end format

/-- The containers of a host that has all of them. -/
theorem addedList_of_single {added : AddedContainers} {host : String}
    {names : DeployType → Option (List String)} (hentries : added.entries = [(host, names)]) :
    addedList added = ((names .rm_nn).getD []).map (Added.mk host .rm_nn) ++
      (((names .irregular).getD []).map (Added.mk host .irregular) ++
        ((names .regular).getD []).map (Added.mk host .regular)) := by
  unfold addedList
  rw [hentries]
  simp [deployOrder]

/-- **The deployment gives the first disk to the irregular container**, if all
    containers are on one host and its first counter is not zero. -/
theorem exists_deployed_on_first {q : AppRequest} {r : AssignationResult} {host disk : String}
    (hne : host ≠ "") (hcd : q.cfg.check_disks) (h : getContainerAssignationForApp q = .ok r)
    (herr : r.error = none) (hkeys : ∀ name ∈ r.new_containers.keys, name = host)
    (hirr : r.count host .irregular ≠ 0) {ds : Dict String DiskPlan} {p : DiskPlan}
    {es : List (String × DiskPlan)} (hds : r.disk_assignation.get? host = some ds)
    (hentries : ds.entries = (disk, p) :: es) (hpos : 0 < p.new_containers) :
    ∃ inv' infos, deployAppContainers q.cfg q.container_resources "app" r.new_containers
        r.disk_assignation (inventoryOf host) = .ok (inv', infos) ∧
      (∃ l, List.Forall₂ (Describes q.container_resources) l infos) ∧
      (∀ name dt, (infos.countP fun i => i.2.host = name ∧ i.1 = dt) = r.count name dt) ∧
      (∀ hd, (infos.countP fun i => i.2.attached = some hd) = r.disk_assignation.planned hd) ∧
      ∃ i ∈ infos, i.1 = .irregular ∧ i.2.attached = some (host, disk) := by
  obtain ⟨⟨inv', added⟩, hadd⟩ : ∃ st', addPlanned r.new_containers (inventoryOf host) = .ok st' :=
    Inventory.Ready.addPlanned_fold hne r.new_containers.entries (inventoryOf host, .empty)
      (inventoryOf_ready host) fun e he => hkeys e.1 (List.mem_map_of_mem (f := Prod.fst) he)
  obtain ⟨infos, hinfos, hall, htypes, hcount⟩ := deployAppContainers_planned hcd h herr hadd "app"
  have hformat : formatContainers q.cfg q.container_resources "app" (addedList added)
      r.disk_assignation = .ok infos := by
    simp only [deployAppContainers, hadd, bind, Except.bind] at hinfos
    rcases hf : formatContainers q.cfg q.container_resources "app" (addedList added)
      r.disk_assignation with err | infos'
    · simp [hf] at hinfos
    · simp only [hf] at hinfos
      cases hinfos
      rfl
  refine ⟨inv', infos, hinfos, ⟨_, hall⟩, htypes, hcount, ?_⟩
  -- the host is the only one with containers
  have hlength := addPlanned_length hadd host .irregular
  obtain ⟨names, hnames⟩ : ∃ names, added.get? host = some names := by
    rcases hget : added.get? host with _ | names
    · rw [hget] at hlength
      exact absurd (by rw [AssignationResult.count, AssignationResult.get?, ← hlength]; rfl) hirr
    · exact ⟨names, rfl⟩
  have hadded : added.entries = [(host, names)] := by
    refine Dict.entries_eq_singleton (fun name hname => ?_) hnames
    by_contra hne'
    have hfold := (addPlanned_fold r.new_containers.distinct hadd name .irregular).2
      fun hmem => hne' (hkeys name hmem)
    exact Dict.get?_eq_none_iff.1 (hfold.trans rfl) hname
  have hirrNames : ∃ x l, (names .irregular).getD [] = x :: l := by
    rw [hnames, Option.bind_some] at hlength
    rcases hn : (names .irregular).getD [] with _ | ⟨x, l⟩
    · refine absurd ?_ hirr
      rw [AssignationResult.count, AssignationResult.get?, ← hlength]
      rcases hl : names .irregular with _ | l
      · rfl
      · simpa [hl] using hn
    · exact ⟨x, l, rfl⟩
  obtain ⟨x, l, hx⟩ := hirrNames
  rw [addedList_of_single hadded, hx, List.map_cons, List.cons_append] at hformat
  obtain ⟨infos₁, infos₂, rfl, hrest⟩ := formatContainers_masters _ _ (by simp) hformat
  obtain ⟨i, hi, htype, hatt⟩ := formatContainers_first hcd (x := ⟨host, .irregular, x⟩)
    (by simp) hds hentries hpos hrest
  exact ⟨i, List.mem_append_right _ hi, htype, hatt⟩

/-! ## Two disks -/

theorem ContainerResources.Nonneg.bandwidth {cr : ContainerResources} {k : LimitKey}
    (h : cr.Nonneg k) {t : ContainerType} {c : Request} (hc : cr.get? t = some c) :
    0 ≤ c.bandwidth k := by
  obtain ⟨-, hread, hwrite⟩ := h t c hc
  exact ⟨hread, hwrite, add_nonneg hread hwrite⟩

/-- What a container requests of its disk is not negative. -/
theorem ContainerResources.Nonneg.diskBandwidth {cr : ContainerResources} {k : LimitKey}
    (h : cr.Nonneg k) (dt : DeployType) : 0 ≤ cr.diskBandwidth k dt := by
  unfold ContainerResources.diskBandwidth
  split_ifs with hdt
  · exact le_rfl
  rcases hd : cr.deploy? dt with _ | c
  · exact le_rfl
  cases dt with
  | rm_nn => exact absurd rfl hdt
  | regular => exact h.bandwidth (t := .regular) hd
  | irregular =>
    rcases Option.or_eq_some_iff.1 hd with hd | ⟨-, hd⟩
    · exact h.bandwidth (t := .smaller) hd
    · exact h.bandwidth (t := .bigger) hd

/-- The load of a disk is at least what a container on it requests. -/
theorem diskBandwidth_le_deployedLoad {cr : ContainerResources} {k : LimitKey} {l : List Added}
    {infos : List (DeployType × ContainerInfo)} (hnn : cr.Nonneg k)
    (hall : List.Forall₂ (Describes cr) l infos) {i : DeployType × ContainerInfo} (hi : i ∈ infos)
    {hd : String × String} (hatt : i.2.attached = some hd) :
    cr.diskBandwidth k i.1 ≤ deployedLoad infos k hd := by
  have hbw : ∀ j ∈ infos, j.2.bandwidth k = cr.diskBandwidth k j.1 := by
    intro j hj
    obtain ⟨x, -, hx⟩ := exists_described hall hj
    exact hx.bandwidth k
  rw [← hbw i hi]
  have hnonneg : ∀ j ∈ infos, 0 ≤ j.2.bandwidth k := by
    intro j hj
    rw [hbw j hj]
    exact hnn.diskBandwidth j.1
  unfold deployedLoad
  exact Ledger.le_charged hnonneg hi hatt

/-- The disks of the host. -/
def twoDisks (d₀ d₁ : Disk) : Dict String Disk := (Dict.empty.set "disk0" d₀).set "disk1" d₁

theorem twoDisks_entries (d₀ d₁ : Disk) :
    (twoDisks d₀ d₁).entries = [("disk0", d₀), ("disk1", d₁)] := by
  unfold twoDisks
  rw [Dict.entries_set_of_notMem _ _ (by simp [Dict.mem_keys_set]),
    Dict.entries_set_of_notMem _ _ (by simp)]
  rfl

/-- A plan of a request with irregular and regular containers, by Cyclic, on one
    host with two disks. -/
structure PlanOnTwoDisks (q : AppRequest) (d₀ d₁ : Disk) (s : Plan) (evs : List Placement) :
    Prop where
  plan : planContainers q = .ok (some s)
  done : containersNotAllocated s.containers_to_allocate ≤ 0
  run : Run (Placed q.env .cyclic) q.initial evs s
  on_host : ∀ ev ∈ evs, ev.host = "host0"
  host : ∃ h, q.initial.hosts.get? "host0" = some h ∧ q.hosts.get? "host0" = some h ∧
    h.disks = some (twoDisks d₀ d₁)
  only : ∀ name, name ≠ "host0" → q.initial.assignation.get? name = none ∧ name ∉ q.initial.hosts.keys
  planned : AssignationResult.PlannedBy q
    ⟨formatAssignation s.assignation, s.disk_assignation, none⟩ evs
  regular : ∃ ev ∈ evs, ev.type = .regular
  irregular : ∃ ev ∈ evs, ev.type.deployed = .irregular
  irregular_count : (evs.countP fun ev => ev.host = "host0" ∧ ev.type.deployed = .irregular) = 1

section twoDisks
variable {q : AppRequest} {d₀ d₁ : Disk}

/-- **There is such a plan** if one of the disks has room for everything. -/
theorem exists_planOnTwoDisks (hp : q.assignation_policy = "Cyclic") (hcd : q.cfg.check_disks)
    (hres : q.reserved = false) (hnn : q.container_resources.Nonneg q.key)
    (hn : q.container_resources.special < q.number_of_containers)
    (hirr : (q.container_resources.deploy? .irregular).isSome)
    (hroom : ∃ d disk, (twoDisks d₀ d₁).get? d = some disk ∧
      (q.room, q.room, q.room) ≤ disk.free) :
    ∃ E s evs, PlanOnTwoDisks (q.onRoomyHosts "host0" E (twoDisks d₀ d₁)) d₀ d₁ s evs := by
  have hhosts : policyHosts q.assignation_policy = ["host0"] := by simp [policyHosts, hp]
  have hname : "host0" ∈ policyHosts q.assignation_policy := by simp [hhosts]
  let E := ∑ t, q.env.cost .energy t
  have hE : ∀ t, 0 < q.initial.containers_to_allocate t → q.env.cost .energy t ≤ E := fun t _ =>
    Finset.single_le_sum (f := fun t => q.env.cost .energy t)
      (fun t _ => ContainerResources.Nonneg.cost (e := q.env) hnn .energy t) (Finset.mem_univ t)
  obtain ⟨s, hs, hleft, ⟨evs, hrun, hone⟩, hcount⟩ := q.onRoomyHosts_plan hres (by simp [hp]) hnn hn.le
    hname hE hroom
  have hget := q.onRoomyHosts_get? "host0" E (twoDisks d₀ d₁)
  have htr : policyTracking q.env q.assignation_policy = .cyclic := by simp [policyTracking, hp]
  have hplanned := plannedBy_of_run (q := q.onRoomyHosts "host0" E (twoDisks d₀ d₁)) hcd hrun
  have hevents : ∀ t, (evs.countP fun ev => ev.host = "host0" ∧ ev.type = t) =
      (q.initial.containers_to_allocate t).toNat := by
    intro t
    have h := count_of_run hrun "host0" t
    rw [hcount, AppRequest.initial_count, if_neg, Nat.zero_add] at h
    · exact h.symm
    · rintro ⟨⟨hr, -⟩, -⟩
      exact Bool.false_ne_true (hres.symm.trans hr)
  have htypes : ∀ t, 0 < q.initial.containers_to_allocate t → ∃ ev ∈ evs, ev.type = t := by
    intro t ht
    obtain ⟨ev, hev, h⟩ := List.countP_pos_iff.1 (show 0 < evs.countP fun ev =>
      ev.host = "host0" ∧ ev.type = t by rw [hevents]; omega)
    exact ⟨ev, hev, (of_decide_eq_true h).2⟩
  -- the requested numbers: one irregular container, and at least a regular one
  have halloc : ∀ t, t ≠ .rm_nn → q.initial.containers_to_allocate t =
      toAllocate q.container_resources q.number_of_containers t := by
    intro t ht
    rw [q.initial_toAllocate, if_neg]
    exact fun h => ht h.2
  have hreg : 0 < q.initial.containers_to_allocate .regular := by
    rw [halloc .regular (by decide)]
    rw [ContainerResources.special] at hn
    simp only [toAllocate]
    omega
  obtain ⟨t₀, hdep, hone₀, hother⟩ : ∃ t₀ : ContainerType, t₀.deployed = .irregular ∧
      q.initial.containers_to_allocate t₀ = 1 ∧ ∀ t : ContainerType, t ≠ t₀ →
        t.deployed = .irregular → q.initial.containers_to_allocate t = 0 := by
    have hb := halloc .bigger (by decide)
    have hs := halloc .smaller (by decide)
    simp only [toAllocate] at hb hs
    rcases q.container_resources.one_irregular with hnone | hnone
    · have hsome : q.container_resources.smaller.isSome := by
        simpa [ContainerResources.deploy?, hnone] using hirr
      rw [hnone] at hb
      refine ⟨.smaller, rfl, by rw [hs, if_pos hsome], fun t ht hd => ?_⟩
      cases t with
      | bigger => exact hb
      | smaller => exact absurd rfl ht
      | _ => cases hd
    · have hsome : q.container_resources.bigger.isSome := by
        simpa [ContainerResources.deploy?, hnone] using hirr
      rw [hnone] at hs
      refine ⟨.bigger, rfl, by rw [hb, if_pos hsome], fun t ht hd => ?_⟩
      cases t with
      | smaller => exact hs
      | bigger => exact absurd rfl ht
      | _ => cases hd
  refine ⟨E, s, evs, ?_⟩
  have hhost : (q.onRoomyHosts "host0" E (twoDisks d₀ d₁)).hosts.get? "host0" =
      some (roomyHost q.room E (twoDisks d₀ d₁)) := by
    rw [hget, if_pos hname, if_pos rfl]
  refine ⟨hs, hleft, htr ▸ hrun, hone, ⟨_, ?_, hhost, rfl⟩, fun name hne => ?_, hplanned,
    htypes .regular hreg, ?_, ?_⟩
  · rw [AppRequest.onRoomyHosts_initial hres, hhost]
  · have hnot : name ∉ (q.onRoomyHosts "host0" E (twoDisks d₀ d₁)).initial.hosts.keys := by
      rw [← Dict.get?_eq_none_iff, AppRequest.onRoomyHosts_initial hres, hget, if_neg]
      rw [hhosts, List.mem_singleton]
      exact hne
    refine ⟨?_, hnot⟩
    rw [AppRequest.initial_assignation, if_neg hnot, if_neg]
    rintro ⟨hr, -⟩
    exact Bool.false_ne_true (hres.symm.trans hr)
  · obtain ⟨ev, hev, ht⟩ := htypes t₀ (by omega)
    exact ⟨ev, hev, ht ▸ hdep⟩
  · rw [countP_deployed, Finset.sum_eq_single t₀]
    · rw [hevents, hone₀]
      rfl
    · intro t ht hne
      rw [hevents, hother t hne (Finset.mem_filter.1 ht).2]
      rfl
    · intro hnot
      simp [hdep] at hnot

namespace PlanOnTwoDisks
variable {s : Plan} {evs : List Placement} (h : PlanOnTwoDisks q d₀ d₁ s evs)
include h

theorem getContainerAssignationForApp : getContainerAssignationForApp q =
    .ok ⟨formatAssignation s.assignation, s.disk_assignation, none⟩ :=
  getContainerAssignationForApp_of_plan h.plan h.done

/-- The counters of the two disks, in their order. -/
theorem disk_assignation (hcd : q.cfg.check_disks) : ∃ ds p₀ p₁,
    s.disk_assignation.get? "host0" = some ds ∧ ds.entries = [("disk0", p₀), ("disk1", p₁)] := by
  have hkeys : (s.disk_assignation.get? "host0").map Dict.keys = some ["disk0", "disk1"] := by
    refine h.run.inv (I := fun s => (s.disk_assignation.get? "host0").map Dict.keys =
      some ["disk0", "disk1"]) ?_ ?_
    · intro s ev s' hI hst
      obtain ⟨c, host, -, -, -, -, rfl⟩ := hst.step
      simp only [Plan.place]
      rcases ev.disk with _ | d
      · exact hI
      · rw [Dict.get?_modify]
        split_ifs
        · rw [Option.map_map]
          simpa [Function.comp_def] using hI
        · exact hI
    · obtain ⟨host, hinit, -, hdisks⟩ := h.host
      rw [AppRequest.initial_disk_assignation hcd, hinit, Option.bind_some, hdisks]
      simp [Dict.keys, Dict.mapVal, twoDisks_entries]
  obtain ⟨ds, hds, hks⟩ := Option.map_eq_some_iff.1 hkeys
  rcases hes : ds.entries with _ | ⟨⟨n₀, p₀⟩, _ | ⟨⟨n₁, p₁⟩, _ | ⟨e, es⟩⟩⟩ <;>
    simp [Dict.keys, hes] at hks
  obtain ⟨rfl, rfl⟩ := hks
  exact ⟨ds, p₀, p₁, hds, hes⟩

theorem newContainers_keys : ∀ name ∈ (formatAssignation s.assignation).keys, name = "host0" := by
  intro name hname
  by_contra hne
  obtain ⟨hnone, hnot⟩ := h.only name hne
  have hget : s.assignation.get? name = none := by
    rw [Reaches.assignation_of_notMem ⟨evs, h.run⟩ hnot, hnone]
  rw [← Dict.get?_eq_none_iff.not_left] at hname
  unfold formatAssignation at hname
  rw [Dict.get?_filterMap, hget] at hname
  exact hname rfl

/-- The containers are on the two disks. -/
theorem place {ev : Placement} (hev : ev ∈ evs)
    (hdt : ev.type.deployed ≠ .rm_nn) :
    ev.place = some ("host0", "disk0") ∨ ev.place = some ("host0", "disk1") := by
  obtain ⟨disk, hdisk⟩ := Option.isSome_iff_exists.1 ((h.planned.disk ev hev).2 hdt)
  obtain ⟨host, hhost, hsome⟩ := h.planned.disk_mem ev hev disk hdisk
  obtain ⟨host', -, hhost', hdisks⟩ := h.host
  rw [h.on_host ev hev, hhost'] at hhost
  cases hhost
  rw [Host.disk?, hdisks, Option.bind_some, twoDisks, Dict.get?_set, Dict.get?_set] at hsome
  rw [Placement.place_eq, Placement.place_eq]
  split_ifs at hsome with h₁ h₀
  · exact .inr ⟨h.on_host ev hev, by rw [hdisk, h₁]⟩
  · exact .inl ⟨h.on_host ev hev, by rw [hdisk, h₀]⟩
  · simp at hsome

/-- **If the first disk has a container, the deployment puts the irregular one
    there**, and all others where their number fits. -/
theorem deploys (hcd : q.cfg.check_disks)
    (hfirst : ∃ ev ∈ evs, ev.place = some ("host0", "disk0")) :
    ∃ inv' infos l, deployAppContainers q.cfg q.container_resources "app"
        (formatAssignation s.assignation) s.disk_assignation (inventoryOf "host0") =
          .ok (inv', infos) ∧
      List.Forall₂ (Describes q.container_resources) l infos ∧
      (∃ i ∈ infos, i.1 = .irregular ∧ i.2.attached = some ("host0", "disk0")) ∧
      ((∃ ev ∈ evs, ev.place = some ("host0", "disk1")) →
        ∃ i ∈ infos, i.1 = .regular ∧ i.2.attached = some ("host0", "disk1")) := by
  have hr := h.getContainerAssignationForApp
  obtain ⟨ds, p₀, p₁, hds, hentries⟩ := h.disk_assignation hcd
  have hplanned : ∀ hd, (∃ ev ∈ evs, ev.place = some hd) → 0 < s.disk_assignation.planned hd := by
    rintro hd ⟨ev, hev, hpl⟩
    rw [show s.disk_assignation.planned hd = _ from h.planned.planned hd]
    exact List.countP_pos_iff.2 ⟨ev, hev, by simpa using hpl⟩
  have hpos : 0 < p₀.new_containers := by
    have hfirst := hplanned _ hfirst
    have hget : ds.get? "disk0" = some p₀ := Dict.get?_eq_some_iff.2 (by simp [hentries])
    simpa [DiskAssignation.planned, DiskAssignation.disk?, hds, hget] using hfirst
  have hone := h.planned.count "host0" .irregular (by decide)
  rw [h.irregular_count] at hone
  obtain ⟨inv', infos, hdeploy, ⟨l, hall⟩, htypes, hcount, i, hi, htype, hatt⟩ :=
    exists_deployed_on_first (by decide) hcd hr rfl h.newContainers_keys (by omega) hds hentries hpos
  refine ⟨inv', infos, l, hdeploy, hall, ⟨i, hi, htype, hatt⟩, fun hsecond => ?_⟩
  obtain ⟨j, hj, hattj⟩ := List.countP_pos_iff.1 ((hcount _).symm ▸ hplanned _ hsecond :
    0 < infos.countP fun i => i.2.attached = some ("host0", "disk1"))
  have hattj : j.2.attached = some ("host0", "disk1") := of_decide_eq_true hattj
  refine ⟨j, hj, ?_, hattj⟩
  have hhost : ∀ {i : DeployType × ContainerInfo} {disk : String},
      i.2.attached = some ("host0", disk) → i.2.host = "host0" := by
    intro i disk hatt
    obtain ⟨d, -, hd⟩ := Option.map_eq_some_iff.1 hatt
    exact congrArg Prod.fst hd
  -- it is not the irregular container, since there is only one
  rcases hjt : j.1 with _ | _ | _
  · obtain ⟨x, -, hx⟩ := exists_described hall hj
    obtain ⟨d, hd, -⟩ := Option.map_eq_some_iff.1 hattj
    have hrm := hx.disk.1 (by rw [hd]; rfl)
    rw [← hx.type, hjt] at hrm
    exact absurd rfl hrm
  · have hirr := htypes "host0" .irregular
    rw [hone, List.countP_eq_length_filter, List.length_eq_one_iff] at hirr
    obtain ⟨x, hx⟩ := hirr
    have hmem : ∀ {i' : DeployType × ContainerInfo}, i' ∈ infos → i'.2.host = "host0" →
        i'.1 = .irregular → i' = x := by
      intro i' hi' hh ht
      rw [← List.mem_singleton, ← hx]
      exact List.mem_filter.2 ⟨hi', by simp [hh, ht]⟩
    have hij : i = j := (hmem hi (hhost hatt) htype).trans (hmem hj (hhost hattj) hjt).symm
    rw [hij, hattj] at hatt
    simp at hatt
  · rfl

/-- **An idle disk for regular containers** gets the irregular one. -/
theorem irregular_on_idle (hcd : q.cfg.check_disks) (hnn : q.container_resources.Nonneg q.key)
    (hfits : d₀.Fits (q.container_resources.regular.read q.key)
      (q.container_resources.regular.write q.key)) (hidle : d₀.Idle) :
    ∃ inv' infos, deployAppContainers q.cfg q.container_resources "app"
        (formatAssignation s.assignation) s.disk_assignation (inventoryOf "host0") =
          .ok (inv', infos) ∧
      q.container_resources.diskBandwidth q.key .irregular ≤
        deployedLoad infos q.key ("host0", "disk0") := by
  obtain ⟨host, hhost, -, hdisks⟩ := h.host
  have hcd' : q.env.check_disks = true := hcd
  have hneeds : q.env.needsDisk .regular := by simp [Env.needsDisk, hcd']
  have hpref : host.Prefers "disk0" d₀ := ⟨_, [], _, hdisks, twoDisks_entries d₀ d₁, by simp⟩
  have hfirst := exists_place_of_prefers (e := q.env) (c := q.container_resources.regular) (d := d₀) hnn rfl
    hneeds hfits hidle ⟨host, hhost, hpref⟩ h.run h.on_host h.regular
  obtain ⟨inv', infos, l, hdeploy, hall, ⟨i, hi, htype, hatt⟩, -⟩ := h.deploys hcd hfirst
  refine ⟨inv', infos, hdeploy, ?_⟩
  rw [← htype]
  exact diskBandwidth_le_deployedLoad hnn hall hi hatt

/-- **An idle disk for the irregular container** gets a regular one, if it does
    not fit there and the other disk is in use. -/
theorem regular_on_idle (hcd : q.cfg.check_disks) (hnn : q.container_resources.Nonneg q.key)
    {c : Request} (hc : q.container_resources.deploy? .irregular = some c)
    (hfits : d₁.Fits (c.read q.key) (c.write q.key)) (hidle : d₁.Idle) (hfree : 0 ≤ d₁.free)
    (huse : d₀.InUse) (hnot : ¬ q.container_resources.regular.bandwidth q.key ≤ d₁.free) :
    ∃ inv' infos, deployAppContainers q.cfg q.container_resources "app"
        (formatAssignation s.assignation) s.disk_assignation (inventoryOf "host0") =
          .ok (inv', infos) ∧
      q.container_resources.diskBandwidth q.key .regular ≤
        deployedLoad infos q.key ("host0", "disk1") := by
  obtain ⟨host, hhost, hhost', hdisks⟩ := h.host
  have hcd' : q.env.check_disks = true := hcd
  have hsecond : ∃ ev ∈ evs, ev.place = some ("host0", "disk1") := by
    obtain ⟨ev, hev, hdep⟩ := h.irregular
    obtain ⟨c', hc'⟩ := Option.isSome_iff_exists.1 (h.planned.requested ev hev)
    have hcc := ContainerResources.deploy?_deployed hc'
    rw [hdep, hc] at hcc
    cases hcc
    have hneeds : q.env.needsDisk ev.type := by
      have hrm : ev.type ≠ .rm_nn := by
        intro hrm
        rw [hrm] at hdep
        cases hdep
      simp [Env.needsDisk, hcd', hrm]
    refine exists_place_of_prefers hnn hc' hneeds hfits hidle
      ⟨host, hhost, _, [("disk0", d₀)], [], hdisks, twoDisks_entries d₀ d₁, ?_⟩ h.run h.on_host
      ⟨ev, hev, rfl⟩
    intro e he
    rw [List.mem_singleton.1 he]
    exact huse
  have hfirst : ∃ ev ∈ evs, ev.place = some ("host0", "disk0") := by
    obtain ⟨ev, hev, hreg⟩ := h.regular
    refine ⟨ev, hev, (h.place hev (by rw [hreg]; decide)).resolve_right fun hpl => hnot ?_⟩
    -- on the other disk it would be charged
    have hcost : q.env.bandwidth ev.type = q.container_resources.regular.bandwidth q.key := by
      rw [hreg]
      rfl
    have hnonneg : ∀ ev' ∈ evs, 0 ≤ q.env.bandwidth ev'.type := by
      intro ev' hev'
      obtain ⟨c', hc'⟩ := Option.isSome_iff_exists.1 (h.planned.requested ev' hev')
      have hb := hnn.bandwidth hc'
      have hc'' : q.env.container_resources.get? ev'.type = some c' := hc'
      rw [Env.bandwidth, hc'']
      exact hb
    have hdisk : host.disk? "disk1" = some d₁ := by
      rw [Host.disk?, hdisks, Option.bind_some]
      exact Dict.get?_set_self _ _ _
    calc q.container_resources.regular.bandwidth q.key = q.env.bandwidth ev.type := hcost.symm
      _ ≤ Ledger.charged Placement.place (fun ev => q.env.bandwidth ev.type) evs ("host0", "disk1") :=
        Ledger.le_charged hnonneg hev hpl
      _ ≤ d₁.free := h.planned.charged_le hcd hhost' hdisk hfree
  obtain ⟨inv', infos, l, hdeploy, hall, -, hreg⟩ := h.deploys hcd hfirst
  obtain ⟨i, hi, htype, hatt⟩ := hreg hsecond
  refine ⟨inv', infos, hdeploy, ?_⟩
  rw [← htype]
  exact diskBandwidth_le_deployedLoad hnn hall hi hatt

end PlanOnTwoDisks

end twoDisks

end ServerlessYarn
