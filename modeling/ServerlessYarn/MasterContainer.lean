/-
  ServerlessYARN model — the master of a Hadoop application
  (`ui/background_tasks.py`: `setup_containers_hadoop_network_task`).

  The list of the deployed containers does not say which one is the master: it
  is recognised as the first container of its host without a disk.  The list is
  built host by host, with the master before the workers, and a master is never
  given a disk; so the workers of its host do not matter, with or without disks.

  * `formatContainers_of_placement`: the list of a placement can be built, with and
    without disks;
  * `master_container_found`: the container taken is the one created for `rm-nn`.
-/
import ServerlessYarn.AppTasks
import ServerlessYarn.DiskDeployment

namespace ServerlessYarn

open Fallible

/-! ## The master of a placement -/

/-- A placement has at most one master. -/
theorem AssignationResult.total_master_le {q : AppRequest} {r : AssignationResult}
    (h : getContainerAssignationForApp q = .ok r) (herr : r.error = none) : r.total .rm_nn ≤ 1 := by
  obtain ⟨s, hs, -, rfl⟩ := getContainerAssignationForApp_ok h herr
  have htotal := q.initial_total .rm_nn
  have hinv : s.assigned .rm_nn + s.containers_to_allocate .rm_nn =
      q.initial.assigned .rm_nn + q.initial.containers_to_allocate .rm_nn ∧
      0 ≤ s.containers_to_allocate .rm_nn := by
    refine (planContainers_reaches hs).inv (I := fun s₁ => s₁.assigned .rm_nn +
      s₁.containers_to_allocate .rm_nn = q.initial.assigned .rm_nn +
        q.initial.containers_to_allocate .rm_nn ∧ 0 ≤ s₁.containers_to_allocate .rm_nn) ?_ ?_
    · rintro s₁ ev s₂ ⟨hsum, hnonneg⟩ hst
      refine ⟨(hst.assigned_add .rm_nn).trans hsum, ?_⟩
      have hpos := hst.pos
      rw [hst.toAllocate, Function.update_apply]
      split_ifs <;> omega
    · refine ⟨rfl, ?_⟩
      rw [q.initial_toAllocate]
      simp only [toAllocate]
      split_ifs <;> omega
  simp only [AssignationResult.total, Plan.formatted_total, sum_deployed]
  simp only [toAllocate] at htotal
  split_ifs at htotal <;> omega

/-- A placement that includes `rm-nn` has it on one host, once. -/
theorem AssignationResult.master_of_isSome {q : AppRequest} {r : AssignationResult}
    (h : getContainerAssignationForApp q = .ok r) (herr : r.error = none)
    (hmaster : ∃ name, (r.get? name .rm_nn).isSome) :
    ∃ name, r.get? name .rm_nn = some 1 ∧ ∀ name', name' ≠ name → r.get? name' .rm_nn = none := by
  rcases Nat.le_one_iff_eq_zero_or_eq_one.1 (AssignationResult.total_master_le h herr) with hzero | hone
  · obtain ⟨name, hname⟩ := hmaster
    simp [AssignationResult.master_none h herr hzero name] at hname
  · exact AssignationResult.master_unique h herr hone

/-! ## The master in the list -/

/-- The containers of a host, in the order of the second loop. -/
def addedOn (h : String × (DeployType → Option (List String))) : List Added :=
  deployOrder.flatMap fun t => ((h.2 t).getD []).map fun name => ⟨h.1, t, name⟩

theorem addedOn_master (host : String) (names : DeployType → Option (List String)) :
    (addedOn (host, names)).filter (fun x => x.type = .rm_nn) =
      ((names .rm_nn).getD []).map fun name => ⟨host, .rm_nn, name⟩ := by
  simp [addedOn, deployOrder, List.filter_map, Function.comp_def]

theorem find?_addedOn_of_ne {h : String × (DeployType → Option (List String))} {host : String}
    (hne : h.1 ≠ host) : (addedOn h).find? (fun x => x.host = host) = none := by
  simp [addedOn, hne]

/-- The master comes first on its host. -/
theorem find?_addedOn {host name : String} {names : DeployType → Option (List String)}
    (hname : names .rm_nn = some [name]) :
    (addedOn (host, names)).find? (fun x => x.host = host) = some ⟨host, .rm_nn, name⟩ := by
  simp [addedOn, deployOrder, hname]

/-- The list around the containers of a host. -/
theorem addedList_split {added : AddedContainers} {host : String}
    {names : DeployType → Option (List String)} (hhost : added.get? host = some names) :
    ∃ before rest : List (String × (DeployType → Option (List String))),
      addedList added = before.flatMap addedOn ++ (addedOn (host, names) ++ rest.flatMap addedOn) ∧
      ∀ e ∈ before ++ rest, e.1 ≠ host ∧ added.get? e.1 = some e.2 := by
  obtain ⟨before, rest, hsplit⟩ := List.append_of_mem (Dict.get?_eq_some_iff.1 hhost)
  have hdistinct := added.distinct
  rw [hsplit, List.map_append, List.map_cons, List.nodup_middle, ← List.map_append,
    List.nodup_cons] at hdistinct
  refine ⟨before, rest, ?_, fun e he => ⟨?_, ?_⟩⟩
  · show added.entries.flatMap addedOn = _
    rw [hsplit, List.flatMap_append, List.flatMap_cons]
  · intro heq
    have hmem := List.mem_map_of_mem (f := Prod.fst) he
    exact hdistinct.1 (heq ▸ hmem)
  · rw [Dict.get?_eq_some_iff, hsplit, List.mem_append, List.mem_cons]
    exact (List.mem_append.1 he).imp_right .inr

/-- The list of a deployment with one master: it is the first container of its host. -/
theorem addedList_master {added : AddedContainers} {host name : String}
    {names : DeployType → Option (List String)} (hhost : added.get? host = some names)
    (hname : names .rm_nn = some [name])
    (hother : ∀ other ≠ host, (added.get? other).bind (· .rm_nn) = none) :
    (addedList added).filter (fun x => x.type = .rm_nn) = [⟨host, .rm_nn, name⟩] ∧
      (addedList added).find? (fun x => x.host = host) = some ⟨host, .rm_nn, name⟩ := by
  obtain ⟨before, rest, hlist, hrest⟩ := addedList_split hhost
  constructor
  · have hnil : ∀ es : List (String × (DeployType → Option (List String))), es ⊆ before ++ rest →
        (es.flatMap addedOn).filter (fun x => x.type = .rm_nn) = [] := by
      intro es hes
      rw [List.filter_flatMap, List.flatMap_eq_nil_iff]
      intro e he
      obtain ⟨hne, hget⟩ := hrest e (hes he)
      have hnone : e.2 .rm_nn = none := by simpa [hget] using hother e.1 hne
      rw [addedOn_master, hnone]
      rfl
    rw [hlist, List.filter_append, List.filter_append, hnil before (List.subset_append_left _ _),
      hnil rest (List.subset_append_right _ _), addedOn_master, hname]
    rfl
  · have hbefore : (before.flatMap addedOn).find? (fun x => x.host = host) = none := by
      rw [List.find?_flatMap, List.findSome?_eq_none_iff]
      exact fun e he => find?_addedOn_of_ne (hrest e (List.mem_append_left _ he)).1
    rw [hlist, List.find?_append, hbefore, Option.none_or, List.find?_append, find?_addedOn hname]
    rfl

/-- The first container of a host, if it is a master, is the first one described
    there without a disk. -/
theorem find?_named {l : List Added} {infos : List (DeployType × ContainerInfo)}
    (h : List.Forall₂ Named l infos) {host : String} {x : Added}
    (hx : l.find? (fun x => x.host = host) = some x) (hmaster : x.type = .rm_nn) :
    ∃ i, infos.find? (fun i => i.2.host = host ∧ i.2.disk = none) = some i ∧ Named x i := by
  induction h with
  | nil => simp at hx
  | @cons y i l infos hy _ ih =>
    by_cases hhost : y.host = host
    · rw [List.find?_cons_of_pos (by simp [hhost])] at hx
      cases hx
      refine ⟨i, List.find?_cons_of_pos ?_, hy⟩
      simp [hy.host, hhost, hy.master hmaster]
    · rw [List.find?_cons_of_neg (by simp [hhost])] at hx
      obtain ⟨i', hi', hnamed⟩ := ih hx
      refine ⟨i', ?_, hnamed⟩
      rw [List.find?_cons_of_neg (by simp [hy.host, hhost]), hi']

/-- The only master, if it is the first container of its host. -/
theorem described_master {l : List Added} {infos : List (DeployType × ContainerInfo)}
    (h : List.Forall₂ Named l infos) {host : String} {x : Added}
    (honly : l.filter (fun x => x.type = .rm_nn) = [x])
    (hfirst : l.find? (fun x => x.host = host) = some x) (hmaster : x.type = .rm_nn) :
    ∃ i, infos.filter (fun i => i.1 = .rm_nn) = [i] ∧
      infos.find? (fun i => i.2.host = host ∧ i.2.disk = none) = some i ∧ Named x i := by
  obtain ⟨i, hi, hx⟩ := find?_named h hfirst hmaster
  have hmasters : List.Forall₂ Named [x] (infos.filter fun i => i.1 = .rm_nn) := by
    rw [← honly]
    refine List.rel_filter (fun x i hxi => ?_) h
    simp [hxi.type]
  obtain ⟨j, rest, -, hrest, hj⟩ := List.forall₂_cons_left_iff.1 hmasters
  obtain rfl := List.forall₂_nil_left_iff.1 hrest
  have hmem : i ∈ infos.filter fun i => i.1 = .rm_nn :=
    List.mem_filter.2 ⟨List.mem_of_find?_eq_some hi, by simp [hx.type, hmaster]⟩
  rw [hj, List.mem_singleton] at hmem
  subst hmem
  exact ⟨i, hj, hi, hx⟩

/-! ## The description of a placement -/

theorem formatContainers_without_disks {cfg : PlatformConfig} {cr : ContainerResources}
    (bind_dir_name : String) (hcd : ¬ cfg.check_disks) : ∀ (l : List Added) (a : DiskAssignation),
    (∀ x ∈ l, (cr.deploy? x.type).isSome) → ∃ infos, formatContainers cfg cr bind_dir_name l a = .ok infos
  | [], _, _ => ⟨[], rfl⟩
  | x :: l, a, hc => by
    obtain ⟨c, hx⟩ := Option.isSome_iff_exists.1 (hc x List.mem_cons_self)
    obtain ⟨info, hinfo⟩ : ∃ info, formatContainer cfg cr bind_dir_name x a = .ok (info, a) := by
      simp [formatContainer, hx, hcd, bind, Except.bind, pure, Except.pure]
    obtain ⟨infos, hinfos⟩ := formatContainers_without_disks bind_dir_name hcd l a
      fun y hy => hc y (List.mem_cons_of_mem _ hy)
    refine ⟨(x.type, info) :: infos, ?_⟩
    simp only [formatContainers, hinfo, hinfos, bind, Except.bind]
    rfl

/-- **The containers of a placement can be described**, with and without disks. -/
theorem formatContainers_of_placement {q : AppRequest} {r : AssignationResult}
    (h : getContainerAssignationForApp q = .ok r) (herr : r.error = none) {inv inv' : Inventory}
    {added : AddedContainers} (hadd : addPlanned r.new_containers inv = .ok (inv', added))
    (bind_dir_name : String) :
    ∃ infos, formatContainers q.cfg q.container_resources bind_dir_name (addedList added)
      r.disk_assignation = .ok infos := by
  by_cases hcd : q.cfg.check_disks
  · obtain ⟨infos, hinfos, -⟩ := formatContainers_planned hcd h herr hadd bind_dir_name
    exact ⟨infos, hinfos⟩
  · refine formatContainers_without_disks bind_dir_name hcd _ _ fun x hx => ?_
    have hcount : r.count x.host x.type ≠ 0 := by
      rw [← countP_added hadd]
      exact (List.countP_pos_iff.2 ⟨x, hx, by simp⟩).ne'
    exact AssignationResult.deploy?_isSome h herr hcount

/-! ## The container that is taken -/

/-- `rm_container` is what the list says of the only container that is created for
    `rm-nn`, and this one is on `rm_host`. -/
structure CreatedForMaster (cfg : PlatformConfig) (d : AppDeployment) (inv : Inventory)
    (app_containers : Option (List ContainerInfo)) (rm_host : String) (rm_container : ContainerInfo) :
    Prop where
  created : (d.added inv).filter (fun x => x.type = .rm_nn) =
    [⟨rm_host, .rm_nn, rm_container.container_name⟩]
  described : ∃ infos, formatContainers cfg d.container_resources d.bind_dir_name (d.added inv)
      d.disk_assignation = .ok infos ∧ app_containers = some (infos.map Prod.snd) ∧
    infos.filter (fun i => i.1 = .rm_nn) = [(.rm_nn, rm_container)]

variable {ext : External} {cfg : PlatformConfig}

/-- A deployment that returns has added its containers and described them. -/
theorem deployAppContainers_returns {d : AppDeployment} {w w' : World}
    {app_containers : Option (List ContainerInfo)}
    (h : Tasks.deployAppContainers ext cfg d w = .ok app_containers w') :
    ∃ inv added infos, addPlanned d.new_containers w.inventory = .ok (inv, added) ∧
      d.added w.inventory = addedList added ∧
      formatContainers cfg d.container_resources d.bind_dir_name (addedList added)
        d.disk_assignation = .ok infos ∧
      app_containers = if infos = [] then none else some (infos.map Prod.snd) := by
  unfold Tasks.deployAppContainers at h
  obtain ⟨added, w₁, hadded, h⟩ := bind_eq_ok_iff.1 h
  obtain ⟨es, -, -, -, hplanned⟩ := (addPlanned_writes d.new_containers w).ok hadded
  obtain ⟨infos, w₂, hinfos, h⟩ := bind_eq_ok_iff.1 h
  refine ⟨w₁.inventory, added, infos, hplanned, ?_, ?_, ?_⟩
  · simp only [AppDeployment.added, hplanned]
    rfl
  · rcases hformat : formatContainers cfg d.container_resources d.bind_dir_name (addedList added)
        d.disk_assignation with err | infos'
    · simp [hformat, Tasks.ofPy] at hinfos
      cases hinfos
    · simp only [hformat, Tasks.ofPy] at hinfos
      cases hinfos
      rfl
  · by_cases hnil : infos = []
    · subst hnil
      simp only [List.map_nil, if_true] at h ⊢
      cases h
      rfl
    · have hmap : infos.map Prod.snd ≠ [] := by simpa using hnil
      simp only [if_neg hmap] at h
      obtain ⟨-, w₃, -, h⟩ := bind_eq_ok_iff.1 h
      cases h
      rw [if_neg hnil]

/-- The master is looked for on the host that has `rm-nn`. -/
theorem findMaster_of_unique {new_containers : Dict String NewContainers} {host : String}
    {containers : List ContainerInfo}
    (hhost : ((new_containers.get? host).bind (· .rm_nn)).isSome)
    (hother : ∀ other, other ≠ host → (new_containers.get? other).bind (· .rm_nn) = none) :
    Tasks.findMaster new_containers (some containers) =
      .ok (some host, containers.find? fun c => c.host = host ∧ c.disk = none) := by
  obtain ⟨n, hn⟩ := Option.isSome_iff_exists.1 hhost
  obtain ⟨plan, hplanned, hrm⟩ := Option.bind_eq_some_iff.1 hn
  rcases hfind : new_containers.entries.find? fun h => (h.2 .rm_nn).isSome with _ | e
  · have hmem : (host, plan) ∈ new_containers.entries := Dict.get?_eq_some_iff.1 hplanned
    simpa [hrm] using List.find?_eq_none.1 hfind _ hmem
  · have hsome := List.find?_some hfind
    have hget : new_containers.get? e.1 = some e.2 :=
      Dict.get?_eq_some_iff.2 (List.mem_of_find?_eq_some hfind)
    have he : e.1 = host := by
      by_contra hne
      have hnone := hother e.1 hne
      rw [hget, Option.bind_some] at hnone
      simp [hnone] at hsome
    simp only [Tasks.findMaster, hfind, Tasks.items, he]
    rfl

/-- The master of a placement is taken from the list that its deployment returns. -/
theorem findMaster_created {q : AppRequest} {r : AssignationResult} {d : AppDeployment} {w w' : World}
    {app_containers : Option (List ContainerInfo)} (h : getContainerAssignationForApp q = .ok r)
    (herr : r.error = none) (hmaster : ∃ name, (r.get? name .rm_nn).isSome)
    (hplan : d.new_containers = r.new_containers)
    (hrun : Tasks.deployAppContainers ext cfg d w = .ok app_containers w') :
    ∃ rm_host rm_container, r.get? rm_host .rm_nn = some 1 ∧
      CreatedForMaster cfg d w.inventory app_containers rm_host rm_container ∧
      Tasks.findMaster d.new_containers app_containers = .ok (some rm_host, some rm_container) := by
  obtain ⟨host, hone, hother⟩ := AssignationResult.master_of_isSome h herr hmaster
  obtain ⟨inv, added, infos, hadded, hd, hinfos, rfl⟩ := deployAppContainers_returns hrun
  -- what the first loop adds for `rm-nn`
  have hlen : ∀ name, ((added.get? name).bind (· .rm_nn)).map List.length = r.get? name .rm_nn := by
    intro name
    rw [addPlanned_length hadded, hplan]
    rfl
  have hnone : ∀ other ≠ host, (added.get? other).bind (· .rm_nn) = none := by
    intro other hne
    simpa [hother other hne] using hlen other
  have hhost := hlen host
  rw [hone, Option.map_eq_some_iff] at hhost
  obtain ⟨created, hcreated, hlength⟩ := hhost
  obtain ⟨names, hnames, hrm⟩ := Option.bind_eq_some_iff.1 hcreated
  obtain ⟨name, rfl⟩ := List.length_eq_one_iff.1 hlength
  obtain ⟨hfilter, hfirst⟩ := addedList_master hnames hrm hnone
  -- how the second loop describes it
  obtain ⟨i, hmasters, hi, hx⟩ := described_master (formatContainers_named hinfos) hfilter hfirst rfl
  have hne : infos ≠ [] := by
    rintro rfl
    simp at hi
  refine ⟨host, i.2, hone, ⟨?_, infos, ?_, if_neg hne, ?_⟩, ?_⟩
  · rw [hd, hfilter, hx.name]
  · rw [hd, hinfos]
  · rw [hmasters]
    exact congrArg (fun t => [(t, i.2)]) hx.type
  · have hsome : (r.get? host .rm_nn).isSome := by rw [hone]; rfl
    rw [if_neg hne, hplan, findMaster_of_unique hsome hother, List.find?_map]
    exact congrArg (fun c : Option (DeployType × ContainerInfo) => Except.ok (some host, c.map Prod.snd)) hi

/-- The network task returns the master that it has taken. -/
theorem setupContainersHadoopNetworkTask_returns {d : AppDeployment} {hs : HadoopStart}
    {app_containers : Option (List ContainerInfo)} {app_files : AppFiles} {w w' : World}
    {res : String × String × ℚ × ℚ} {rm_host : String} {rm_container : ContainerInfo}
    (hmaster : Tasks.findMaster d.new_containers app_containers = .ok (some rm_host, some rm_container))
    (hrun : Tasks.setupContainersHadoopNetworkTask ext d hs app_containers app_files w = .ok res w') :
    res.1 = rm_host ∧ res.2.1 = rm_container.container_name := by
  simp only [Tasks.setupContainersHadoopNetworkTask, hmaster, Tasks.ofPy, Tasks.bound, pure_bind] at hrun
  obtain ⟨download_time, w₁, -, hrun⟩ := bind_eq_ok_iff.1 hrun
  obtain ⟨-, w₂, -, hrun⟩ := bind_eq_ok_iff.1 hrun
  obtain ⟨-, w₃, -, hrun⟩ := bind_eq_ok_iff.1 hrun
  obtain ⟨upload_time, w₄, -, hrun⟩ := bind_eq_ok_iff.1 hrun
  cases hrun
  exact ⟨rfl, rfl⟩

/-- **A Hadoop application is started in its master container**: the container taken
    from the list of a deployment is the one created for `rm-nn`. -/
theorem master_container_found (ext : External) (cfg : PlatformConfig) (q : AppRequest)
    (r : AssignationResult) (d : AppDeployment) (w w' : World)
    (app_containers : Option (List ContainerInfo)) (h : getContainerAssignationForApp q = .ok r)
    (herr : r.error = none) (hmaster : ∃ name, (r.get? name .rm_nn).isSome)
    (hplan : d.new_containers = r.new_containers)
    (hrun : Tasks.deployAppContainers ext cfg d w = .ok app_containers w') :
    ∃ rm_host rm_container, r.get? rm_host .rm_nn = some 1 ∧
      CreatedForMaster cfg d w.inventory app_containers rm_host rm_container ∧
      Tasks.findMaster d.new_containers app_containers = .ok (some rm_host, some rm_container) ∧
      ∀ hs app_files w₁ res w₂, Tasks.setupContainersHadoopNetworkTask ext d hs app_containers
        app_files w₁ = .ok res w₂ → res.1 = rm_host ∧ res.2.1 = rm_container.container_name := by
  obtain ⟨rm_host, rm_container, hone, hcreated, hfound⟩ :=
    findMaster_created h herr hmaster hplan hrun
  refine ⟨rm_host, rm_container, hone, hcreated, hfound, fun hs app_files w₁ res w₂ hres => ?_⟩
  exact setupContainersHadoopNetworkTask_returns hfound hres

/-- A Hadoop application of three containers, for a platform with one host. -/
def AppRequest.shared : AppRequest where
  cfg := ⟨true, true, false, false, false⟩
  server_name := "server"
  assignation_policy := "Cyclic"
  allow_oversubscription := false
  hosts := Dict.empty.set "host0"
    ⟨fun _ => 8, 10, some (Dict.empty.set "ssd0" ⟨"/ssd0", 20, 20, 20, 20⟩)⟩
  number_of_containers := 3
  container_resources := ⟨.of 1 1 0 2 2, none, none, some (.of 1 1 0 0 0), no_irregular⟩
  app_name := "hadoop"

theorem AppRequest.shared_isSome : AppRequest.shared.result?.isSome := by decide +kernel

/-- The master is found on a host that it shares with two workers. -/
theorem master_container_found_shared : ∃ q r d w w' app_containers rm_container,
    getContainerAssignationForApp q = .ok r ∧ r.error = none ∧ q.cfg.check_disks = true ∧
      r.get? "host0" .regular = some 2 ∧
      Tasks.deployAppContainers .healthy q.cfg d w = .ok app_containers w' ∧
      Tasks.findMaster r.new_containers app_containers = .ok (some "host0", some rm_container) ∧
      CreatedForMaster q.cfg d w.inventory app_containers "host0" rm_container := by
  let q := AppRequest.shared
  let r := q.result?.get AppRequest.shared_isSome
  obtain ⟨hr, herr⟩ : getContainerAssignationForApp q = .ok r ∧ r.error = none :=
    AppRequest.result?_eq_some.1 (Option.some_get AppRequest.shared_isSome).symm
  let d : AppDeployment :=
    { app := "hadoop"
      app_type := some "hadoop_app"
      app_files := .empty
      container_resources := q.container_resources
      bind_dir_name := "binds"
      new_containers := r.new_containers
      disk_assignation := r.disk_assignation
      hosts_named := by decide +kernel }
  have hkeys : r.new_containers.keys = ["host0"] := by decide +kernel
  have hmaster : (r.get? "host0" .rm_nn).isSome := by decide +kernel
  have hreturns : (EStateM.run' (Tasks.deployAppContainers .healthy q.cfg d)
      (.initial inventoryOfOne)).isSome := by decide +kernel
  rcases hrun : Tasks.deployAppContainers .healthy q.cfg d (.initial inventoryOfOne) with
    ⟨app_containers, w'⟩ | ⟨e, w'⟩
  · obtain ⟨rm_host, rm_container, hone, hcreated, hfound, -⟩ :=
      master_container_found .healthy q.cfg q r d _ w' app_containers hr herr ⟨"host0", hmaster⟩ rfl hrun
    obtain rfl : rm_host = "host0" := by
      obtain ⟨plan, hplan, -⟩ := Option.bind_eq_some_iff.1 hone
      have hmem : rm_host ∈ r.new_containers.keys := Dict.mem_keys_iff.2 ⟨plan, hplan⟩
      rwa [hkeys, List.mem_singleton] at hmem
    exact ⟨q, r, d, _, w', app_containers, rm_container, hr, herr, rfl, by decide +kernel, hrun, hfound,
      hcreated⟩
  · delta EStateM.run' EStateM.run at hreturns
    rw [hrun] at hreturns
    cases hreturns

end ServerlessYarn
