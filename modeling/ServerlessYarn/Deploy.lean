/-
  ServerlessYARN model — the deployment of an application's containers
  (`ui/background_tasks.py`: `deploy_app_containers`, up to the playbook).

  The containers planned on each host are named in the inventory, and each
  container with a disk takes the first disk of its host whose counter is not
  used up.  Containers are handled host by host, first the master, then the
  irregular containers, then the regular ones.

  * `formatContainers_spec`: if the counters of every host add up to its
    containers with a disk, every such container gets one disk and every disk
    is used as often as its counter says.
-/
import ServerlessYarn.DiskPlanning
import ServerlessYarn.InventoryUpdates

namespace ServerlessYarn

/-! ## The containers in the inventory -/

/-- `['rm-nn', 'irregular', 'regular']`. -/
def deployOrder : List DeployType := [.rm_nn, .irregular, .regular]

/-- `added_containers`: the names of the new containers, per host and type. -/
abbrev AddedContainers := Dict String (DeployType → Option (List String))

/-- The containers of one type of a host. -/
def addType (host : String) (nc : NewContainers)
    (st : Inventory × (DeployType → Option (List String))) (t : DeployType) :
    Py (Inventory × (DeployType → Option (List String))) :=
  match nc t with
  | none => return st
  | some n => do
    let (inv, added) ← addContainersToHosts (Dict.empty.set host (n : ℤ)) st.1
    return (inv, Function.update st.2 t (some (← getItem added host)))

/-- The containers of a host: the body of the first loop. -/
def addTypes (st : Inventory × AddedContainers) (h : String × NewContainers) :
    Py (Inventory × AddedContainers) := do
  let (inv, names) ← deployOrder.foldlM (addType h.1 h.2) (st.1, fun _ => none)
  return (inv, st.2.set h.1 names)

/-- The first loop of `deploy_app_containers`, under the lock. -/
def addPlanned (new_containers : Dict String NewContainers) (inv : Inventory) :
    Py (Inventory × AddedContainers) :=
  new_containers.entries.foldlM addTypes (inv, .empty)

/-! ## The description of the containers -/

/-- The entries of `container_info` about the disk. -/
structure DiskAttachment where
  disk : String
  disk_path : String
  disk_read : Limits
  disk_write : Limits
deriving DecidableEq

/-- `container_info`. -/
structure ContainerInfo where
  container_name : String
  host : String
  cpu : Limits
  mem : Limits
  energy : Option Limits
  disk : Option DiskAttachment
deriving DecidableEq

/-- A container in the order of the second loop: its host, its type and its name. -/
structure Added where
  host : String
  type : DeployType
  name : String
deriving DecidableEq

/-- The containers in the order of the second loop. -/
def addedList (added_containers : AddedContainers) : List Added :=
  added_containers.entries.flatMap fun h => deployOrder.flatMap fun t =>
    ((h.2 t).getD []).map fun name => ⟨h.1, t, name⟩

/-- `disk_assignation[host][disk]['new_containers'] -= 1`. -/
def DiskAssignation.take (a : DiskAssignation) (host disk : String) : DiskAssignation :=
  a.modify host fun ds => ds.modify disk fun p => { p with new_containers := p.new_containers - 1 }

/-- The body of the second loop of `deploy_app_containers`. -/
def formatContainer (cfg : PlatformConfig) (cr : ContainerResources) (bind_dir_name : String)
    (x : Added) (disk_assignation : DiskAssignation) : Py (ContainerInfo × DiskAssignation) := do
  let c ← match cr.deploy? x.type with
    | some c => pure c
    | none => .error (.keyError x.type.key)
  let info : ContainerInfo :=
    { container_name := x.name
      host := x.host
      cpu := c.res .cpu
      mem := c.res .mem
      energy := if cfg.power_budgeting then some (c.res .energy) else none
      disk := none }
  if cfg.check_disks ∧ x.type ≠ .rm_nn then
    let disks ← getItem disk_assignation x.host
    match disks.entries.find? fun d => 0 < d.2.new_containers with
    | some (disk, p) =>
      let attachment : DiskAttachment :=
        { disk := disk
          disk_path := String.intercalate "/" [p.disk_path, bind_dir_name, x.name]
          disk_read := c.disk_read
          disk_write := c.disk_write }
      return ({ info with disk := some attachment }, disk_assignation.take x.host disk)
    | none => return (info, disk_assignation)
  else return (info, disk_assignation)

/-- The second loop of `deploy_app_containers`; every container comes with its
    type. -/
def formatContainers (cfg : PlatformConfig) (cr : ContainerResources) (bind_dir_name : String) :
    List Added → DiskAssignation → Py (List (DeployType × ContainerInfo))
  | [], _ => return []
  | x :: rest, disk_assignation => do
    let (info, disk_assignation) ← formatContainer cfg cr bind_dir_name x disk_assignation
    let containers_info ← formatContainers cfg cr bind_dir_name rest disk_assignation
    return (x.type, info) :: containers_info

/-- `deploy_app_containers`, up to the playbook. -/
def deployAppContainers (cfg : PlatformConfig) (cr : ContainerResources) (bind_dir_name : String)
    (new_containers : Dict String NewContainers) (disk_assignation : DiskAssignation)
    (inv : Inventory) : Py (Inventory × List (DeployType × ContainerInfo)) := do
  let (inv, added_containers) ← addPlanned new_containers inv
  return (inv, ← formatContainers cfg cr bind_dir_name (addedList added_containers) disk_assignation)

/-! ## The number of containers -/

theorem length_createContainerList (host : String) (number : ℤ) (first : ℕ) :
    (createContainerList host number first).length = number.toNat := by
  simp [createContainerList]

theorem addContainersToHosts_single {host : String} {n : ℕ} {inv inv' : Inventory}
    {added : Dict String (List String)}
    (h : addContainersToHosts (Dict.empty.set host (n : ℤ)) inv = .ok (inv', added)) :
    ∃ names, added.get? host = some names ∧ names.length = n := by
  have hentries : (Dict.empty.set host (n : ℤ)).entries = [(host, (n : ℤ))] := by
    simp [Dict.set, Dict.empty, Dict.keys]
  simp only [addContainersToHosts, hentries, List.foldlM_cons, List.foldlM_nil, bind_eq_ok,
    pure_eq_ok, addContainersToHost] at h
  obtain ⟨st, ⟨r, ⟨containers, -, i, -, rfl⟩, rfl⟩, h⟩ := h
  cases h
  refine ⟨_, Dict.get?_set_self _ _ _, ?_⟩
  rw [length_createContainerList, Int.toNat_natCast]

/-- The types of a host: as many names as planned. -/
theorem addType_fold {host : String} {nc : NewContainers} :
    ∀ {ts : List DeployType} {st st' : Inventory × (DeployType → Option (List String))},
      ts.foldlM (addType host nc) st = .ok st' → ∀ t, (st'.2 t).map List.length =
        if t ∈ ts ∧ (nc t).isSome then nc t else (st.2 t).map List.length
  | [], st, st', h, t => by
    obtain rfl := pure_eq_ok.1 h
    simp
  | t₀ :: ts, st, st', h, t => by
    rw [List.foldlM_cons] at h
    obtain ⟨st₁, hst₁, h⟩ := bind_eq_ok.1 h
    rw [addType_fold h t]
    unfold addType at hst₁
    rcases hn : nc t₀ with _ | n
    · simp only [hn, pure_eq_ok] at hst₁
      subst hst₁
      by_cases ht : t = t₀
      · subst ht; simp [hn]
      · simp [ht]
    · simp only [hn, bind_eq_ok, pure_eq_ok, getItem_eq_ok] at hst₁
      obtain ⟨⟨inv, added⟩, hadd, names, hnames, rfl⟩ := hst₁
      obtain ⟨names', hnames', hlen⟩ := addContainersToHosts_single hadd
      rw [hnames] at hnames'
      cases hnames'
      by_cases ht : t = t₀
      · subst ht; simp [hn, hlen]
      · simp [ht]

theorem addTypes_length {st st' : Inventory × AddedContainers} {h : String × NewContainers}
    (hst : addTypes st h = .ok st') : ∃ names, st'.2 = st.2.set h.1 names ∧
      ∀ t, (names t).map List.length = h.2 t := by
  obtain ⟨⟨inv, names⟩, hnames, hst⟩ := bind_eq_ok.1 hst
  obtain rfl := pure_eq_ok.1 hst
  refine ⟨names, rfl, fun t => ?_⟩
  have ht : t ∈ deployOrder := by cases t <;> decide
  have hlen := addType_fold hnames t
  rcases hn : h.2 t with _ | n
  · simpa [hn] using hlen
  · simpa [hn, ht] using hlen

theorem addPlanned_fold : ∀ {es : List (String × NewContainers)}
    {st st' : Inventory × AddedContainers}, (es.map Prod.fst).Nodup →
    es.foldlM addTypes st = .ok st' → ∀ host t, (∀ nc, (host, nc) ∈ es →
        ((st'.2.get? host).bind (· t)).map List.length = nc t) ∧
      (host ∉ es.map Prod.fst → st'.2.get? host = st.2.get? host)
  | [], st, st', _, h, host, t => by
    obtain rfl := pure_eq_ok.1 h
    simp
  | e :: es, st, st', hn, h, host, t => by
    rw [List.map_cons, List.nodup_cons] at hn
    rw [List.foldlM_cons] at h
    obtain ⟨st₁, hst₁, h⟩ := bind_eq_ok.1 h
    obtain ⟨names, hst₁, hlen⟩ := addTypes_length hst₁
    obtain ⟨hin, hout⟩ := addPlanned_fold hn.2 h host t
    constructor
    · intro nc hnc
      rcases List.mem_cons.1 hnc with rfl | hnc
      · rw [hout hn.1, hst₁, Dict.get?_set_self, Option.bind_some, hlen]
      · exact hin nc hnc
    · intro hnot
      rw [List.map_cons, List.mem_cons, not_or] at hnot
      rw [hout hnot.2, hst₁, Dict.get?_set_of_ne _ _ hnot.1]

/-- **The inventory gets as many containers as planned.** -/
theorem addPlanned_length {new_containers : Dict String NewContainers} {inv inv' : Inventory}
    {added : AddedContainers} (h : addPlanned new_containers inv = .ok (inv', added))
    (host : String) (t : DeployType) :
    ((added.get? host).bind (· t)).map List.length = (new_containers.get? host).bind (· t) := by
  have hfold := addPlanned_fold new_containers.distinct h host t
  rcases hnc : new_containers.get? host with _ | nc
  · have hnot : host ∉ new_containers.keys := Dict.get?_eq_none_iff.1 hnc
    rw [hfold.2 hnot]
    rfl
  · exact hfold.1 nc (Dict.get?_eq_some_iff.1 hnc)

theorem countP_addedList (added : AddedContainers) (host : String) (t : DeployType) :
    ((addedList added).countP fun x => x.host = host ∧ x.type = t) =
      (((added.get? host).bind (· t)).map List.length).getD 0 := by
  have hhost : ∀ (h : String) (names : DeployType → Option (List String)),
      ((deployOrder.flatMap fun t => ((names t).getD []).map fun name => Added.mk h t name).countP
        fun x => x.host = host ∧ x.type = t) = if h = host then ((names t).getD []).length else 0 := by
    intro h names
    simp only [deployOrder, List.flatMap_cons, List.flatMap_nil, List.append_nil,
      List.countP_append, List.countP_map, Function.comp_def]
    by_cases hh : h = host <;> cases t <;> simp [hh]
  unfold addedList
  rw [List.countP_flatMap]
  simp only [Function.comp_def, hhost]
  refine (Dict.sum_ite_eq (fun names => ((names t).getD []).length) added host).trans ?_
  rcases added.get? host with _ | names
  · rfl
  · cases hn : names t <;> simp [hn]

/-! ## Taking disks -/

theorem DiskAssignation.planned_take {a : DiskAssignation} {host disk : String} {p : DiskPlan}
    (hp : a.disk? (host, disk) = some p) (hpos : 0 < p.new_containers) (hd : String × String) :
    (a.take host disk).planned hd + (if (host, disk) = hd then 1 else 0) = a.planned hd := by
  unfold take planned
  rw [disk?_modify]
  by_cases h : hd = (host, disk)
  · subst h
    simp only [hp, if_true, Option.map_some, Option.getD_some]
    omega
  · rw [if_neg h, if_neg (Ne.symm h), Nat.add_zero]

theorem DiskAssignation.plannedOn_take {a : DiskAssignation} {host disk : String} {p : DiskPlan}
    (hp : a.disk? (host, disk) = some p) (hpos : 0 < p.new_containers) (name : String) :
    (a.take host disk).plannedOn name + (if host = name then 1 else 0) = a.plannedOn name := by
  unfold take plannedOn
  rw [Dict.get?_modify]
  by_cases h : name = host
  · subst h
    obtain ⟨ds, hds, hget⟩ := Option.bind_eq_some_iff.1 hp
    simp only [hds, if_true, Option.map_some, Option.getD_some]
    have hone : p.new_containers - 1 + 1 = p.new_containers + 0 := by omega
    exact Dict.sum_modify_add (fun _ p => p.new_containers)
      (f := fun p => { p with new_containers := p.new_containers - 1 }) hget hone
  · rw [if_neg h, if_neg (Ne.symm h), Nat.add_zero]

/-- A host whose counters are not used up has a disk to take. -/
theorem DiskAssignation.exists_find {a : DiskAssignation} {host : String}
    (h : 0 < a.plannedOn host) : ∃ ds disk p, a.get? host = some ds ∧
      (ds.entries.find? fun d => 0 < d.2.new_containers) = some (disk, p) ∧
      a.disk? (host, disk) = some p ∧ 0 < p.new_containers := by
  unfold plannedOn at h
  rcases hds : Dict.get? a host with _ | ds
  · simp [hds] at h
  · simp only [hds, Option.map_some, Option.getD_some] at h
    rcases hf : ds.entries.find? fun d => 0 < d.2.new_containers with _ | ⟨disk, p⟩
    · have hzero : ds.sum (fun _ p => p.new_containers) = 0 := by
        refine List.sum_eq_zero_iff_forall_eq_nat.2 fun x hx => ?_
        obtain ⟨d, hd, rfl⟩ := List.mem_map.1 hx
        simpa using List.find?_eq_none.1 hf d hd
      omega
    · have hget : ds.get? disk = some p := Dict.get?_eq_some_iff.2 (List.mem_of_find?_eq_some hf)
      have hpos := List.find?_some hf
      refine ⟨ds, disk, p, rfl, hf, ?_, of_decide_eq_true hpos⟩
      simp [disk?, hds, hget]

theorem DiskAssignation.planned_eq_zero {a : DiskAssignation} {hd : String × String}
    (h : a.plannedOn hd.1 = 0) : a.planned hd = 0 := by
  unfold plannedOn at h
  unfold planned disk?
  rcases hds : Dict.get? a hd.1 with _ | ds
  · rfl
  · simp only [hds, Option.map_some, Option.getD_some] at h
    rcases hp : ds.get? hd.2 with _ | p
    · simp [hp]
    · simpa [hp] using Dict.eq_zero_of_sum_eq_zero h hp

/-! ## The second loop -/

/-- The disk of a container. -/
def ContainerInfo.attached (i : ContainerInfo) : Option (String × String) :=
  i.disk.map fun d => (i.host, d.disk)

/-- The description of a container is that of its name, its host and its type,
    and only the master has no disk. -/
structure Describes (cr : ContainerResources) (x : Added) (i : DeployType × ContainerInfo) :
    Prop where
  type : i.1 = x.type
  host : i.2.host = x.host
  name : i.2.container_name = x.name
  disk : i.2.disk.isSome ↔ x.type ≠ .rm_nn
  limits : ∃ c, cr.deploy? x.type = some c ∧ i.2.cpu = c.res .cpu ∧ i.2.mem = c.res .mem ∧
    ∀ d, i.2.disk = some d → d.disk_read = c.disk_read ∧ d.disk_write = c.disk_write

section format
variable {cfg : PlatformConfig} {cr : ContainerResources} {bind_dir_name : String}

/-- What a description tells of its container, whatever the disks: a master has none. -/
structure Named (x : Added) (i : DeployType × ContainerInfo) : Prop where
  type : i.1 = x.type
  host : i.2.host = x.host
  name : i.2.container_name = x.name
  master : x.type = .rm_nn → i.2.disk = none

theorem formatContainer_named {x : Added} {a a' : DiskAssignation} {info : ContainerInfo}
    (h : formatContainer cfg cr bind_dir_name x a = .ok (info, a')) : Named x (x.type, info) := by
  rcases hc : cr.deploy? x.type with _ | c
  · simp [formatContainer, hc, bind, Except.bind] at h
  · simp only [formatContainer, hc, pure_bind] at h
    by_cases hcd : cfg.check_disks = true ∧ x.type ≠ .rm_nn
    · rw [if_pos hcd, bind_eq_ok] at h
      obtain ⟨disks, -, h⟩ := h
      split at h <;> (cases h; exact ⟨rfl, rfl, rfl, fun hx => absurd hx hcd.2⟩)
    · rw [if_neg hcd] at h
      cases h
      exact ⟨rfl, rfl, rfl, fun _ => rfl⟩

/-- **The descriptions are those of the added containers**, in the same order. -/
theorem formatContainers_named : ∀ {l : List Added} {a : DiskAssignation}
    {infos : List (DeployType × ContainerInfo)},
    formatContainers cfg cr bind_dir_name l a = .ok infos → List.Forall₂ Named l infos
  | [], a, infos, h => by
    obtain rfl := pure_eq_ok.1 h
    exact .nil
  | x :: l, a, infos, h => by
    simp only [formatContainers, bind_eq_ok, pure_eq_ok] at h
    obtain ⟨⟨info, a'⟩, hinfo, infos', hinfos, rfl⟩ := h
    exact .cons (formatContainer_named hinfo) (formatContainers_named hinfos)

/-- A master is described without a disk. -/
theorem formatContainer_master (cfg : PlatformConfig) (bind_dir_name : String) {x : Added} (hx : x.type = .rm_nn)
    (hc : (cr.deploy? x.type).isSome) (a : DiskAssignation) :
    ∃ info, formatContainer cfg cr bind_dir_name x a = .ok (info, a) ∧
      Describes cr x (x.type, info) ∧ info.attached = none := by
  obtain ⟨c, hc⟩ := Option.isSome_iff_exists.1 hc
  refine ⟨⟨x.name, x.host, c.res .cpu, c.res .mem,
    if cfg.power_budgeting then some (c.res .energy) else none, none⟩, ?_, ?_, rfl⟩
  · simp only [formatContainer, hc]
    simp [hx, bind, Except.bind, pure, Except.pure]
  · exact ⟨rfl, rfl, rfl, by simp [hx], c, hc, rfl, rfl, by simp⟩

/-- Another container takes a disk of its host, if the counters are not used up. -/
theorem formatContainer_disk (bind_dir_name : String) (hcd : cfg.check_disks) {x : Added} (hx : x.type ≠ .rm_nn)
    (hc : (cr.deploy? x.type).isSome) {a : DiskAssignation} (ha : 0 < a.plannedOn x.host) :
    ∃ info disk p, formatContainer cfg cr bind_dir_name x a = .ok (info, a.take x.host disk) ∧
      Describes cr x (x.type, info) ∧ info.attached = some (x.host, disk) ∧
      a.disk? (x.host, disk) = some p ∧ 0 < p.new_containers := by
  obtain ⟨c, hc⟩ := Option.isSome_iff_exists.1 hc
  obtain ⟨ds, disk, p, hds, hfind, hp, hpos⟩ := DiskAssignation.exists_find ha
  refine ⟨⟨x.name, x.host, c.res .cpu, c.res .mem,
    if cfg.power_budgeting then some (c.res .energy) else none,
    some ⟨disk, String.intercalate "/" [p.disk_path, bind_dir_name, x.name], c.disk_read,
      c.disk_write⟩⟩, disk, p, ?_, ?_, rfl, hp, hpos⟩
  · simp only [formatContainer, hc, getItem, hds]
    simp [hcd, hx, hfind, bind, Except.bind, pure, Except.pure]
  · exact ⟨rfl, rfl, rfl, by simp [hx], c, hc, rfl, rfl, by simp⟩

/-- **Every container but the master takes one disk, and every disk is taken as
    often as its counter says**, if the counters of every host add up to its
    containers with a disk. -/
theorem formatContainers_spec (hcd : cfg.check_disks) : ∀ (l : List Added) (a : DiskAssignation),
    (∀ x ∈ l, (cr.deploy? x.type).isSome) →
    (∀ host, a.plannedOn host = l.countP fun x => x.host = host ∧ x.type ≠ .rm_nn) →
    ∃ infos, formatContainers cfg cr bind_dir_name l a = .ok infos ∧
      List.Forall₂ (Describes cr) l infos ∧
      ∀ hd, (infos.countP fun i => i.2.attached = some hd) = a.planned hd
  | [], a, _, hsum => by
    refine ⟨[], rfl, .nil, fun hd => ?_⟩
    exact (DiskAssignation.planned_eq_zero (hsum hd.1)).symm
  | x :: l, a, hc, hsum => by
    have hcx := hc x List.mem_cons_self
    have hcl : ∀ y ∈ l, (cr.deploy? y.type).isSome := fun y hy => hc y (List.mem_cons_of_mem _ hy)
    by_cases hx : x.type = .rm_nn
    · obtain ⟨info, hinfo, hdesc, hatt⟩ := formatContainer_master cfg bind_dir_name hx
        hcx a
      obtain ⟨infos, hinfos, hall, hcount⟩ := formatContainers_spec hcd l a hcl (by
        intro host
        simpa [List.countP_cons, hx] using hsum host)
      refine ⟨(x.type, info) :: infos, ?_, .cons hdesc hall, fun hd => ?_⟩
      · simp only [formatContainers, hinfo, bind, Except.bind, hinfos]
        rfl
      · simp [hatt, hcount]
    · have hpos : 0 < a.plannedOn x.host := by
        rw [hsum]
        simp [hx]
      obtain ⟨info, disk, p, hinfo, hdesc, hatt, hp, hpos⟩ := formatContainer_disk bind_dir_name hcd hx
        hcx hpos
      obtain ⟨infos, hinfos, hall, hcount⟩ := formatContainers_spec hcd l (a.take x.host disk) hcl
        (by
          intro host
          have htake := DiskAssignation.plannedOn_take hp hpos host
          have hhost := hsum host
          rw [List.countP_cons] at hhost
          by_cases hh : x.host = host <;> simp only [hh, hx, ne_eq, not_false_iff, and_self,
            false_and, decide_true, decide_false, Bool.false_eq_true, if_true, if_false]
            at hhost htake ⊢ <;> omega)
      refine ⟨(x.type, info) :: infos, ?_, .cons hdesc hall, fun hd => ?_⟩
      · simp only [formatContainers, hinfo, bind, Except.bind, hinfos]
        rfl
      · rw [List.countP_cons, hcount, ← DiskAssignation.planned_take hp hpos hd]
        simp [hatt]

end format

end ServerlessYarn
