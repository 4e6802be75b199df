/-
  ServerlessYARN model — the deployment of an application as a task
  (`ui/background_tasks.py`: `deploy_app_containers`).

  The containers are added to the inventory host by host; if the playbook that
  starts them fails, they are stopped one after another.  `stop_container`
  raises when the remote stop fails, and then the rest of the clean-up is
  skipped.

  * `addPlanned_writes`, `addPlanned_lists`: what the first loop adds to the lists;
  * `deployAppContainers_does`: what the task does, whatever fails;
  * `deploy_cleanup_iff`: a failed deployment is cleaned up if and only if no
    remote stop fails.
-/
import ServerlessYarn.Rollback

namespace ServerlessYarn

open Fallible Inventory

/-! ## The task -/

/-- The arguments of `deploy_app_containers` and the name of the bind directory;
    the planned hosts have names. -/
structure AppDeployment where
  app : String
  app_type : Option String
  app_files : AppFiles
  container_resources : ContainerResources
  bind_dir_name : String
  new_containers : Dict String NewContainers
  disk_assignation : DiskAssignation
  hosts_named : ∀ host ∈ new_containers.keys, host ≠ ""

namespace Tasks

section Deploy

variable (ext : External) (cfg : PlatformConfig)

/-- The containers of one type of a host. -/
def addType (host : String) (nc : NewContainers) (names : DeployType → Option (List String))
    (t : DeployType) : Task (DeployType → Option (List String)) :=
  match nc t with
  | none => return names
  | some n => do
    let added ← updateInventory ext (.addToInventory host n)
      (addContainersToHosts (Dict.empty.set host (n : ℤ)))
    let containers ← ofPy (getItem added host)
    return Function.update names t (some containers)

def addTypes (added_containers : AddedContainers) (h : String × NewContainers) :
    Task AddedContainers := do
  let names ← deployOrder.foldlM (addType ext h.1 h.2) (fun _ => none)
  return added_containers.set h.1 names

/-- The first loop of `deploy_app_containers`. -/
def addPlanned (new_containers : Dict String NewContainers) : Task AddedContainers :=
  new_containers.entries.foldlM (addTypes ext) .empty

/-- Stop the containers whose start has failed. -/
def cleanUp (app : String) (containers_info : List ContainerInfo) : Task Unit := do
  containers_info.forM fun c => stopContainer ext c.host c.container_name none true
  changeAppStateInDb ext app "stopped"

def deployAppContainers (d : AppDeployment) : Task (Option (List ContainerInfo)) := do
  let added_containers ← addPlanned ext d.new_containers
  let containers ← ofPy (formatContainers cfg d.container_resources d.bind_dir_name
    (addedList added_containers) d.disk_assignation)
  let containers_info := containers.map Prod.snd
  if containers_info = [] then return none
  scalingServicesDisabled ext cfg.power_budgeting do
    tryCatch
      (playbook ext (.start_containers_with_app added_containers.keys containers_info d.app d.app_type
        d.app_files))
      fun e => do
        cleanUp ext d.app containers_info
        throw e
  return some containers_info

end Deploy

end Tasks

open Tasks (updateInventory_does)

/-! ## Adding the planned containers -/

/-- A call that adds containers to the inventory. -/
def Call.addsToInventory : Call → Bool
  | .addToInventory .. => true
  | _ => false

/-- The task adds to the inventory what `f` computes, one write after another. -/
def Tasks.Writes {α : Type} (t : Task α) (f : Inventory → Py (Inventory × α)) : Prop :=
  ∀ w, Does World.history t
    (fun a es w' => (∀ x ∈ es, x.call.addsToInventory ∧ x.outcome = .done) ∧
      w' = { w.extend es with inventory := w'.inventory } ∧ f w.inventory = .ok (w'.inventory, a))
    (fun _ es w' => (∃ x ∈ es, x.call.addsToInventory ∧ x.outcome ≠ .done) ∧
      (∀ x ∈ es, x.call.addsToInventory) ∧ w' = { w.extend es with inventory := w'.inventory }) w

variable {ext : External} {cfg : PlatformConfig}

theorem Tasks.Writes.pure {α : Type} (a : α) :
    Writes (Pure.pure a : Task α) fun inv => .ok (inv, a) := fun w =>
  Does.pure ⟨by simp, by rw [World.extend_nil], rfl⟩

theorem Tasks.Writes.bind {α β : Type} {t : Task α} {f : Inventory → Py (Inventory × α)}
    {u : α → Task β} {g : Inventory × α → Py (Inventory × β)} (ht : Writes t f)
    (hu : ∀ a, Writes (u a) fun inv => g (inv, a)) :
    Writes (t >>= u) fun inv => f inv >>= g := by
  intro w
  refine (ht w).seq ?_ fun err es w' h => h
  rintro a es w₁ ⟨hes, hw₁, hf⟩
  have hw₂ : ∀ es' (w₂ : World), w₂ = { w₁.extend es' with inventory := w₂.inventory } →
      w₂ = { w.extend (es ++ es') with inventory := w₂.inventory } := by
    intro es' w₂ hw₂
    rw [hw₂, hw₁]
    simp [World.extend]
  refine (hu a w₁).mono ?_ ?_
  · rintro b es' w₂ ⟨hes', hw', hg⟩
    refine ⟨fun x hx => (List.mem_append.1 hx).elim (hes x) (hes' x), hw₂ es' w₂ hw', ?_⟩
    rw [bind_eq_ok]
    exact ⟨_, hf, hg⟩
  · rintro err es' w₂ ⟨⟨x, hx, hfailed⟩, hes', hw'⟩
    refine ⟨⟨x, List.mem_append_right _ hx, hfailed⟩, fun x hx => ?_, hw₂ es' w₂ hw'⟩
    exact (List.mem_append.1 hx).elim (fun h => (hes x h).1) (hes' x)

/-- A loop of writes is the loop of what they compute. -/
theorem Tasks.Writes.foldlM {α β : Type} {t : β → α → Task β}
    {f : Inventory × β → α → Py (Inventory × β)} (h : ∀ b x, Writes (t b x) fun inv => f (inv, b) x) :
    ∀ (items : List α) (b : β), Writes (items.foldlM t b) fun inv => items.foldlM f (inv, b)
  | [], b => Writes.pure b
  | x :: items, b => by
    refine (h b x).bind fun b' => ?_
    exact Writes.foldlM h items b'

theorem addType_writes (host : String) (nc : NewContainers) (names : DeployType → Option (List String))
    (t : DeployType) : Tasks.Writes (Tasks.addType ext host nc names t)
      fun inv => addType host nc (inv, names) t := by
  intro w
  unfold Tasks.addType addType
  rcases nc t with _ | n
  · exact Tasks.Writes.pure names w
  · refine (updateInventory_does _ _).seq ?_ ?_
    · rintro added es w' ⟨rfl, inv, hinv, rfl⟩
      obtain ⟨containers, hget, -⟩ := addContainersToHosts_single hinv
      have hitem : getItem added host = .ok containers := getItem_eq_ok.2 hget
      rw [hitem]
      refine Does.pure ⟨by simp [Call.addsToInventory], rfl, ?_⟩
      simp only [hinv, bind, Except.bind, hitem]
      rfl
    · rintro err es w' ⟨rfl, rfl⟩
      exact ⟨⟨_, List.mem_singleton.2 rfl, rfl, by simp⟩, by simp [Call.addsToInventory], rfl⟩

/-- **The first loop writes what `addPlanned` computes.** -/
theorem addPlanned_writes (new_containers : Dict String NewContainers) :
    Tasks.Writes (Tasks.addPlanned ext new_containers) fun inv => addPlanned new_containers inv := by
  refine Tasks.Writes.foldlM (fun added h => ?_) _ _
  have htype : ∀ names t, Tasks.Writes (Tasks.addType ext h.1 h.2 names t)
      fun inv => addType h.1 h.2 (inv, names) t := addType_writes h.1 h.2
  have htypes := Tasks.Writes.foldlM htype deployOrder fun _ => none
  exact htypes.bind (g := fun st => .ok (st.1, added.set h.1 st.2)) fun names => Tasks.Writes.pure _

/-! ## What is added to the lists -/

/-- The names of the containers on a host. -/
def namesOn (host : String) (l : List Added) : List String :=
  (l.filter fun x => x.host = host).map (·.name)

@[simp] theorem namesOn_append (host : String) (l l' : List Added) :
    namesOn host (l ++ l') = namesOn host l ++ namesOn host l' := by
  simp [namesOn]

theorem addContainersToHosts_lists {host : String} {n : ℕ} {inv inv' : Inventory}
    {added : Dict String (List String)} {names : List String} (hne : host ≠ "")
    (h : addContainersToHosts (Dict.empty.set host (n : ℤ)) inv = .ok (inv', added))
    (hnames : added.get? host = some names) :
    containersOf inv' host = containersOf inv host ++ names ∧
      ∀ other ≠ host, containersOf inv' other = containersOf inv other := by
  have hentries : (Dict.empty.set host (n : ℤ)).entries = [(host, (n : ℤ))] := by
    simp [Dict.set, Dict.empty, Dict.keys]
  simp only [addContainersToHosts, hentries, List.foldlM_cons, List.foldlM_nil, bind_eq_ok,
    pure_eq_ok, addContainersToHost] at h
  obtain ⟨st, ⟨r, ⟨containers, -, i, hadd, rfl⟩, rfl⟩, h⟩ := h
  cases h
  rw [Dict.get?_set_self] at hnames
  cases hnames
  obtain ⟨-, -, hself, hother⟩ := addContainers_spec hne hadd
  exact ⟨hself, hother⟩

/-- The types of a host: its list grows by their names, in the same order. -/
theorem addType_fold_lists {host : String} {nc : NewContainers} (hne : host ≠ "") :
    ∀ {ts : List DeployType} {st st' : Inventory × (DeployType → Option (List String))}, ts.Nodup →
      ts.foldlM (addType host nc) st = .ok st' → (∀ t ∉ ts, st'.2 t = st.2 t) ∧
        ((∀ t ∈ ts, st.2 t = none) → containersOf st'.1 host =
          containersOf st.1 host ++ ts.flatMap fun t => (st'.2 t).getD []) ∧
        ∀ other ≠ host, containersOf st'.1 other = containersOf st.1 other
  | [], st, st', _, h => by
    obtain rfl := pure_eq_ok.1 h
    simp
  | t₀ :: ts, st, st', hnodup, h => by
    rw [List.nodup_cons] at hnodup
    rw [List.foldlM_cons] at h
    obtain ⟨st₁, hst₁, h⟩ := bind_eq_ok.1 h
    obtain ⟨hkeep, hself, hother⟩ := addType_fold_lists hne hnodup.2 h
    unfold addType at hst₁
    rcases hn : nc t₀ with _ | n
    · simp only [hn, pure_eq_ok] at hst₁
      subst hst₁
      refine ⟨fun t ht => hkeep t fun h => ht (List.mem_cons_of_mem _ h), fun hnone => ?_, hother⟩
      rw [hself fun t ht => hnone t (List.mem_cons_of_mem _ ht), List.flatMap_cons,
        hkeep t₀ hnodup.1, hnone t₀ List.mem_cons_self]
      rfl
    · simp only [hn, bind_eq_ok, pure_eq_ok, getItem_eq_ok] at hst₁
      obtain ⟨⟨inv, added⟩, hadd, names, hnames, rfl⟩ := hst₁
      obtain ⟨hself₁, hother₁⟩ := addContainersToHosts_lists hne hadd hnames
      refine ⟨fun t ht => ?_, fun hnone => ?_, fun other ho => (hother other ho).trans (hother₁ other ho)⟩
      · rw [List.mem_cons, not_or] at ht
        exact (hkeep t ht.2).trans (Function.update_of_ne ht.1 _ _)
      · have hrest : ∀ t ∈ ts, Function.update st.2 t₀ (some names) t = none := by
          intro t ht
          rw [Function.update_of_ne (ne_of_mem_of_not_mem ht hnodup.1)]
          exact hnone t (List.mem_cons_of_mem _ ht)
        have hfirst : st'.2 t₀ = some names := (hkeep t₀ hnodup.1).trans (Function.update_self _ _ _)
        rw [hself hrest, hself₁, List.flatMap_cons, hfirst, List.append_assoc]
        rfl

/-- The containers of a host, in the order of the second loop. -/
theorem addedList_set {added : AddedContainers} {host : String}
    {names : DeployType → Option (List String)} (h : host ∉ added.keys) :
    addedList (added.set host names) = addedList added ++
      deployOrder.flatMap fun t => ((names t).getD []).map fun name => ⟨host, t, name⟩ := by
  unfold addedList
  rw [Dict.entries_set_of_notMem _ _ h, List.flatMap_append, List.flatMap_singleton]

theorem namesOn_type (host host' : String) (t : DeployType) (names : List String) :
    namesOn host' (names.map fun name => ⟨host, t, name⟩) = if host = host' then names else [] := by
  split_ifs with h <;> simp [namesOn, List.filter_map, Function.comp_def, h]

theorem namesOn_types (host host' : String) (names : DeployType → Option (List String)) :
    namesOn host' (deployOrder.flatMap fun t => ((names t).getD []).map fun name => ⟨host, t, name⟩) =
      if host = host' then deployOrder.flatMap fun t => (names t).getD [] else [] := by
  simp only [deployOrder, List.flatMap_cons, List.flatMap_nil, namesOn_append, namesOn_type]
  split_ifs <;> rfl

theorem addPlanned_fold_lists : ∀ {es : List (String × NewContainers)}
    {st st' : Inventory × AddedContainers}, (es.map Prod.fst).Nodup → (∀ e ∈ es, e.1 ≠ "") →
    (∀ e ∈ es, e.1 ∉ st.2.keys) → es.foldlM addTypes st = .ok st' →
    ∃ new, addedList st'.2 = addedList st.2 ++ new ∧ (∀ x ∈ new, x.host ∈ es.map Prod.fst) ∧
      ∀ host, containersOf st'.1 host = containersOf st.1 host ++ namesOn host new
  | [], st, st', _, _, _, h => by
    obtain rfl := pure_eq_ok.1 h
    exact ⟨[], by simp, by simp, by simp [namesOn]⟩
  | e :: es, st, st', hnodup, hne, hnew, h => by
    rw [List.map_cons, List.nodup_cons] at hnodup
    rw [List.foldlM_cons] at h
    obtain ⟨st₁, hst₁, h⟩ := bind_eq_ok.1 h
    obtain ⟨⟨inv, names⟩, htypes, hst₁⟩ := bind_eq_ok.1 hst₁
    obtain rfl := pure_eq_ok.1 hst₁
    obtain ⟨-, hself, hother⟩ := addType_fold_lists (hne e List.mem_cons_self) (by decide) htypes
    have hself := hself fun _ _ => rfl
    obtain ⟨new, hadded, hhosts, hlists⟩ := addPlanned_fold_lists hnodup.2
      (fun e' he' => hne e' (List.mem_cons_of_mem _ he')) (by
        intro e' he' hmem
        rcases Dict.mem_keys_set.1 hmem with heq | hmem
        · exact hnodup.1 (heq ▸ List.mem_map_of_mem he')
        · exact hnew e' (List.mem_cons_of_mem _ he') hmem) h
    let ofHost : List Added := deployOrder.flatMap fun t =>
      ((names t).getD []).map fun name => ⟨e.1, t, name⟩
    refine ⟨ofHost ++ new, ?_, fun x hx => ?_, fun host => ?_⟩
    · rw [hadded, addedList_set (hnew e List.mem_cons_self), List.append_assoc]
    · rcases List.mem_append.1 hx with hx | hx
      · obtain ⟨t, -, hx⟩ := List.mem_flatMap.1 hx
        obtain ⟨name, -, rfl⟩ := List.mem_map.1 hx
        exact List.mem_cons_self
      · exact List.mem_cons_of_mem _ (hhosts x hx)
    · rw [hlists host, namesOn_append, namesOn_types, ← List.append_assoc]
      congr 1
      split_ifs with h
      · subst h
        exact hself
      · rw [List.append_nil]
        exact hother host (Ne.symm h)

/-- **Every list grows by the containers planned on its host.** -/
theorem addPlanned_lists {new_containers : Dict String NewContainers} {inv inv' : Inventory}
    {added : AddedContainers} (hne : ∀ host ∈ new_containers.keys, host ≠ "")
    (h : addPlanned new_containers inv = .ok (inv', added)) :
    (∀ x ∈ addedList added, x.host ≠ "") ∧
      ∀ host, containersOf inv' host = containersOf inv host ++ namesOn host (addedList added) := by
  have hfold : new_containers.entries.foldlM addTypes (inv, .empty) = .ok (inv', added) := h
  obtain ⟨new, hadded, hhosts, hlists⟩ := addPlanned_fold_lists new_containers.distinct
    (fun e he => hne e.1 (List.mem_map_of_mem he)) (by simp) hfold
  have hnew : addedList added = new := hadded
  rw [hnew]
  exact ⟨fun x hx => hne x.host (hhosts x hx), hlists⟩

/-- The descriptions have the hosts and the names of the added containers. -/
theorem formatContainers_names {cr : ContainerResources} {bind_dir_name : String} {l : List Added}
    {a : DiskAssignation} {infos : List (DeployType × ContainerInfo)}
    (h : formatContainers cfg cr bind_dir_name l a = .ok infos) :
    infos.map (fun i => (i.2.host, i.2.container_name)) = l.map fun x => (x.host, x.name) := by
  have hnamed := formatContainers_named h
  clear h
  induction hnamed with
  | nil => rfl
  | cons hx _ ih => simp only [List.map_cons, ih, hx.host, hx.name]

/-! ## Cleaning up -/

/-- A call that starts the containers of an application. -/
def Call.startsContainers : Call → Bool
  | .playbook (.start_containers_with_app ..) => true
  | _ => false

theorem Call.not_starts_of_adds {c : Call} (h : c.addsToInventory) : c.startsContainers = false := by
  cases c <;> simp_all [addsToInventory, startsContainers]

/-- No call that stops containers starts some. -/
theorem not_starts_of_stops {bind_path : ContainerInfo → Option String}
    {containers : List ContainerInfo} {es : List Event}
    (h : es.map Event.call = containers.flatMap (stopCalls bind_path)) :
    ∀ x ∈ es, x.call.startsContainers = false := by
  intro x hx
  obtain ⟨c, -, hcall⟩ := List.mem_flatMap.1 (Event.call_mem h hx)
  rcases List.mem_pair.1 hcall with hcall | hcall <;> rw [hcall] <;> rfl

/-- No call that stops containers asks for a state. -/
theorem not_state_of_stops {bind_path : ContainerInfo → Option String}
    {containers : List ContainerInfo} {es : List Event} {app state : String} {o : Outcome}
    (h : es.map Event.call = containers.flatMap (stopCalls bind_path)) :
    ⟨.db (.app_state app state), o⟩ ∉ es := by
  intro hmem
  obtain ⟨c, -, hcall⟩ := List.mem_flatMap.1 (Event.call_mem h hmem)
  simp [stopCalls] at hcall

open Tasks (stopContainer_does changeAppStateInDb_does switched SwitchFailed switchWorld
  scalingServicesDisabled_does call_does)

/-- The clean-up of a failed start, when nothing in it fails. -/
structure CleansUp (ext : External) (app : String) (containers : List ContainerInfo) (w : World)
    (stops : List Event) (w' : World) : Prop where
  calls : stops.map Event.call = containers.flatMap (stopCalls fun _ => none)
  done : ∀ x ∈ stops, x.outcome = .done
  stopped : ∀ c ∈ containers, ∃ h,
    ext.raises h (.playbook (.stop_container c.host c.container_name none true)) = none
  follows : (∀ c ∈ containers, c.host ≠ "") → Follows w stops w'
  state : w'.app_state = Function.update w.app_state app (some "stopped")
  active : w'.active = w.active

/-- The clean-up of a failed start, when something in it fails: the state is not
    requested. -/
structure CleanUpFails (ext : External) (app : String) (containers : List ContainerInfo)
    (es : List Event) : Prop where
  not_starts : ∀ x ∈ es, x.call.startsContainers = false
  state : ⟨.db (.app_state app "stopped"), .done⟩ ∉ es
  failed : ∃ x ∈ es, x.outcome ≠ .done ∧ (x.call = .db (.app_state app "stopped") ∨
    (∃ host c, x.call = .removeFromInventory host c) ∨
    ∃ c ∈ containers, ∃ h,
      x.call = .playbook (.stop_container c.host c.container_name none true) ∧
      ext.raises h (.playbook (.stop_container c.host c.container_name none true)) ≠ none)

theorem cleanUp_does (app : String) (containers : List ContainerInfo) (w : World) :
    Does World.history (Tasks.cleanUp ext app containers)
      (fun _ es w' => ∃ stops, es = stops ++ [⟨.db (.app_state app "stopped"), .done⟩] ∧
        CleansUp ext app containers w stops w')
      (fun _ es _ => CleanUpFails ext app containers es) w := by
  have hloop : Does World.history
      (containers.forM fun c => Tasks.stopContainer ext c.host c.container_name none true)
      (fun _ es w' => StopsAll (fun _ => none) w containers es w' ∧ (∀ x ∈ es, x.outcome = .done) ∧
        ∀ c ∈ containers, ∃ h,
          ext.raises h (.playbook (.stop_container c.host c.container_name none true)) = none)
      (fun _ es _ => CleanUpFails ext app containers es) w := by
    refine Does.forM (fun (done : List ContainerInfo) es w' => StopsAll (fun _ => none) w done es w' ∧
        (∀ x ∈ es, x.outcome = .done) ∧ ∀ c ∈ done, ∃ h,
          ext.raises h (.playbook (.stop_container c.host c.container_name none true)) = none)
      ⟨StopsAll.nil _ _, by simp, by simp⟩ ?_
    rintro done c es w₁ hc ⟨hall, hes, hstopped⟩
    refine (stopContainer_does c.host c.container_name none true).mono ?_ ?_
    · rintro _ es' w₂ h
      refine ⟨hall.step h, fun x hx => ?_, fun c' hc' => ?_⟩
      · rcases List.mem_append.1 hx with hx | hx
        · exact hes x hx
        · rw [h.events] at hx
          rcases List.mem_pair.1 hx with rfl | rfl <;> rfl
      · rcases List.mem_append.1 hc' with hc' | hc'
        · exact hstopped c' hc'
        · obtain rfl := List.mem_singleton.1 hc'
          exact ⟨_, h.stopped.1 rfl⟩
    · rintro err es' w₂ ⟨stop, remove, hfailed, h⟩
      have hstep := hall.step h
      refine ⟨not_starts_of_stops hstep.calls, not_state_of_stops hstep.calls, ?_⟩
      by_cases hstop : stop = .done
      · refine ⟨⟨.removeFromInventory c.host c.container_name, remove⟩, by simp [h.events],
          fun hremove => hfailed ⟨hstop, hremove⟩, .inr (.inl ⟨_, _, rfl⟩)⟩
      · refine ⟨⟨.playbook (.stop_container c.host c.container_name none true), stop⟩,
          by simp [h.events], hstop, .inr (.inr ⟨c, hc, w₁.history, rfl, ?_⟩)⟩
        exact fun hnone => hstop (h.stopped.2 hnone)
  unfold Tasks.cleanUp
  refine hloop.seq ?_ fun _ _ _ h => h
  rintro _ stops w₁ ⟨hall, hdone, hstopped⟩
  refine (changeAppStateInDb_does app "stopped").mono ?_ ?_
  · rintro _ es w' ⟨rfl, rfl⟩
    refine ⟨stops, rfl, hall.calls, hdone, hstopped, hall.follows, ?_, ?_⟩
    · rw [hall.world]
      rfl
    · rw [hall.world]
      rfl
  · rintro err es w' ⟨⟨o, ho, rfl⟩, rfl⟩
    refine ⟨fun x hx => ?_, fun hmem => ?_, ⟨_, o⟩,
      List.mem_append_right _ (List.mem_singleton.2 rfl), ho, .inl rfl⟩
    · rcases List.mem_append.1 hx with hx | hx
      · exact not_starts_of_stops hall.calls x hx
      · rw [List.mem_singleton.1 hx]
        rfl
    · rcases List.mem_append.1 hmem with hmem | hmem
      · exact not_state_of_stops hall.calls hmem
      · rw [List.mem_singleton] at hmem
        exact ho (congrArg Event.outcome hmem).symm

/-! ## How a deployment ends -/

/-- The playbook that starts the containers. -/
def AppDeployment.startCall (d : AppDeployment) (added : AddedContainers)
    (containers_info : List ContainerInfo) : Call :=
  .playbook (.start_containers_with_app added.keys containers_info d.app d.app_type d.app_files)

/-- The containers were added to the inventory. -/
structure Plans (d : AppDeployment) (w : World) (adds : List Event) (added : AddedContainers)
    (w₁ : World) : Prop where
  events : ∀ x ∈ adds, x.call.addsToInventory ∧ x.outcome = .done
  world : w₁ = { w.extend adds with inventory := w₁.inventory }
  result : addPlanned d.new_containers w.inventory = .ok (w₁.inventory, added)

/-- The containers were added to the inventory and described. -/
structure Prepares (d : AppDeployment) (w : World) (adds : List Event)
    (added : AddedContainers) (containers : List ContainerInfo) (w₁ : World) : Prop
    extends Plans d w adds added w₁ where
  names : containers.map (fun c => (c.host, c.container_name)) =
    (addedList added).map fun x => (x.host, x.name)

/-- How `deploy_app_containers` returns. -/
inductive DeployReturns (cfg : PlatformConfig) (d : AppDeployment) (w : World) :
    Option (List ContainerInfo) → List Event → World → Prop
  | nothing {adds added w₁} (h : Prepares d w adds added [] w₁) : DeployReturns cfg d w none adds w₁
  | started {adds added containers w₁} (h : Prepares d w adds added containers w₁)
      (hne : containers ≠ []) :
      DeployReturns cfg d w (some containers)
        (adds ++ (switched cfg.power_budgeting false ++
          ([⟨d.startCall added containers, .done⟩] ++ switched cfg.power_budgeting true)))
        (switchWorld ((switchWorld w₁ cfg.power_budgeting false).extend
          [⟨d.startCall added containers, .done⟩]) cfg.power_budgeting true)

/-- How `deploy_app_containers` raises. -/
inductive DeployRaises (ext : External) (cfg : PlatformConfig) (d : AppDeployment) (w : World) :
    PyError → List Event → World → Prop
  | notAdded {err es w'} (hfailed : ∃ x ∈ es, x.call.addsToInventory ∧ x.outcome ≠ .done)
      (hes : ∀ x ∈ es, x.call.addsToInventory) : DeployRaises ext cfg d w err es w'
  | notDescribed {err adds added w₁} (h : Plans d w adds added w₁)
      (hformat : ∀ infos, formatContainers cfg d.container_resources d.bind_dir_name
        (addedList added) d.disk_assignation ≠ .ok infos) : DeployRaises ext cfg d w err adds w₁
  | notSwitchedOff {err adds added containers w₁ off w'}
      (h : Prepares d w adds added containers w₁) (hoff : SwitchFailed false off) :
      DeployRaises ext cfg d w err (adds ++ off) w'
  | cleaned {e adds added containers w₁ stops w₂} (h : Prepares d w adds added containers w₁)
      (hclean : CleansUp ext d.app containers ((switchWorld w₁ cfg.power_budgeting false).extend
        [⟨d.startCall added containers, .raised e⟩]) stops w₂) :
      DeployRaises ext cfg d w e
        (adds ++ (switched cfg.power_budgeting false ++ ((⟨d.startCall added containers, .raised e⟩ ::
          (stops ++ [⟨.db (.app_state d.app "stopped"), .done⟩])) ++ switched cfg.power_budgeting true)))
        (switchWorld w₂ cfg.power_budgeting true)
  | notCleaned {e err adds added containers w₁ clean w₂}
      (h : Prepares d w adds added containers w₁)
      (hclean : CleanUpFails ext d.app containers clean) :
      DeployRaises ext cfg d w err
        (adds ++ (switched cfg.power_budgeting false ++ ((⟨d.startCall added containers, .raised e⟩ ::
          clean) ++ switched cfg.power_budgeting true))) (switchWorld w₂ cfg.power_budgeting true)
  | notSwitchedOn {err adds added containers w₁ o clean on w'}
      (h : Prepares d w adds added containers w₁) (hon : SwitchFailed true on) :
      DeployRaises ext cfg d w err
        (adds ++ (switched cfg.power_budgeting false ++ ((⟨d.startCall added containers, o⟩ :: clean) ++
          on))) w'

/-- **What `deploy_app_containers` does, whatever fails.** -/
theorem deployAppContainers_does (d : AppDeployment) (w : World) :
    Does World.history (Tasks.deployAppContainers ext cfg d) (DeployReturns cfg d w)
      (DeployRaises ext cfg d w) w := by
  unfold Tasks.deployAppContainers
  refine (addPlanned_writes d.new_containers w).seq ?_ fun err es w' ⟨hfailed, hes, _⟩ =>
    .notAdded hfailed hes
  rintro added adds w₁ ⟨hadds, hw₁, hadded⟩
  have hplans : Plans d w adds added w₁ := ⟨hadds, hw₁, hadded⟩
  rcases hformat : formatContainers cfg d.container_resources d.bind_dir_name (addedList added)
      d.disk_assignation with err | infos
  · refine Does.throw (R := fun e es' => DeployRaises ext cfg d w e (adds ++ es')) ?_
    rw [List.append_nil]
    exact .notDescribed hplans fun infos h => by rw [hformat] at h; cases h
  have hprepares : Prepares d w adds added (infos.map Prod.snd) w₁ := by
    refine { hplans with names := ?_ }
    rw [List.map_map]
    exact formatContainers_names hformat
  simp only [Tasks.ofPy, pure_bind]
  by_cases hnil : infos.map Prod.snd = []
  · rw [if_pos hnil]
    refine Does.pure ?_
    rw [List.append_nil]
    rw [hnil] at hprepares
    exact .nothing hprepares
  rw [if_neg hnil]
  -- the playbook, followed by the clean-up if it fails
  have hstart : Does World.history (tryCatch
      (Tasks.playbook ext (.start_containers_with_app added.keys (infos.map Prod.snd) d.app d.app_type
        d.app_files))
      fun e => do
        Tasks.cleanUp ext d.app (infos.map Prod.snd)
        throw e)
      (fun _ es w' => es = [⟨d.startCall added (infos.map Prod.snd), .done⟩] ∧
        w' = (switchWorld w₁ cfg.power_budgeting false).extend es)
      (fun err es w' => ∃ e clean, es = ⟨d.startCall added (infos.map Prod.snd), .raised e⟩ :: clean ∧
        ((err = e ∧ ∃ stops, clean = stops ++ [⟨.db (.app_state d.app "stopped"), .done⟩] ∧
            CleansUp ext d.app (infos.map Prod.snd) ((switchWorld w₁ cfg.power_budgeting false).extend
              [⟨d.startCall added (infos.map Prod.snd), .raised e⟩]) stops w') ∨
          CleanUpFails ext d.app (infos.map Prod.snd) clean))
      (switchWorld w₁ cfg.power_budgeting false) := by
    refine (call_does _).catch (fun _ es w' h => ⟨h.1, h.2.1⟩) ?_
    rintro e es w' ⟨rfl, rfl, -⟩
    refine (cleanUp_does d.app (infos.map Prod.snd) _).seq ?_ ?_
    · rintro _ es' w'' ⟨stops, rfl, hclean⟩
      refine Does.throw ?_
      rw [List.append_nil]
      exact ⟨e, _, rfl, .inl ⟨rfl, stops, rfl, hclean⟩⟩
    · rintro err es' w'' hfails
      exact ⟨e, es', rfl, .inr hfails⟩
  refine (scalingServicesDisabled_does hstart).seq ?_ ?_
  · rintro _ es w' ⟨es₁, w₂, ⟨rfl, rfl⟩, rfl, rfl⟩
    refine Does.pure ?_
    rw [List.append_nil]
    exact .started hprepares hnil
  · rintro err es w' (⟨hoff, -⟩ | ⟨es₁, w₂, hraised, rfl, rfl⟩ | ⟨es₁, w₂, on, hended, hon, -, rfl⟩)
    · exact .notSwitchedOff hprepares hoff
    · obtain ⟨e, clean, rfl, ⟨rfl, stops, rfl, hclean⟩ | hfails⟩ := hraised
      · exact .cleaned hprepares hclean
      · exact .notCleaned hprepares hfails
    · rcases hended with ⟨_, rfl, -⟩ | ⟨e, e', clean, rfl, -⟩
      · exact .notSwitchedOn hprepares hon
      · exact .notSwitchedOn hprepares hon

/-! ## When a failed deployment is cleaned up -/

/-- The containers that a deployment adds to an inventory. -/
def AppDeployment.added (d : AppDeployment) (inv : Inventory) : List Added :=
  ((addPlanned d.new_containers inv).toOption.map fun r => addedList r.2).getD []

/-- After the playbook has raised `e`: the deployment raises it, the containers
    that were added are gone, and the state `stopped` is requested. -/
structure CleanedUp (d : AppDeployment) (e : PyError) (w : World)
    (result : EStateM.Result PyError World (Option (List ContainerInfo))) (w' : World)
    (es : List Event) : Prop where
  raised : result = .error e w'
  lists : ∀ host ≠ "", (containersOf w'.inventory host).Perm (containersOf w.inventory host)
  requested : ⟨.db (.app_state d.app "stopped"), .done⟩ ∈ es

theorem append_sdiff_perm (l m : List String) : ((l ++ m).diff m).Perm l := by
  rw [← Multiset.coe_eq_coe, ← Multiset.coe_sub, ← Multiset.coe_add, add_tsub_cancel_right]

theorem Prepares.added_eq {d : AppDeployment} {w w₁ : World} {adds : List Event}
    {added : AddedContainers} {containers : List ContainerInfo}
    (h : Prepares d w adds added containers w₁) : d.added w.inventory = addedList added := by
  unfold AppDeployment.added
  rw [h.result]
  rfl

/-- The descriptions of the containers on a host. -/
theorem Prepares.namesOn {d : AppDeployment} {w w₁ : World} {adds : List Event}
    {added : AddedContainers} {containers : List ContainerInfo}
    (h : Prepares d w adds added containers w₁) (host : String) :
    (containers.filter fun c => c.host = host).map (·.container_name) =
      ServerlessYarn.namesOn host (addedList added) := by
  have hleft : (containers.filter fun c => c.host = host).map (·.container_name) =
      ((containers.map fun c => (c.host, c.container_name)).filter fun c => c.1 = host).map Prod.snd := by
    rw [List.filter_map, List.map_map]
    rfl
  rw [hleft, h.names, List.filter_map, List.map_map]
  rfl

theorem Prepares.hosts_named {d : AppDeployment} {w w₁ : World} {adds : List Event}
    {added : AddedContainers} {containers : List ContainerInfo}
    (h : Prepares d w adds added containers w₁) : ∀ c ∈ containers, c.host ≠ "" := by
  intro c hc
  have hmem := List.mem_map_of_mem (f := fun c : ContainerInfo => (c.host, c.container_name)) hc
  rw [h.names, List.mem_map] at hmem
  obtain ⟨x, hx, heq⟩ := hmem
  have hhost : x.host = c.host := congrArg Prod.fst heq
  rw [← hhost]
  exact (addPlanned_lists d.hosts_named h.result).1 x hx

/-- When nothing fails in the clean-up, the lists are as before. -/
theorem CleansUp.lists {d : AppDeployment} {w w₁ w₂ w₃ : World} {adds stops : List Event}
    {added : AddedContainers} {containers : List ContainerInfo}
    (h : Prepares d w adds added containers w₁) (hw₂ : w₂.inventory = w₁.inventory)
    (hclean : CleansUp ext d.app containers w₂ stops w₃) (host : String) (hne : host ≠ "") :
    (containersOf w₃.inventory host).Perm (containersOf w.inventory host) := by
  rw [hclean.follows h.hosts_named host hne, writtenOff_stops host hclean.calls fun x hx _ => hclean.done x hx,
    h.namesOn, hw₂, (addPlanned_lists d.hosts_named h.result).2]
  exact append_sdiff_perm _ _

theorem switched_script {power_budgeting enable : Bool} {x : Event}
    (h : x ∈ switched power_budgeting enable) : ∃ service, x = ⟨.script service enable, .done⟩ := by
  obtain ⟨service, -, rfl⟩ := List.mem_map.1 h
  exact ⟨service, rfl⟩

theorem Plans.not_starts {d : AppDeployment} {w w₁ : World} {adds : List Event}
    {added : AddedContainers} (h : Plans d w adds added w₁) :
    ∀ x ∈ adds, x.call.startsContainers = false := by
  intro x hx
  exact Call.not_starts_of_adds (h.events x hx).1

/-- A deployment that returns had no failing call. -/
theorem DeployReturns.done {d : AppDeployment} {w w' : World} {infos : Option (List ContainerInfo)}
    {es : List Event} (h : DeployReturns cfg d w infos es w') : ∀ x ∈ es, x.outcome = .done := by
  intro x hx
  rcases h with ⟨h⟩ | ⟨h, -⟩
  · exact (h.events x hx).2
  · simp only [List.mem_append, List.mem_singleton] at hx
    rcases hx with hx | hx | rfl | hx
    · exact (h.events x hx).2
    · obtain ⟨service, rfl⟩ := switched_script hx
      rfl
    · rfl
    · obtain ⟨service, rfl⟩ := switched_script hx
      rfl

/-- What the failure of the start leads to, if no script fails. -/
theorem DeployRaises.of_start {d : AppDeployment} {w w' : World} {err e : PyError} {es : List Event}
    (h : DeployRaises ext cfg d w err es w') {x : Event} (hx : x ∈ es)
    (hstart : x.call.startsContainers) (hraised : x.outcome = .raised e)
    (hscripts : ∀ x ∈ es, (∃ service enable, x.call = .script service enable) → x.outcome = .done) :
    ∃ adds added containers w₁, Prepares d w adds added containers w₁ ∧ ∃ clean w₂,
      es = adds ++ (switched cfg.power_budgeting false ++
        ((⟨d.startCall added containers, x.outcome⟩ :: clean) ++ switched cfg.power_budgeting true)) ∧
      w' = switchWorld w₂ cfg.power_budgeting true ∧
      ((err = e ∧ ∃ stops, clean = stops ++ [⟨.db (.app_state d.app "stopped"), .done⟩] ∧
          CleansUp ext d.app containers ((switchWorld w₁ cfg.power_budgeting false).extend
            [⟨d.startCall added containers, .raised e⟩]) stops w₂) ∨
        CleanUpFails ext d.app containers clean) := by
  have hfirst : ∀ {adds : List Event} {added : AddedContainers} {w₁ : World}, Plans d w adds added w₁ →
      x ∉ adds := by
    intro adds added w₁ hplans hmem
    rw [hplans.not_starts x hmem] at hstart
    cases hstart
  have hswitched : ∀ enable, x ∉ switched cfg.power_budgeting enable := by
    intro enable hmem
    obtain ⟨service, rfl⟩ := switched_script hmem
    cases hstart
  rcases h with ⟨-, hadds⟩ | ⟨h, -⟩ | ⟨h, hoff⟩ | ⟨h, hclean⟩ | ⟨h, hclean⟩ | ⟨h, hon⟩
  case notAdded =>
    rw [Call.not_starts_of_adds (hadds x hx)] at hstart
    cases hstart
  case notDescribed => exact absurd hx (hfirst h)
  case notSwitchedOff =>
    rcases List.mem_append.1 hx with hx | hx
    · exact absurd hx (hfirst h.toPlans)
    · obtain ⟨service, hcall⟩ := hoff.1 x hx
      rw [hcall] at hstart
      cases hstart
  case cleaned adds added containers w₁ stops w₂ =>
    have hxe : x = ⟨d.startCall added containers, .raised err⟩ := by
      simp only [List.mem_append, List.mem_cons] at hx
      rcases hx with hx | hx | (hx | hx | hx | hx) | hx
      · exact absurd hx (hfirst h.toPlans)
      · exact absurd hx (hswitched _)
      · exact hx
      · rw [not_starts_of_stops hclean.calls x hx] at hstart
        cases hstart
      · rw [hx] at hstart
        cases hstart
      · cases hx
      · exact absurd hx (hswitched _)
    subst hxe
    cases hraised
    exact ⟨adds, added, containers, w₁, h, _, w₂, rfl, rfl, .inl ⟨rfl, stops, rfl, hclean⟩⟩
  case notCleaned e' adds added containers w₁ clean w₂ =>
    have hxe : x = ⟨d.startCall added containers, .raised e'⟩ := by
      simp only [List.mem_append, List.mem_cons] at hx
      rcases hx with hx | hx | (hx | hx) | hx
      · exact absurd hx (hfirst h.toPlans)
      · exact absurd hx (hswitched _)
      · exact hx
      · rw [hclean.not_starts x hx] at hstart
        cases hstart
      · exact absurd hx (hswitched _)
    subst hxe
    exact ⟨adds, added, containers, w₁, h, clean, w₂, rfl, rfl, .inr hclean⟩
  case notSwitchedOn =>
    obtain ⟨y, hy, hrefused⟩ := hon.2
    obtain ⟨service, hcall⟩ := hon.1 y hy
    have hdone := hscripts y (by simp [hy]) ⟨service, true, hcall⟩
    rw [hrefused] at hdone
    cases hdone

/-- **When a failed deployment is cleaned up.** -/
theorem deploy_cleanup_iff (ext : External) (cfg : PlatformConfig)
    (stopFails : String → String → Option PyError) {d : AppDeployment} {w w' : World}
    {result : EStateM.Result PyError World (Option (List ContainerInfo))} {es : List Event}
    {e : PyError}
    (hstops : ∀ h host c,
      ext.raises h (.playbook (.stop_container host c none true)) = stopFails host c)
    (hrun : Tasks.deployAppContainers ext cfg d w = result)
    (hw' : w' = after (Tasks.deployAppContainers ext cfg d) w) (hes : w'.history = w.history ++ es)
    (hstart : ∃ x ∈ es, x.call.startsContainers ∧ x.outcome = .raised e)
    (hinventory : ∀ x ∈ es, (∃ host c, x.call = .removeFromInventory host c) → x.outcome = .done)
    (hstate : ∀ x ∈ es, x.call = .db (.app_state d.app "stopped") → x.outcome = .done)
    (hscripts : ∀ x ∈ es, (∃ service enable, x.call = .script service enable) → x.outcome = .done) :
    CleanedUp d e w result w' es ↔ ∀ x ∈ d.added w.inventory, stopFails x.host x.name = none := by
  obtain ⟨x, hx, hxstart, hxraised⟩ := hstart
  have hdoes : Does World.history (Tasks.deployAppContainers ext cfg d) _ _ w :=
    deployAppContainers_does d w
  rcases result with ⟨infos, w₀⟩ | ⟨err, w₀⟩
  · -- the deployment returned, so nothing raised
    obtain rfl : w' = w₀ := by rw [hw', after, hrun]
    obtain ⟨es', hes', hreturns⟩ := hdoes.ok hrun
    obtain rfl := List.append_cancel_left (hes.symm.trans hes')
    rw [hreturns.done x hx] at hxraised
    cases hxraised
  obtain rfl : w' = w₀ := by rw [hw', after, hrun]
  obtain ⟨es', hes', hraises⟩ := hdoes.error hrun
  obtain rfl := List.append_cancel_left (hes.symm.trans hes')
  obtain ⟨adds, added, containers, w₁, h, clean, w₂, rfl, rfl, hend⟩ :=
    hraises.of_start hx hxstart hxraised hscripts
  rw [h.added_eq]
  rcases hend with ⟨rfl, stops, rfl, hclean⟩ | hclean
  · have hinv : ((switchWorld w₁ cfg.power_budgeting false).extend
        [⟨d.startCall added containers, .raised err⟩]).inventory = w₁.inventory := rfl
    have hlists := hclean.lists h hinv
    refine iff_of_true ⟨rfl, hlists, by simp⟩ fun y hy => ?_
    have hmem : (y.host, y.name) ∈ containers.map fun c => (c.host, c.container_name) := by
      rw [h.names]
      exact List.mem_map_of_mem (f := fun x : Added => (x.host, x.name)) hy
    obtain ⟨c, hc, heq⟩ := List.mem_map.1 hmem
    obtain ⟨history, hstopped⟩ := hclean.stopped c hc
    rw [hstops, (Prod.mk.inj heq).1, (Prod.mk.inj heq).2] at hstopped
    exact hstopped
  · refine iff_of_false (fun hcleaned => ?_) fun hall => ?_
    · have hmem := hcleaned.requested
      simp only [List.mem_append, List.mem_cons] at hmem
      rcases hmem with hmem | hmem | (hmem | hmem) | hmem
      · cases (h.events _ hmem).1
      · obtain ⟨service, heq⟩ := switched_script hmem
        cases heq
      · cases hmem
      · exact hclean.state hmem
      · obtain ⟨service, heq⟩ := switched_script hmem
        cases heq
    · obtain ⟨y, hy, hfailed, hcall | hcall | ⟨c, hc, history, hcall, hraises'⟩⟩ := hclean.failed
      · exact hfailed (hstate y (by simp [hy]) hcall)
      · exact hfailed (hinventory y (by simp [hy]) hcall)
      · have hmem := List.mem_map_of_mem (f := fun c : ContainerInfo => (c.host, c.container_name)) hc
        rw [h.names, List.mem_map] at hmem
        obtain ⟨z, hz, heq⟩ := hmem
        rw [hstops, ← (Prod.mk.inj heq).1, ← (Prod.mk.inj heq).2] at hraises'
        exact hraises' (hall z hz)

/-- A platform without disks and without power budgeting. -/
def PlatformConfig.plain : PlatformConfig := ⟨false, false, false, false, false⟩

/-- An inventory with the host `host0`. -/
def inventoryOfOne : Inventory :=
  Dict.empty.set HOST_GROUP_NAME ⟨some (Dict.empty.set "host0" .empty),
    some ((Dict.empty.set "disks" (.disks .empty)).set "containers" (.containers []))⟩

/-- Two containers of the application `app` on `host0`. -/
def AppDeployment.two : AppDeployment where
  app := "app"
  app_type := none
  app_files := .empty
  container_resources := ⟨.of 100 1024 0 0 0, some (.of 200 2048 0 0 0), none, none, .inr rfl⟩
  bind_dir_name := "binds"
  new_containers := Dict.empty.set "host0" fun t => if t = .regular then some 2 else none
  disk_assignation := .empty
  hosts_named := by
    intro host hhost
    rw [List.mem_singleton.1 hhost]
    decide

/-- The playbook that starts the containers raises, and so do the remote stops
    that are asked for. -/
def External.startFails (stopFails : String → Bool) : External :=
  { External.healthy with
    raises := fun _ c =>
      match c with
      | .playbook (.start_containers_with_app ..) => some (.exception "start")
      | .playbook (.stop_container _ c none true) =>
        if stopFails c then some (.exception "stop") else none
      | _ => none }

/-- Both containers of a failed start are stopped. -/
theorem deploy_cleanup_iff_stopped :
    let t := Tasks.deployAppContainers (.startFails fun _ => false) .plain .two
    CleanedUp .two (.exception "start") (.initial inventoryOfOne) (t (.initial inventoryOfOne))
      (after t (.initial inventoryOfOne)) (after t (.initial inventoryOfOne)).history := by
  intro t
  have hdone : ∀ x ∈ (after t (.initial inventoryOfOne)).history,
      x.call.startsContainers ∨ x.outcome = .done := by decide +kernel
  have hstart : ∃ x ∈ (after t (.initial inventoryOfOne)).history,
      x.call.startsContainers ∧ x.outcome = .raised (.exception "start") := by decide +kernel
  have hhistory : (after t (.initial inventoryOfOne)).history =
      (World.initial inventoryOfOne).history ++ (after t (.initial inventoryOfOne)).history :=
    (List.nil_append _).symm
  refine (deploy_cleanup_iff (.startFails fun _ => false) .plain (fun _ _ => none) (fun _ _ _ => rfl)
    rfl rfl hhistory hstart ?_ ?_ ?_).2 fun _ _ => rfl
  · rintro x hx ⟨host, c, hcall⟩
    refine (hdone x hx).resolve_left ?_
    simp [hcall, Call.startsContainers]
  · intro x hx hcall
    refine (hdone x hx).resolve_left ?_
    simp [hcall, Call.startsContainers]
  · rintro x hx ⟨service, enable, hcall⟩
    refine (hdone x hx).resolve_left ?_
    simp [hcall, Call.startsContainers]

/-- The first of the two containers cannot be stopped: the second one stays in
    the inventory, and the error of the playbook is lost. -/
theorem deploy_not_cleaned_up : ∃ (ext : External) (e : PyError),
    let t := Tasks.deployAppContainers ext .plain .two
    let w' := after t (.initial inventoryOfOne)
    (∃ x ∈ w'.history, x.call.startsContainers ∧ x.outcome = .raised e) ∧
      (∀ x ∈ w'.history, x.outcome = .done ∨ x.call.startsContainers ∨
        x.call = .playbook (.stop_container "host0" "host0-cont0" none true)) ∧
      ¬ CleanedUp .two e (.initial inventoryOfOne) (t (.initial inventoryOfOne)) w' w'.history := by
  refine ⟨.startFails fun c => c = "host0-cont0", .exception "start", ?_, ?_, fun hcleaned => ?_⟩
  · decide +kernel
  · decide +kernel
  · have hrequested := hcleaned.requested
    revert hrequested
    decide +kernel

end ServerlessYarn
