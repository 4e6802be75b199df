/-
  ServerlessYARN model — the rollback of an application start
  (`ui/background_tasks.py`: `rollback_start_flow`).

  The rollback stops the application and then the container in every container,
  removes the containers from the state database, and at last sets the state to
  `stopped` and switches the scaling services on.  It goes on after every error.

  * `rollbackStartFlow_does`: what it does, whatever fails;
  * `rollback_complete`: it never raises, attempts every step, and removes the
    containers whose inventory write succeeds.
-/
import ServerlessYarn.Tasks

namespace ServerlessYarn

open Fallible Inventory

namespace Tasks

/-- `container.get('disk_path', '')`. -/
def diskPath (c : ContainerInfo) : String := (c.disk.map (·.disk_path)).getD ""

section Rollback

variable (ext : External) (power_budgeting : Bool)

/-- `rollback_start_flow`; `None` and `[]` skip the loops. -/
def rollbackStartFlow (app : String) (app_containers : Option (List ContainerInfo))
    (app_files : AppFiles) : Task Unit := do
  let containers := app_containers.getD []
  containers.forM fun c => attempt (playbook ext (.stop_app_on_container c.host c.container_name app
    app_files "" (diskPath c) none 0 0))
  containers.forM fun c => attempt (stopContainer ext c.host c.container_name (some (diskPath c)) true)
  containers.forM fun c => attempt (discard (removeContainerFromAppDb ext c.container_name app))
  attempt (changeAppStateInDb ext app "stopped")
  attempt (Tasks.manageScalingServices ext power_budgeting true)

end Rollback

end Tasks

open Tasks

/-! ## What the inventory writes leave -/

/-- The containers of a host that were removed from the inventory. -/
def writtenOff (host : String) (es : List Event) : List String :=
  es.filterMap fun x =>
    match x.call, x.outcome with
    | .removeFromInventory h c, .done => if h = host then some c else none
    | _, _ => none

/-- Every list of the inventory has lost what was written off. -/
def Follows (w : World) (es : List Event) (w' : World) : Prop :=
  ∀ host ≠ "", containersOf w'.inventory host =
    (containersOf w.inventory host).diff (writtenOff host es)

variable {w w' w'' : World} {es es' : List Event}

@[simp] theorem writtenOff_append (host : String) (es es' : List Event) :
    writtenOff host (es ++ es') = writtenOff host es ++ writtenOff host es' :=
  List.filterMap_append

theorem Follows.trans (h : Follows w es w') (h' : Follows w' es' w'') : Follows w (es ++ es') w'' := by
  intro host hne
  rw [h' host hne, h host hne, writtenOff_append, List.diff_append]

/-- Nothing was written off, and the inventory is the same. -/
theorem Follows.of_inventory (hes : ∀ host, writtenOff host es = [])
    (hw : w'.inventory = w.inventory) : Follows w es w' := by
  intro host _
  rw [hes host, hw]
  rfl

theorem writtenOff_eq_nil (h : ∀ x ∈ es, ∀ host c, x.call ≠ .removeFromInventory host c) (host : String) :
    writtenOff host es = [] := by
  refine List.filterMap_eq_nil_iff.2 fun x hx => ?_
  have hcall := h x hx
  rcases x with ⟨_ | _ | _ | _ | ⟨host', c⟩ | _ | _, outcome⟩
  case removeFromInventory => exact absurd rfl (hcall host' c)
  all_goals rfl

/-- `stop_container` writes the container off if its inventory write succeeds. -/
theorem Tasks.StopsContainer.follows {ext : External} {host container_name : String} {bind_path : Option String}
    {clean_bind_dir : Bool} {stop remove : Outcome} (hne : host ≠ "")
    (h : StopsContainer ext host container_name bind_path clean_bind_dir w stop remove es w') :
    Follows w es w' := by
  obtain ⟨rfl, -, -, hdone, hkept⟩ := h
  intro host' hne'
  by_cases hremove : remove = .done
  · subst hremove
    obtain ⟨-, hself, hother⟩ := removeContainer_spec hne (hdone rfl)
    by_cases hh : host = host'
    · subst hh
      rw [hself]
      simp [writtenOff]
    · rw [hother host' (Ne.symm hh)]
      simp [writtenOff, hh]
  · rw [hkept hremove]
    have hnil : writtenOff host' [⟨.playbook (.stop_container host container_name bind_path
        clean_bind_dir), stop⟩, ⟨.removeFromInventory host container_name, remove⟩] = [] := by
      cases remove <;> simp_all [writtenOff]
    rw [hnil]
    rfl

/-! ## The loops -/

variable {ext : External} {power_budgeting : Bool} {app : String} {app_files : AppFiles}
  {containers : List ContainerInfo}

/-- Stop the application in a container. -/
def stopAppCall (app : String) (app_files : AppFiles) (c : ContainerInfo) : Call :=
  .playbook (.stop_app_on_container c.host c.container_name app app_files "" (diskPath c) none 0 0)

/-- Stop a container and remove it from the inventory. -/
def stopCalls (bind_path : ContainerInfo → Option String) (c : ContainerInfo) : List Call :=
  [.playbook (.stop_container c.host c.container_name (bind_path c) true),
    .removeFromInventory c.host c.container_name]

/-- Calls that may fail one by one: all of them are made. -/
theorem attemptCalls_does (f : ContainerInfo → Call) (containers : List ContainerInfo) :
    Does World.history (containers.forM fun c => attempt (call ext (f c)))
      (fun _ es w' => w' = w.extend es ∧ es.map Event.call = containers.map f)
      (fun _ _ _ => False) w := by
  refine Does.forM (fun done es w' => w' = w.extend es ∧ es.map Event.call = done.map f)
    ⟨(World.extend_nil w).symm, rfl⟩ ?_
  rintro done c es w' - ⟨rfl, hes⟩
  refine (call_does (f c)).attempt ?_ ?_
  · rintro _ es' w'' ⟨rfl, rfl, -⟩
    exact ⟨World.extend_extend _ _ _, by simp [hes]⟩
  · rintro err es' w'' ⟨rfl, rfl, -⟩
    exact ⟨World.extend_extend _ _ _, by simp [hes]⟩

/-- Some containers were stopped and removed from the inventory, one after another. -/
structure StopsAll (bind_path : ContainerInfo → Option String) (w : World)
    (containers : List ContainerInfo) (es : List Event) (w' : World) : Prop where
  world : w' = { w.extend es with inventory := w'.inventory }
  calls : es.map Event.call = containers.flatMap (stopCalls bind_path)
  follows : (∀ c ∈ containers, c.host ≠ "") → Follows w es w'

theorem StopsAll.nil (bind_path : ContainerInfo → Option String) (w : World) :
    StopsAll bind_path w [] [] w where
  world := by simp
  calls := rfl
  follows := fun _ => Follows.of_inventory (fun _ => rfl) rfl

/-- One more container, whatever fails. -/
theorem StopsAll.step {bind_path : ContainerInfo → Option String} {done : List ContainerInfo}
    {c : ContainerInfo} {stop remove : Outcome} (h : StopsAll bind_path w done es w')
    (hc : StopsContainer ext c.host c.container_name (bind_path c) true w' stop remove es' w'') :
    StopsAll bind_path w (done ++ [c]) (es ++ es') w'' where
  world := by
    rw [hc.world, h.world]
    simp [World.extend]
  calls := by
    rw [hc.events]
    simp [h.calls, stopCalls]
  follows := by
    intro hne
    have hdone := h.follows fun c' hc' => hne c' (List.mem_append_left _ hc')
    exact hdone.trans (hc.follows (hne c (by simp)))

/-- Stopping all containers: both steps are made for each of them. -/
theorem attemptStops_does (bind_path : ContainerInfo → Option String) (containers : List ContainerInfo) :
    Does World.history
      (containers.forM fun c => attempt (stopContainer ext c.host c.container_name (bind_path c) true))
      (fun _ => StopsAll bind_path w containers) (fun _ _ _ => False) w := by
  refine Does.forM (fun done es w' => StopsAll bind_path w done es w') (StopsAll.nil bind_path w) ?_
  rintro done c es w₁ - h
  refine (stopContainer_does c.host c.container_name (bind_path c) true).attempt (fun _ _ _ => h.step) ?_
  rintro err es' w₂ ⟨stop, remove, -, hc⟩
  exact h.step hc

/-- The requests that remove a container from an application and from the database. -/
def removalCalls (app container_name : String) : List Call :=
  [.db (.container_of_app container_name app), .db (.container container_name)]

/-- Removing all containers from the state database. -/
theorem attemptForgets_does (app : String) (containers : List ContainerInfo) :
    Does World.history
      (containers.forM fun c => attempt (discard (removeContainerFromAppDb ext c.container_name app)))
      (fun _ es w' => w' = w.extend es ∧
        (∀ x ∈ es, ∃ c ∈ containers, x.call ∈ removalCalls app c.container_name) ∧
        ∀ c ∈ containers, .db (.container_of_app c.container_name app) ∈ es.map Event.call)
      (fun _ _ _ => False) w := by
  refine Does.forM (fun (done : List ContainerInfo) es w' => w' = w.extend es ∧
      (∀ x ∈ es, ∃ c ∈ done, x.call ∈ removalCalls app c.container_name) ∧
      ∀ c ∈ done, .db (.container_of_app c.container_name app) ∈ es.map Event.call)
    ⟨(World.extend_nil w).symm, by simp, by simp⟩ ?_
  rintro done c es w₁ - ⟨rfl, honly, hall⟩
  have hstep : ∀ es', (∀ x ∈ es', x.call ∈ removalCalls app c.container_name) →
      .db (.container_of_app c.container_name app) ∈ es'.map Event.call →
      (w.extend es).extend es' = w.extend (es ++ es') ∧
      (∀ x ∈ es ++ es', ∃ c' ∈ done ++ [c], x.call ∈ removalCalls app c'.container_name) ∧
      ∀ c' ∈ done ++ [c], .db (.container_of_app c'.container_name app) ∈
        (es ++ es').map Event.call := by
    intro es' hes' hc
    refine ⟨World.extend_extend _ _ _, fun x hx => ?_, fun c' hc' => ?_⟩
    · rcases List.mem_append.1 hx with hx | hx
      · obtain ⟨c', hc', hcall⟩ := honly x hx
        exact ⟨c', List.mem_append_left _ hc', hcall⟩
      · exact ⟨c, by simp, hes' x hx⟩
    · rw [List.map_append, List.mem_append]
      rcases List.mem_append.1 hc' with hc' | hc'
      · exact .inl (hall c' hc')
      · obtain rfl := List.mem_singleton.1 hc'
        exact .inr hc
  have hforget : Does World.history (discard (removeContainerFromAppDb ext c.container_name app))
      (fun _ es' w₂ => w₂ = (w.extend es).extend es' ∧
        (∀ x ∈ es', x.call ∈ removalCalls app c.container_name) ∧
        .db (.container_of_app c.container_name app) ∈ es'.map Event.call)
      (fun _ es' w₂ => w₂ = (w.extend es).extend es' ∧
        (∀ x ∈ es', x.call ∈ removalCalls app c.container_name) ∧
        .db (.container_of_app c.container_name app) ∈ es'.map Event.call) (w.extend es) := by
    refine ((removeContainerFromAppDb_does c.container_name app).mono ?_ ?_).map fun _ _ _ h => h
    · rintro error es' w₂ ⟨rfl, o₁, o₂, rfl, -⟩
      exact ⟨rfl, by simp [removalCalls], by simp⟩
    · rintro err es' w₂ ⟨rfl, rfl | ⟨o, rfl⟩⟩
      · exact ⟨rfl, by simp [removalCalls], by simp⟩
      · exact ⟨rfl, by simp [removalCalls], by simp⟩
  refine hforget.attempt ?_ ?_
  · rintro _ es' w₂ ⟨rfl, hes', hc⟩
    exact hstep es' hes' hc
  · rintro _ es' w₂ ⟨rfl, hes', hc⟩
    exact hstep es' hes' hc

/-! ## The rollback -/

/-- What the rollback did: the calls of its three loops, how the request for the
    state ended, and the scripts. -/
structure RollsBack (power_budgeting : Bool) (app : String) (app_files : AppFiles)
    (containers : List ContainerInfo) (w : World) (stopApps stops forgets : List Event) (o : Outcome)
    (scripts : List Event) (w' : World) : Prop where
  stopApps_calls : stopApps.map Event.call = containers.map (stopAppCall app app_files)
  stops_calls : stops.map Event.call = containers.flatMap (stopCalls fun c => some (diskPath c))
  forgets_calls : ∀ c ∈ containers, .db (.container_of_app c.container_name app) ∈ forgets.map Event.call
  forgets_only : ∀ x ∈ forgets, ∃ c ∈ containers, x.call ∈ removalCalls app c.container_name
  scripts_calls : scripts.map Event.call =
    (scalingServices power_budgeting).map fun service => .script service true
  follows : (∀ c ∈ containers, c.host ≠ "") → Follows w stops w'
  state : o = .done → w'.app_state app = some "stopped"
  state_kept : o ≠ .done → w'.app_state = w.app_state
  active : (∀ x ∈ scripts, x.outcome = .done) →
    ∀ service ∈ scalingServices power_budgeting, w'.active service = true

/-- The events of a rollback, in order. -/
def rollbackEvents (app : String) (stopApps stops forgets : List Event) (o : Outcome)
    (scripts : List Event) : List Event :=
  stopApps ++ (stops ++ (forgets ++ (⟨.db (.app_state app "stopped"), o⟩ :: scripts)))

theorem switchEvents_calls {services : List ScalingService} {enable : Bool} {w : World} :
    (switchEvents ext services enable w).map Event.call =
      services.map fun service => .script service enable := by
  simp [switchEvents]

/-- If no script of a switch failed, the services are switched. -/
theorem afterScripts_eq {services : List ScalingService} {enable : Bool} {w : World}
    (h : ∀ x ∈ switchEvents ext services enable w, x.outcome = .done) :
    ∀ service ∈ services, afterScripts ext services enable w service = enable := by
  intro service hservice
  have hx := h _ (List.mem_map_of_mem hservice)
  rw [afterScripts, if_pos hservice]
  by_cases hs : ext.script w.history service enable = .succeeded
  · rw [hs]
  · simp [hs] at hx

/-- The rollback goes on after every error, and does not raise. -/
theorem rollbackStartFlow_does (app_containers : Option (List ContainerInfo)) :
    Does World.history (rollbackStartFlow ext power_budgeting app app_containers app_files)
      (fun _ es w' => ∃ stopApps stops forgets o scripts,
        es = rollbackEvents app stopApps stops forgets o scripts ∧
        RollsBack power_budgeting app app_files (app_containers.getD []) w stopApps stops forgets o
          scripts w')
      (fun _ _ _ => False) w := by
  unfold rollbackStartFlow
  refine (attemptCalls_does (stopAppCall app app_files) _).seq ?_ fun _ _ _ h => h
  rintro _ stopApps w₁ ⟨rfl, hstopApps⟩
  refine (attemptStops_does _ _).seq ?_ fun _ _ _ h => h
  rintro _ stops w₂ ⟨hw₂, hstops, hfollows⟩
  refine (attemptForgets_does app _).seq ?_ fun _ _ _ h => h
  rintro _ forgets w₃ ⟨rfl, honly, hforgets⟩
  -- the request for the state
  have hstate : Does World.history (attempt (changeAppStateInDb ext app "stopped"))
      (fun _ es w' => ∃ o, es = [⟨.db (.app_state app "stopped"), o⟩] ∧
        w'.inventory = w₂.inventory ∧ (o = .done → w'.app_state app = some "stopped") ∧
        (o ≠ .done → w'.app_state = w₂.app_state))
      (fun _ _ _ => False) (w₂.extend forgets) := by
    refine (changeAppStateInDb_does app "stopped").attempt ?_ ?_
    · rintro _ es w' ⟨rfl, rfl⟩
      exact ⟨.done, rfl, rfl, fun _ => Function.update_self _ _ _, by simp⟩
    · rintro err es w' ⟨⟨o, ho, rfl⟩, rfl⟩
      exact ⟨o, rfl, rfl, fun h => absurd h ho, fun _ => rfl⟩
  refine hstate.seq ?_ fun _ _ _ h => h
  rintro _ es w₄ ⟨o, rfl, hinv, hstopped, hkept⟩
  -- the scripts
  have hdone : ∀ es w₅, es = switchEvents ext (scalingServices power_budgeting) true w₄ →
      w₅ = { w₄.extend es with active := afterScripts ext (scalingServices power_budgeting) true w₄ } →
      ∃ stopApps' stops' forgets' o' scripts,
        stopApps ++ (stops ++ (forgets ++ ([⟨.db (.app_state app "stopped"), o⟩] ++ es))) =
          rollbackEvents app stopApps' stops' forgets' o' scripts ∧
        RollsBack power_budgeting app app_files (app_containers.getD []) w stopApps' stops' forgets' o'
          scripts w₅ := by
    rintro es w₅ rfl rfl
    refine ⟨stopApps, stops, forgets, o, _, rfl, hstopApps, hstops, hforgets, honly, switchEvents_calls,
      fun hne => ?_, hstopped, fun ho => (hkept ho).trans (by rw [hw₂]; rfl), afterScripts_eq⟩
    intro host hhost
    change containersOf w₄.inventory host = _
    rw [hinv]
    exact hfollows hne host hhost
  refine (manageScalingServices_does power_budgeting true).attempt ?_ ?_
  · rintro _ es w₅ ⟨hes, hw₅, -⟩
    exact hdone es w₅ hes (hes ▸ hw₅)
  · rintro err es w₅ ⟨hes, hw₅, -⟩
    exact hdone es w₅ hes (hes ▸ hw₅)

theorem mem_writtenOff {host c : String} (h : ⟨.removeFromInventory host c, .done⟩ ∈ es) :
    c ∈ writtenOff host es :=
  List.mem_filterMap.2 ⟨_, h, if_pos rfl⟩

/-- Stopping all containers writes all of them off, if no inventory write fails. -/
theorem writtenOff_stops {bind_path : ContainerInfo → Option String} (host : String)
    (hcalls : es.map Event.call = containers.flatMap (stopCalls bind_path))
    (hdone : ∀ x ∈ es, (∃ h c, x.call = .removeFromInventory h c) → x.outcome = .done) :
    writtenOff host es = (containers.filter fun c => c.host = host).map (·.container_name) := by
  induction containers generalizing es with
  | nil =>
    rw [List.flatMap_nil, List.map_eq_nil_iff] at hcalls
    rw [hcalls]
    rfl
  | cons c containers ih =>
    rw [List.flatMap_cons, stopCalls, List.cons_append, List.cons_append, List.nil_append,
      List.map_eq_cons_iff] at hcalls
    obtain ⟨stop, es, rfl, hstop, hcalls⟩ := hcalls
    obtain ⟨remove, es, rfl, hremove, hcalls⟩ := List.map_eq_cons_iff.1 hcalls
    have hremoved := hdone remove (by simp) ⟨_, _, hremove⟩
    have hrest := ih hcalls fun x hx => hdone x (by simp [hx])
    obtain ⟨call, o⟩ := remove
    obtain ⟨call', o'⟩ := stop
    subst hstop hremove hremoved
    rw [List.filter_cons]
    by_cases h : c.host = host
    · rw [if_pos (decide_eq_true h), List.map_cons, ← hrest, ← h]
      simp [writtenOff]
    · rw [if_neg (by simpa using h), ← hrest]
      simp [writtenOff, h]

/-- Only the second loop writes the inventory. -/
theorem RollsBack.writtenOff_eq {stopApps stops forgets scripts : List Event} {o : Outcome}
    (h : RollsBack power_budgeting app app_files containers w stopApps stops forgets o scripts w')
    (host : String) :
    writtenOff host (rollbackEvents app stopApps stops forgets o scripts) = writtenOff host stops := by
  have hstopApps : writtenOff host stopApps = [] := by
    refine writtenOff_eq_nil (fun x hx => ?_) host
    obtain ⟨c, -, hc⟩ := List.mem_map.1 (Event.call_mem h.stopApps_calls hx)
    rw [← hc]
    simp [stopAppCall]
  have hforgets : writtenOff host forgets = [] := by
    refine writtenOff_eq_nil (fun x hx => ?_) host
    obtain ⟨c, -, hcall⟩ := h.forgets_only x hx
    rcases List.mem_pair.1 hcall with hcall | hcall <;> rw [hcall] <;> simp
  have hscripts : writtenOff host scripts = [] := by
    refine writtenOff_eq_nil (fun x hx => ?_) host
    obtain ⟨service, -, hservice⟩ := List.mem_map.1 (Event.call_mem h.scripts_calls hx)
    rw [← hservice]
    simp
  have hlast : writtenOff host (⟨.db (.app_state app "stopped"), o⟩ :: scripts) = [] := by
    rw [← hscripts]
    rfl
  unfold rollbackEvents
  rw [writtenOff_append, writtenOff_append, writtenOff_append, hstopApps, hforgets, hlast]
  simp

/-- **The rollback is best-effort and complete**: it returns, every step is
    attempted for every container, the lists of the inventory lose what was
    written off, and the state and the services come last. -/
theorem rollback_complete (ext : External) (power_budgeting : Bool) (app : String)
    (app_files : AppFiles) (containers : List ContainerInfo) (w : World) : ∃ w' es,
    rollbackStartFlow ext power_budgeting app (some containers) app_files w = .ok () w' ∧
      w'.history = w.history ++ es ∧
      (∀ c ∈ containers, ∀ step ∈ stopAppCall app app_files c ::
          .db (.container_of_app c.container_name app) :: stopCalls (fun c => some (diskPath c)) c,
        step ∈ es.map Event.call) ∧
      ((∀ c ∈ containers, c.host ≠ "") →
        (∀ host ≠ "", containersOf w'.inventory host =
          (containersOf w.inventory host).diff (writtenOff host es)) ∧
        ∀ c ∈ containers, ⟨.removeFromInventory c.host c.container_name, .done⟩ ∈ es →
          (containersOf w.inventory c.host).Nodup →
            c.container_name ∉ containersOf w'.inventory c.host) ∧
      ∃ es₀ o scripts, es = es₀ ++ ⟨.db (.app_state app "stopped"), o⟩ :: scripts ∧
        scripts.map Event.call =
          (scalingServices power_budgeting).map fun service => .script service true := by
  have hdoes : Does World.history
      (rollbackStartFlow ext power_budgeting app (some containers) app_files) _ _ w :=
    rollbackStartFlow_does (some containers)
  rcases hrun : rollbackStartFlow ext power_budgeting app (some containers) app_files w with
    ⟨⟨⟩, w'⟩ | ⟨err, w'⟩
  · obtain ⟨es, hlog, stopApps, stops, forgets, o, scripts, rfl, h⟩ := hdoes.ok hrun
    refine ⟨w', _, rfl, hlog, fun c hc step hstep => ?_, fun hne => ?_,
      stopApps ++ (stops ++ forgets), o, scripts, by simp [rollbackEvents], h.scripts_calls⟩
    · simp only [rollbackEvents, List.map_append, List.mem_append, List.map_cons]
      rcases List.mem_cons.1 hstep with rfl | hstep
      · left
        rw [h.stopApps_calls]
        exact List.mem_map_of_mem hc
      · right
        rcases List.mem_cons.1 hstep with rfl | hstep
        · exact .inr (.inl (h.forgets_calls c hc))
        · left
          rw [h.stops_calls]
          exact List.mem_flatMap.2 ⟨c, hc, hstep⟩
    · have hfollows : ∀ host ≠ "", containersOf w'.inventory host =
          (containersOf w.inventory host).diff
            (writtenOff host (rollbackEvents app stopApps stops forgets o scripts)) := by
        intro host hhost
        rw [h.writtenOff_eq]
        exact h.follows hne host hhost
      refine ⟨hfollows, fun c hc hdone hnodup hmem => ?_⟩
      rw [hfollows c.host (hne c hc), hnodup.mem_sdiff_iff] at hmem
      exact hmem.2 (mem_writtenOff hdone)
  · obtain ⟨es, -, hfalse⟩ := hdoes.error hrun
    exact hfalse.elim

end ServerlessYarn
