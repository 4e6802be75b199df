/-
  ServerlessYARN model — the tasks that run an application
  (`ui/background_tasks.py`: `start_app_task`, `start_hadoop_app_task`,
  `remove_containers_from_app`, `setup_containers_hadoop_network_task`).

  Both tasks are modelled from the moment the plan is known.  An ordinary
  application is deployed and started under a `try` that rolls back; the wait
  for its containers and their removal come after it.  A Hadoop application has
  no such `try`.

  * `collect_does`: a loop that goes on after an error and collects it;
  * `removeContainersFromApp_does`: how the removal of the containers ends;
  * `startAppTask_does`: how an ordinary application ends;
  * `startHadoopAppTask_does`: what a Hadoop application leaves if it raises.
-/
import ServerlessYarn.DeployTask

namespace ServerlessYarn

open Fallible Inventory

namespace Tasks

section Lifecycle

variable (ext : External)

/-! ## Counters, tasks and timestamps -/

def createAppCounter (app_name : String) : Task Unit :=
  call ext (.hset ("app:" ++ app_name) "active_containers")

def updateTaskRuntime (task_id : String) : Task Unit :=
  call ext (.hset ("pending_tasks:" ++ task_id) "runtime")

/-- `stop_task = ….delay(…)`, followed by `register_task(stop_task.id, …)`. -/
def launchTask (t : LaunchedTask) : Task Unit := do
  let w ← get
  call ext (.launch t)
  call ext (.hset ("pending_tasks:" ++ ext.task_id w.history) "task_name")

/-- The timestamp of the output data, if there is an output directory. -/
def outputTimestamp (app_files : AppFiles) : Task (Option String) := do
  let w ← get
  return if (app_files.get? "output_dir").any (· ≠ "") then some (ext.strftime w.history) else none

/-- The items of a loop over a variable that may be `None`. -/
def items {α : Type} : Option (List α) → Py (List α)
  | some l => .ok l
  | none => .error .typeError

/-! ## Loops that collect errors -/

/-- `for c in …: try: … except Exception as e: errors.append(…)`. -/
def collect (f : ContainerInfo → Task Unit) (message : ContainerInfo → PyError → String) :
    List ContainerInfo → Task (List String)
  | [] => return []
  | c :: rest => do
    let error ← tryCatch (do f c; return none) fun e => return some (message c e)
    let errors ← collect f message rest
    return error.toList ++ errors

/-- Remove the containers from the state database; the errors are collected. -/
def removeAllFromAppDb (app : String) : List String → Task (List String)
  | [] => return []
  | c :: rest => do
    let error ← removeContainerFromAppDb ext c app
    let errors ← removeAllFromAppDb app rest
    return if error = "" then errors else error :: errors

/-- `if len(errors) > 0: raise Exception(str(errors))`. -/
def raiseErrors (errors : List String) : Task Unit :=
  if errors = [] then return () else throw (.exception (ext.strList errors))

/-! ## Ordinary applications -/

def setupContainersNetworkTask (app : String) (app_containers : Option (List ContainerInfo))
    (new_containers : Dict String NewContainers) : Task Unit :=
  playbook ext (.setup_network_on_containers new_containers.keys app_containers app)

/-- `start_app_on_container_task`, without data of the global HDFS. -/
def startAppCall (app : String) (app_files : AppFiles) (c : ContainerInfo) : Call :=
  .playbook (.start_app_on_container c.host c.container_name app app_files (diskPath c) none)

def startAppOnContainers (app : String) (app_containers : Option (List ContainerInfo))
    (app_files : AppFiles) : Task Unit := do
  let containers ← ofPy (items app_containers)
  group (containers.map fun c => call ext (startAppCall app app_files c))

/-- `wait_for_app_on_container_task`. -/
def waitCall (host : String) (c : ContainerInfo) : Call :=
  .playbook (.wait_for_app_on_container host c.container_name)

def waitForAppOnContainers (app_containers : Option (List ContainerInfo)) : Task Unit := do
  let containers ← ofPy (items app_containers)
  group (containers.map fun c => call ext (waitCall c.host c))

/-- `remove_containers_from_app`. -/
def removeContainersFromApp (power_budgeting : Bool) (container_list : Option (List ContainerInfo))
    (app : String) (app_files : AppFiles) : Task Unit := do
  let (containers, errors) ← scalingServicesDisabled ext power_budgeting do
    changeAppStateInDb ext app "stopped"
    let containers ← ofPy (items container_list)
    let errors ← removeAllFromAppDb ext app (containers.map (·.container_name))
    return (containers, errors)
  let timestamp ← outputTimestamp ext app_files
  let app_errors ← collect
    (fun c => playbook ext (.stop_app_on_container c.host c.container_name app app_files ""
      (diskPath c) timestamp 0 0))
    (fun c e => String.join ["Error stopping aplication ", app, " inside container ",
      c.container_name, ": ", ext.str e]) containers
  let stop_errors ← collect
    (fun c => stopContainer ext c.host c.container_name (some (diskPath c)) true)
    (fun _ e => ext.str e) containers
  raiseErrors ext (errors ++ app_errors ++ stop_errors)

/-- `start_app_task`, once `wait_for_app_dependency` has returned the plan.  The
    handler of the `try` sees the containers only if the deployment returned. -/
def startAppTask (cfg : PlatformConfig) (enable_app_callback : Bool) (task_id : String)
    (d : AppDeployment) : Task Unit := do
  if enable_app_callback then createAppCounter ext d.app
  changeAppStateInDb ext d.app "running"
  let app_containers ← tryCatch (deployAppContainers ext cfg d) fun e => do
    rollbackStartFlow ext cfg.power_budgeting d.app none d.app_files
    throw e
  tryCatch
    (do
      setupContainersNetworkTask ext d.app app_containers d.new_containers
      startAppOnContainers ext d.app app_containers d.app_files)
    fun e => do
      rollbackStartFlow ext cfg.power_budgeting d.app app_containers d.app_files
      throw e
  if enable_app_callback then return ()
  waitForAppOnContainers ext app_containers
  updateTaskRuntime ext task_id
  removeContainersFromApp ext cfg.power_budgeting app_containers d.app d.app_files

end Lifecycle

end Tasks

/-! ## Hadoop applications -/

/-- The arguments of `start_hadoop_app_task` that the deployment does not read, and
    the id of the task.  `hadoop_conf` is `hadoop_resources["regular"]`. -/
structure HadoopStart where
  task_id : String
  app_type : String
  hadoop_conf : HadoopResources
  scaler_polling_freq : ℚ
  global_hdfs_data : Option AppFiles

/-- `global_hdfs_data`, which `None` and `{}` leave out. -/
def HadoopStart.global? (h : HadoopStart) : Option AppFiles :=
  h.global_hdfs_data.filter fun data => !data.entries.isEmpty

namespace Tasks

section Hadoop

variable (ext : External) (cfg : PlatformConfig)

/-- The host of the master and the first of its containers without a disk; both
    stay unbound if they are not found. -/
def findMaster (new_containers : Dict String NewContainers)
    (app_containers : Option (List ContainerInfo)) : Py (Option String × Option ContainerInfo) :=
  match new_containers.entries.find? fun h => (h.2 .rm_nn).isSome with
  | none => return (none, none)
  | some h => do
    let containers ← items app_containers
    return (some h.1, containers.find? fun c => c.host = h.1 ∧ c.disk = none)

/-- The value of a local variable; `UnboundLocalError` if it has none. -/
def bound {α : Type} (name : String) : Option α → Py α
  | some a => .ok a
  | none => .error (.exception (String.join ["local variable '", name, "' referenced before assignment"]))

/-- A playbook that returns how long its transfers took. -/
def timedPlaybook (p : Playbook) : Task ℚ := do
  let w ← get
  playbook ext p
  return ext.transfer_time w.history p

/-- `"global_input" in global_hdfs_data and global_hdfs_data["global_input"] != ""`. -/
def hasGlobalInput (global_hdfs_data : AppFiles) : Bool :=
  (global_hdfs_data.get? "global_input").any (· ≠ "")

/-- Connect the containers, and download the input from the global HDFS if there is
    one; returns how long the download took. -/
def setupHadoopNetwork (d : AppDeployment) (h : HadoopStart)
    (app_containers : Option (List ContainerInfo)) (app_files : AppFiles)
    (master : Option String × Option ContainerInfo) : Task ℚ :=
  match h.global? with
  | none => do
    let rm_host ← ofPy (bound "rm_host" master.1)
    let rm_container ← ofPy (bound "rm_container" master.2)
    playbook ext (.setup_hadoop_network_on_containers d.new_containers.keys d.app app_files
      app_containers rm_host rm_container.container_name h.hadoop_conf)
    return 0
  | some data => do
    if hasGlobalInput data then changeAppStateInDb ext d.app "hdfs_downloading"
    let rm_host ← ofPy (bound "rm_host" master.1)
    let rm_container ← ofPy (bound "rm_container" master.2)
    let download_time ← timedPlaybook ext (.setup_hadoop_network_with_global_hdfs
      d.new_containers.keys d.app app_files app_containers rm_host rm_container.container_name
      h.hadoop_conf data)
    if hasGlobalInput data then changeAppStateInDb ext d.app "running"
    return download_time

/-- Upload the output to the global HDFS; returns how long it took. -/
def uploadOutput (d : AppDeployment) (h : HadoopStart) (app_containers : Option (List ContainerInfo))
    (rm_host rm_container : String) : Task ℚ :=
  match h.global? with
  | none => return 0
  | some data => do
    changeAppStateInDb ext d.app "hdfs_uploading"
    timedPlaybook ext (.upload_local_hdfs_data_to_global rm_host rm_container data app_containers)

/-- `setup_containers_hadoop_network_task`: the host and the name of the master,
    and the times of the transfers. -/
def setupContainersHadoopNetworkTask (d : AppDeployment) (h : HadoopStart)
    (app_containers : Option (List ContainerInfo)) (app_files : AppFiles) :
    Task (String × String × ℚ × ℚ) := do
  let master ← ofPy (findMaster d.new_containers app_containers)
  let download_time ← setupHadoopNetwork ext d h app_containers app_files master
  let rm_container ← ofPy (bound "rm_container" master.2)
  let rm_host ← ofPy (bound "rm_host" master.1)
  playbook ext (.start_app_on_container rm_host rm_container.container_name d.app app_files
    (diskPath rm_container) h.global_hdfs_data)
  call ext (waitCall rm_host rm_container)
  let upload_time ← uploadOutput ext d h app_containers rm_host rm_container.container_name
  return (rm_host, rm_container.container_name, download_time, upload_time)

/-- `time.sleep(scaler_polling_freq - (end_time - start_time))`. -/
def sleep (seconds : ℚ) : Task Unit :=
  if seconds < 0 then throw .valueError else return ()

/-- Remove the containers from the state database with the services switched off,
    for as long as the scaler polls at least. -/
def removeAndWait (power_budgeting : Bool) (app : String) (containers : Option (List String))
    (scaler_polling_freq : ℚ) : Task (List String) :=
  scalingServicesDisabled ext power_budgeting do
    let start ← get
    let containers ← ofPy (items containers)
    let errors ← removeAllFromAppDb ext app containers
    let w ← get
    sleep (scaler_polling_freq - (ext.default_timer w.history - ext.default_timer start.history))
    return errors

/-- The task that stops a container of a Hadoop application. -/
def stopHadoopContainer (app : String) (app_files : AppFiles) (rm_container : String)
    (timestamp : Option String) (download_time upload_time : ℚ) (c : ContainerInfo) : LaunchedTask :=
  if c.container_name = rm_container then
    .stop_app_on_container_task c.host c.container_name (diskPath c) app app_files rm_container
      timestamp download_time upload_time
  else
    .stop_app_on_container_task c.host c.container_name (diskPath c) app app_files rm_container
      timestamp 0 0

/-- `start_hadoop_app_task`, after the application has finished. -/
def finishHadoopApp (d : AppDeployment) (h : HadoopStart) (app_containers : Option (List ContainerInfo))
    (app_files : AppFiles) (master : String × String × ℚ × ℚ) : Task Unit := do
  let (rm_host, rm_container, download_time, upload_time) := master
  updateTaskRuntime ext h.task_id
  playbook ext (.stop_hadoop_cluster rm_host rm_container)
  let errors ← removeAndWait ext cfg.power_budgeting d.app
    (app_containers.map (·.map (·.container_name))) h.scaler_polling_freq
  let timestamp ← outputTimestamp ext app_files
  let containers ← ofPy (items app_containers)
  containers.forM fun c => launchTask ext
    (stopHadoopContainer d.app app_files rm_container timestamp download_time upload_time c)
  changeAppStateInDb ext d.app "stopped"
  raiseErrors ext errors

/-- `start_hadoop_app_task`, once `wait_for_app_dependency` has returned the plan.
    The network task adds the type to `app_files`. -/
def startHadoopAppTask (d : AppDeployment) (h : HadoopStart) : Task Unit := do
  createAppCounter ext d.app
  changeAppStateInDb ext d.app "running"
  let app_containers ← deployAppContainers ext cfg { d with app_type := some h.app_type }
  let app_files := d.app_files.set "app_type" h.app_type
  let master ← setupContainersHadoopNetworkTask ext d h app_containers app_files
  finishHadoopApp ext cfg d h app_containers app_files master

end Hadoop

end Tasks

open Tasks

variable {ext : External} {cfg : PlatformConfig} {w : World}

/-! ## What the loops do -/

theorem collect_after {f : ContainerInfo → Task Unit} {message : ContainerInfo → PyError → String}
    (I : List ContainerInfo → List Event → World → Prop) :
    ∀ {items done : List ContainerInfo} {es₀ : List Event} {w : World}, I done es₀ w →
      (∀ done c es w, c ∈ items → I done es w → Does World.history (f c)
        (fun _ es' w' => I (done ++ [c]) (es ++ es') w' ∧ ∀ x ∈ es', x.outcome = .done)
        (fun _ es' w' => I (done ++ [c]) (es ++ es') w' ∧ ∃ x ∈ es', x.outcome ≠ .done) w) →
      Does World.history (collect f message items)
        (fun errors es w' => I (done ++ items) (es₀ ++ es) w' ∧
          (errors = [] ↔ ∀ x ∈ es, x.outcome = .done)) (fun _ _ _ => False) w
  | [], done, es₀, w, hI, _ => by
    refine Does.pure ?_
    rw [List.append_nil, List.append_nil]
    exact ⟨hI, by simp⟩
  | c :: items, done, es₀, w, hI, hstep => by
    have hfirst : Does World.history (tryCatch (do f c; return none)
        fun e => (return some (message c e) : Task (Option String)))
        (fun error es w' => I (done ++ [c]) (es₀ ++ es) w' ∧
          (error = none ↔ ∀ x ∈ es, x.outcome = .done)) (fun _ _ _ => False) w := by
      refine Does.catch ((hstep done c es₀ w List.mem_cons_self hI).seq ?_ fun err es w' h => h)
        (fun _ _ _ h => h) ?_
      · rintro _ es w' ⟨hI', hdone⟩
        refine Does.pure ?_
        rw [List.append_nil]
        exact ⟨hI', iff_of_true rfl hdone⟩
      · rintro err es w' ⟨hI', x, hx, hfailed⟩
        refine Does.pure ?_
        rw [List.append_nil]
        exact ⟨hI', iff_of_false (by simp) fun hdone => hfailed (hdone x hx)⟩
    refine hfirst.seq ?_ fun _ _ _ h => h
    rintro error es w₁ ⟨hI', herror⟩
    refine (collect_after I hI' fun done c' es w hc' =>
      hstep done c' es w (List.mem_cons_of_mem c hc')).seq ?_ fun _ _ _ h => h
    rintro errors es' w' ⟨hI'', herrors⟩
    refine Does.pure ?_
    rw [List.append_nil, ← List.append_assoc, show done ++ c :: items = done ++ [c] ++ items by simp]
    refine ⟨hI'', ?_⟩
    rw [List.append_eq_nil_iff, herrors, Option.toList_eq_nil_iff, herror]
    simp only [List.mem_append]
    exact ⟨fun h x hx => hx.elim (h.1 x) (h.2 x), fun h => ⟨fun x hx => h x (.inl hx), fun x hx => h x (.inr hx)⟩⟩

/-- A loop that collects errors goes through all items, and has collected nothing
    if and only if nothing failed. -/
theorem collect_does {f : ContainerInfo → Task Unit} {message : ContainerInfo → PyError → String}
    {containers : List ContainerInfo} (I : List ContainerInfo → List Event → World → Prop)
    (hI : I [] [] w)
    (hstep : ∀ done c es w, c ∈ containers → I done es w → Does World.history (f c)
      (fun _ es' w' => I (done ++ [c]) (es ++ es') w' ∧ ∀ x ∈ es', x.outcome = .done)
      (fun _ es' w' => I (done ++ [c]) (es ++ es') w' ∧ ∃ x ∈ es', x.outcome ≠ .done) w) :
    Does World.history (collect f message containers)
      (fun errors es w' => I containers es w' ∧ (errors = [] ↔ ∀ x ∈ es, x.outcome = .done))
      (fun _ _ _ => False) w :=
  collect_after I hI hstep

/-- A request that removes a container from the state database. -/
def Call.removesFromDb : Call → Bool
  | .db (.container_of_app ..) | .db (.container _) => true
  | _ => false

theorem removeAllFromAppDb_does (app : String) : ∀ (names : List String) {w : World},
    Does World.history (removeAllFromAppDb ext app names)
      (fun errors es w' => w' = w.extend es ∧ es.map Event.call = names.flatMap (removalCalls app) ∧
        (∀ x ∈ es, ∀ err, x.outcome ≠ .raised err) ∧ (errors = [] ↔ ∀ x ∈ es, x.outcome = .done))
      (fun err es w' => w' = w.extend es ∧ (∀ x ∈ es, x.call.removesFromDb) ∧
        (∃ x ∈ es, x.outcome = .raised err) ∧ names ≠ []) w
  | [], w => Does.pure ⟨by simp, rfl, by simp, by simp⟩
  | c :: names, w => by
    refine (removeContainerFromAppDb_does c app).seq ?_ ?_
    · rintro error es w₁ ⟨rfl, o₁, o₂, rfl, herror, h₁, h₂⟩
      refine (removeAllFromAppDb_does app names).seq ?_ ?_
      · rintro errors es' w' ⟨rfl, hcalls, hraised, herrors⟩
        refine Does.pure ?_
        rw [List.append_nil, World.extend_extend]
        refine ⟨rfl, by simp [hcalls, removalCalls], ?_, ?_⟩
        · simp only [List.mem_append, List.mem_pair]
          rintro x ((rfl | rfl) | hx)
          · exact h₁
          · exact h₂
          · exact hraised x hx
        · by_cases hempty : error = ""
          · obtain ⟨rfl, rfl⟩ := herror.1 hempty
            simpa [if_pos hempty] using herrors
          · rw [if_neg hempty]
            refine iff_of_false (by simp) fun hdone => hempty (herror.2 ⟨?_, ?_⟩)
            · exact hdone _ List.mem_cons_self
            · exact hdone _ (List.mem_cons_of_mem _ List.mem_cons_self)
      · rintro err es' w' ⟨rfl, hcalls, ⟨x, hx, hraised⟩, -⟩
        refine ⟨World.extend_extend _ _ _, ?_, ⟨x, by simp [hx], hraised⟩, by simp⟩
        simp only [List.mem_append, List.mem_pair]
        rintro y ((rfl | rfl) | hy)
        · rfl
        · rfl
        · exact hcalls y hy
    · rintro err es w' ⟨rfl, rfl | ⟨o, rfl⟩⟩
      · exact ⟨rfl, by simp [Call.removesFromDb], by simp, by simp⟩
      · exact ⟨rfl, by simp [Call.removesFromDb], by simp, by simp⟩

theorem outputTimestamp_does (app_files : AppFiles) :
    Does World.history (outputTimestamp ext app_files) (fun _ es w' => es = [] ∧ w' = w)
      (fun _ _ _ => False) w :=
  ⟨[], (List.append_nil _).symm, rfl, rfl⟩

/-- `raiseErrors` raises if something was collected. -/
theorem raiseErrors_does (errors : List String) :
    Does World.history (raiseErrors ext errors) (fun _ es w' => es = [] ∧ w' = w ∧ errors = [])
      (fun _ es w' => es = [] ∧ w' = w ∧ errors ≠ []) w := by
  unfold raiseErrors
  split_ifs with h
  · exact Does.pure ⟨rfl, rfl, h⟩
  · exact Does.throw ⟨rfl, rfl, h⟩

/-! ## Removing the containers of an application -/

/-- Stop the application in a container, at the end of a run. -/
def endAppCall (app : String) (app_files : AppFiles) (timestamp : Option String)
    (c : ContainerInfo) : Call :=
  .playbook (.stop_app_on_container c.host c.container_name app app_files "" (diskPath c) timestamp 0 0)

/-- How `remove_containers_from_app` raises. -/
inductive RemovalRaises (power_budgeting : Bool) (app : String) (app_files : AppFiles)
    (containers : List ContainerInfo) (w : World) : List Event → World → Prop
  | switchFailed {es w'}
      (hfailed : ∃ x ∈ es, (∃ service enable, x.call = .script service enable) ∧ x.outcome ≠ .done) :
      RemovalRaises power_budgeting app app_files containers w es w'
  | notStopped {o w'} (ho : o ≠ .done) (hstate : w'.app_state = w.app_state) :
      RemovalRaises power_budgeting app app_files containers w
        (switched power_budgeting false ++ ([⟨.db (.app_state app "stopped"), o⟩] ++
          switched power_budgeting true)) w'
  | notRemoved {deletes w'} (hcalls : ∀ x ∈ deletes, x.call.removesFromDb)
      (hraised : ∃ x ∈ deletes, ∃ err, x.outcome = .raised err) (hne : containers ≠ [])
      (hinv : w'.inventory = w.inventory) :
      RemovalRaises power_budgeting app app_files containers w
        (switched power_budgeting false ++ ((⟨.db (.app_state app "stopped"), .done⟩ :: deletes) ++
          switched power_budgeting true)) w'
  | collected {deletes stopApps stops timestamp w'}
      (hdeletes : ∀ x ∈ deletes, x.call.removesFromDb ∧ ∀ err, x.outcome ≠ .raised err)
      (hstopApps : stopApps.map Event.call = containers.map (endAppCall app app_files timestamp))
      (hstops : stops.map Event.call = containers.flatMap (stopCalls fun c => some (diskPath c)))
      (hfollows : (∀ c ∈ containers, c.host ≠ "") → Follows w stops w')
      (hstate : w'.app_state app = some "stopped")
      (hactive : ∀ service ∈ scalingServices power_budgeting, w'.active service = true) :
      RemovalRaises power_budgeting app app_files containers w
        (switched power_budgeting false ++ ((⟨.db (.app_state app "stopped"), .done⟩ :: deletes) ++
          switched power_budgeting true) ++ (stopApps ++ stops)) w'

theorem mem_removalCalls {app : String} {names : List String} {es : List Event} {x : Event}
    (h : es.map Event.call = names.flatMap (removalCalls app)) (hx : x ∈ es) : x.call.removesFromDb := by
  obtain ⟨c, -, hcall⟩ := List.mem_flatMap.1 (Event.call_mem h hx)
  rcases List.mem_pair.1 hcall with hcall | hcall <;> rw [hcall] <;> rfl

theorem collectStopApps_does {app : String} {app_files : AppFiles} {timestamp : Option String}
    {message : ContainerInfo → PyError → String} (containers : List ContainerInfo) :
    Does World.history
      (collect (fun c => call ext (endAppCall app app_files timestamp c)) message containers)
      (fun errors es w' => (w' = w.extend es ∧
          es.map Event.call = containers.map (endAppCall app app_files timestamp)) ∧
        (errors = [] ↔ ∀ x ∈ es, x.outcome = .done)) (fun _ _ _ => False) w := by
  refine collect_does (fun done es w' => w' = w.extend es ∧
    es.map Event.call = done.map (endAppCall app app_files timestamp)) ⟨(World.extend_nil w).symm, rfl⟩ ?_
  rintro done c es w₁ - ⟨rfl, hes⟩
  refine (call_does _).mono ?_ ?_
  · rintro _ es' w' ⟨rfl, rfl, -⟩
    exact ⟨⟨World.extend_extend _ _ _, by simp [hes]⟩, by simp⟩
  · rintro err es' w' ⟨rfl, rfl, -⟩
    exact ⟨⟨World.extend_extend _ _ _, by simp [hes]⟩, by simp⟩

theorem collectStops_does {message : ContainerInfo → PyError → String}
    (bind_path : ContainerInfo → Option String) (containers : List ContainerInfo) :
    Does World.history
      (collect (fun c => stopContainer ext c.host c.container_name (bind_path c) true) message containers)
      (fun errors es w' => StopsAll bind_path w containers es w' ∧
        (errors = [] ↔ ∀ x ∈ es, x.outcome = .done)) (fun _ _ _ => False) w := by
  refine collect_does (fun done es w' => StopsAll bind_path w done es w') (StopsAll.nil bind_path w) ?_
  rintro done c es w₁ - h
  refine (stopContainer_does c.host c.container_name (bind_path c) true).mono ?_ ?_
  · rintro _ es' w' hc
    refine ⟨h.step hc, fun x hx => ?_⟩
    rw [hc.events] at hx
    rcases List.mem_pair.1 hx with rfl | rfl <;> rfl
  · rintro err es' w' ⟨stop, remove, hfailed, hc⟩
    refine ⟨h.step hc, ?_⟩
    by_contra hall
    push Not at hall
    rw [hc.events] at hall
    exact hfailed ⟨hall _ List.mem_cons_self, hall _ (List.mem_cons_of_mem _ List.mem_cons_self)⟩

/-- **How the removal of the containers ends.** -/
theorem removeContainersFromApp_does (power_budgeting : Bool) (app : String) (app_files : AppFiles)
    (containers : List ContainerInfo) :
    Does World.history (removeContainersFromApp ext power_budgeting (some containers) app app_files)
      (fun _ es _ => ∀ x ∈ es, x.outcome = .done)
      (fun _ => RemovalRaises power_budgeting app app_files containers w) w := by
  unfold removeContainersFromApp
  -- the block with disabled services
  have hbody : Does World.history
      (do
        changeAppStateInDb ext app "stopped"
        let containers ← ofPy (items (some containers))
        let errors ← removeAllFromAppDb ext app (containers.map (·.container_name))
        return (containers, errors))
      (fun a es w' => a.1 = containers ∧ ∃ deletes, es = ⟨.db (.app_state app "stopped"), .done⟩ :: deletes ∧
        w' = { (switchWorld w power_budgeting false).extend es with
          app_state := Function.update w.app_state app (some "stopped") } ∧
        (∀ x ∈ deletes, x.call.removesFromDb ∧ ∀ err, x.outcome ≠ .raised err) ∧
        (a.2 = [] ↔ ∀ x ∈ deletes, x.outcome = .done))
      (fun _ es w' => (∃ o, o ≠ .done ∧ es = [⟨.db (.app_state app "stopped"), o⟩] ∧
          w'.app_state = w.app_state) ∨
        ∃ deletes, es = ⟨.db (.app_state app "stopped"), .done⟩ :: deletes ∧
          (∀ x ∈ deletes, x.call.removesFromDb) ∧ (∃ x ∈ deletes, ∃ err, x.outcome = .raised err) ∧
          containers ≠ [] ∧ w'.inventory = w.inventory) (switchWorld w power_budgeting false) := by
    refine (changeAppStateInDb_does app "stopped").seq ?_ ?_
    · rintro _ es w₁ ⟨rfl, rfl⟩
      simp only [items, ofPy, pure_bind]
      refine (removeAllFromAppDb_does app _).seq ?_ ?_
      · rintro errors deletes w₂ ⟨rfl, hcalls, hraised, herrors⟩
        refine Does.pure ⟨rfl, deletes, by simp, by simp [World.extend, switchWorld], fun x hx => ?_, herrors⟩
        exact ⟨mem_removalCalls hcalls hx, hraised x hx⟩
      · rintro err deletes w₂ ⟨rfl, hcalls, ⟨x, hx, hraised⟩, hne⟩
        refine .inr ⟨deletes, by simp, hcalls, ⟨x, hx, err, hraised⟩, ?_, rfl⟩
        rintro rfl
        exact hne rfl
    · rintro err es w₁ ⟨⟨o, ho, rfl⟩, rfl⟩
      exact .inl ⟨o, ho, rfl, rfl⟩
  refine (scalingServicesDisabled_does hbody).seq ?_ ?_
  · rintro ⟨containers', errors⟩ es w₁ ⟨es₁, w₂, ⟨rfl, deletes, rfl, rfl, hdeletes, herrors⟩, rfl, rfl⟩
    refine (outputTimestamp_does app_files).seq ?_ fun _ _ _ h => h.elim
    rintro timestamp es w₃ ⟨rfl, rfl⟩
    refine (collectStopApps_does _).seq ?_ fun _ _ _ h => h.elim
    rintro app_errors stopApps w₄ ⟨⟨rfl, hstopApps⟩, happ⟩
    refine (collectStops_does (fun c => some (diskPath c)) _).seq ?_ fun _ _ _ h => h.elim
    rintro stop_errors stops w₅ ⟨hstops, hstop⟩
    refine (raiseErrors_does _).mono ?_ ?_
    · rintro _ es w' ⟨rfl, rfl, hnil⟩
      simp only [List.append_eq_nil_iff] at hnil
      have hdeleted := herrors.1 hnil.1.1
      have hended := happ.1 hnil.1.2
      have hstopped := hstop.1 hnil.2
      simp only [List.append_nil, List.nil_append, List.mem_append, List.mem_cons]
      rintro x ((hx | (rfl | hx) | hx) | hx | hx)
      · obtain ⟨service, rfl⟩ := switched_script hx
        rfl
      · rfl
      · exact hdeleted x hx
      · obtain ⟨service, rfl⟩ := switched_script hx
        rfl
      · exact hended x hx
      · exact hstopped x hx
    · rintro err es w' ⟨rfl, rfl, -⟩
      rw [List.append_nil, List.nil_append]
      refine .collected hdeletes hstopApps hstops.calls hstops.follows ?_ ?_
      · rw [hstops.world]
        exact Function.update_self _ _ _
      · intro service hservice
        rw [hstops.world]
        exact if_pos hservice
  · rintro err es w' (⟨⟨hscripts, x, hx, hrefused⟩, -⟩ | ⟨es₁, w₂, hraised, rfl, rfl⟩ |
      ⟨es₁, w₂, on, -, ⟨hscripts, x, hx, hrefused⟩, -, rfl⟩)
    · obtain ⟨service, hcall⟩ := hscripts x hx
      exact .switchFailed ⟨x, hx, ⟨service, false, hcall⟩, by simp [hrefused]⟩
    · rcases hraised with ⟨o, ho, rfl, hstate⟩ | ⟨deletes, rfl, hcalls, hraised, hne, hinv⟩
      · exact .notStopped ho hstate
      · exact .notRemoved hcalls hraised hne hinv
    · obtain ⟨service, hcall⟩ := hscripts x hx
      exact .switchFailed ⟨x, by simp [hx], ⟨service, true, hcall⟩, by simp [hrefused]⟩

/-! ## How an ordinary application ends -/

/-- A call that connects the containers of an application or starts it in them. -/
def Call.startsApp : Call → Bool
  | .playbook (.setup_network_on_containers ..) | .playbook (.start_app_on_container ..) => true
  | _ => false

/-- A call between the start of an application and the removal of its containers. -/
def Call.awaitsApp : Call → Bool
  | .playbook (.wait_for_app_on_container ..) | .hset .. => true
  | _ => false

/-- The request for the state `running` was accepted. -/
def World.running (w : World) (app : String) : World :=
  { w.extend [⟨.db (.app_state app "running"), .done⟩] with
    app_state := Function.update w.app_state app (some "running") }

/-- How `start_app_task` raises. -/
inductive StartRaises (ext : External) (cfg : PlatformConfig) (d : AppDeployment) (w : World) :
    List Event → World → Prop
  | notRunning {o w'} (ho : o ≠ .done) :
      StartRaises ext cfg d w [⟨.db (.app_state d.app "running"), o⟩] w'
  | notDeployed {err deploy w₁ stopApps stops forgets o scripts w'}
      (hdeploy : DeployRaises ext cfg d (w.running d.app) err deploy w₁)
      (hrollback : RollsBack cfg.power_budgeting d.app d.app_files [] w₁ stopApps stops forgets o
        scripts w') :
      StartRaises ext cfg d w (⟨.db (.app_state d.app "running"), .done⟩ ::
        (deploy ++ rollbackEvents d.app stopApps stops forgets o scripts)) w'
  | notStarted {infos deploy w₁ start stopApps stops forgets o scripts w'}
      (hdeploy : DeployReturns cfg d (w.running d.app) infos deploy w₁)
      (hcalls : ∀ x ∈ start, x.call.startsApp)
      (hfailed : infos = none ∨ ∃ x ∈ start, x.outcome ≠ .done)
      (hrollback : RollsBack cfg.power_budgeting d.app d.app_files (infos.getD []) (w₁.extend start)
        stopApps stops forgets o scripts w') :
      StartRaises ext cfg d w (⟨.db (.app_state d.app "running"), .done⟩ ::
        (deploy ++ (start ++ rollbackEvents d.app stopApps stops forgets o scripts))) w'
  | notAwaited {containers deploy w₁ start waits}
      (hdeploy : DeployReturns cfg d (w.running d.app) (some containers) deploy w₁)
      (hdone : ∀ x ∈ start, x.outcome = .done) (hcalls : ∀ x ∈ waits, x.call.awaitsApp) :
      StartRaises ext cfg d w (⟨.db (.app_state d.app "running"), .done⟩ ::
        (deploy ++ (start ++ waits))) (w₁.extend (start ++ waits))
  | notRemoved {containers deploy w₁ start removal w'}
      (hdeploy : DeployReturns cfg d (w.running d.app) (some containers) deploy w₁)
      (hdone : ∀ x ∈ start, x.outcome = .done)
      (hremoval : RemovalRaises cfg.power_budgeting d.app d.app_files containers (w₁.extend start)
        removal w') :
      StartRaises ext cfg d w (⟨.db (.app_state d.app "running"), .done⟩ ::
        (deploy ++ (start ++ removal))) w'

/-- Connecting the containers and starting the application in them. -/
theorem startApp_does (d : AppDeployment) (app_containers : Option (List ContainerInfo)) :
    Does World.history
      (do
        setupContainersNetworkTask ext d.app app_containers d.new_containers
        startAppOnContainers ext d.app app_containers d.app_files)
      (fun _ es w' => w' = w.extend es ∧ (∀ x ∈ es, x.outcome = .done) ∧ app_containers.isSome)
      (fun _ es w' => w' = w.extend es ∧ (∀ x ∈ es, x.call.startsApp) ∧
        (app_containers = none ∨ ∃ x ∈ es, x.outcome ≠ .done)) w := by
  refine (call_does _).seq ?_ ?_
  · rintro _ es w₁ ⟨rfl, rfl, -⟩
    rcases app_containers with _ | containers
    · exact Does.throw ⟨by simp, by simp [Call.startsApp], .inl rfl⟩
    · unfold startAppOnContainers
      simp only [items, ofPy, pure_bind]
      rw [← Function.comp_def, ← List.map_map]
      refine (group_does _).mono ?_ ?_
      · rintro _ es w' ⟨rfl, rfl⟩
        exact ⟨World.extend_extend _ _ _, by simp, rfl⟩
      · rintro err es w' ⟨rfl, hcalls, x, hx, hraised⟩
        refine ⟨World.extend_extend _ _ _, fun x hx => ?_, .inr ⟨x, by simp [hx], by simp [hraised]⟩⟩
        rcases List.mem_append.1 hx with hx | hx
        · rw [List.mem_singleton.1 hx]
          rfl
        · obtain ⟨c, -, hc⟩ := List.mem_map.1 (Event.call_mem hcalls hx)
          rw [← hc]
          rfl
  · rintro err es w' ⟨rfl, rfl, -⟩
    exact ⟨rfl, by simp [Call.startsApp], .inr ⟨_, List.mem_singleton.2 rfl, by simp⟩⟩

/-- Waiting for the application in all containers. -/
theorem awaitApp_does (task_id : String) (containers : List ContainerInfo) :
    Does World.history
      (do
        waitForAppOnContainers ext (some containers)
        updateTaskRuntime ext task_id)
      (fun _ es w' => w' = w.extend es ∧ ∀ x ∈ es, x.outcome = .done)
      (fun _ es w' => w' = w.extend es ∧ ∀ x ∈ es, x.call.awaitsApp) w := by
  unfold waitForAppOnContainers
  simp only [items, ofPy, pure_bind]
  rw [← Function.comp_def, ← List.map_map]
  have hwaits : ∀ {es : List Event}, es.map Event.call = containers.map (fun c => waitCall c.host c) →
      ∀ x ∈ es, x.call.awaitsApp := by
    intro es hcalls x hx
    obtain ⟨c, -, hc⟩ := List.mem_map.1 (Event.call_mem hcalls hx)
    rw [← hc]
    rfl
  refine (group_does _).seq ?_ ?_
  · rintro _ es w₁ ⟨rfl, rfl⟩
    refine (call_does _).mono ?_ ?_
    · rintro _ es' w' ⟨rfl, rfl, -⟩
      refine ⟨World.extend_extend _ _ _, fun x hx => ?_⟩
      rcases List.mem_append.1 hx with hx | hx
      · obtain ⟨call, -, rfl⟩ := List.mem_map.1 hx
        rfl
      · rw [List.mem_singleton.1 hx]
    · rintro err es' w' ⟨rfl, rfl, -⟩
      refine ⟨World.extend_extend _ _ _, fun x hx => ?_⟩
      rcases List.mem_append.1 hx with hx | hx
      · exact hwaits (by simp) x hx
      · rw [List.mem_singleton.1 hx]
        rfl
  · rintro err es w' ⟨rfl, hcalls, -⟩
    exact ⟨rfl, hwaits hcalls⟩

/-- **How `start_app_task` ends, without callbacks.** -/
theorem startAppTask_does (task_id : String) (d : AppDeployment) :
    Does World.history (startAppTask ext cfg false task_id d)
      (fun _ es _ => ∀ x ∈ es, x.outcome = .done)
      (fun _ => StartRaises ext cfg d w) w := by
  have hroll : ∀ {R : PyError → List Event → World → Prop} {α : Type} {e : PyError}
      {Q : α → List Event → World → Prop} (app_containers : Option (List ContainerInfo)) (w₁ : World),
      (∀ stopApps stops forgets o scripts w', RollsBack cfg.power_budgeting d.app d.app_files
        (app_containers.getD []) w₁ stopApps stops forgets o scripts w' →
        R e (rollbackEvents d.app stopApps stops forgets o scripts) w') →
      Does World.history
        (do
          rollbackStartFlow ext cfg.power_budgeting d.app app_containers d.app_files
          (throw e : Task α)) Q R w₁ := by
    intro R α e Q app_containers w₁ h
    refine (rollbackStartFlow_does app_containers).seq ?_ fun _ _ _ h => h.elim
    rintro _ es w₂ ⟨stopApps, stops, forgets, o, scripts, rfl, hrollback⟩
    refine Does.throw ?_
    rw [List.append_nil]
    exact h _ _ _ _ _ _ hrollback
  unfold startAppTask
  simp only [Bool.false_eq_true, if_false]
  refine (changeAppStateInDb_does d.app "running").seq ?_ ?_
  swap
  · rintro err es w' ⟨⟨o, ho, rfl⟩, rfl⟩
    exact .notRunning ho
  rintro _ es w₀ ⟨rfl, rfl⟩
  -- the deployment, under the `try`
  refine Does.seq (R := fun _ es w' => StartRaises ext cfg d w
      (⟨.db (.app_state d.app "running"), .done⟩ :: es) w')
    ((deployAppContainers_does d (w.running d.app)).catch (fun _ _ _ h => h) ?_) ?_ fun _ _ _ h => h
  · intro err deploy w₁ hdeploy
    refine hroll none w₁ fun stopApps stops forgets o scripts w' hrollback => ?_
    exact .notDeployed hdeploy hrollback
  intro infos deploy w₁ hdeploy
  refine Does.seq (R := fun _ es w' => StartRaises ext cfg d w
      (⟨.db (.app_state d.app "running"), .done⟩ :: (deploy ++ es)) w')
    ((startApp_does d infos).catch (fun _ _ _ h => h) ?_) ?_ fun _ _ _ h => h
  · rintro err start w₂ ⟨rfl, hcalls, hfailed⟩
    refine hroll infos _ fun stopApps stops forgets o scripts w' hrollback => ?_
    exact .notStarted hdeploy hcalls hfailed hrollback
  rintro _ start w₂ ⟨rfl, hstart, hsome⟩
  obtain ⟨containers, rfl⟩ := Option.isSome_iff_exists.1 hsome
  -- no handler covers what follows
  rw [← bind_assoc]
  refine (awaitApp_does task_id containers).seq ?_ ?_
  · rintro _ waits w₃ ⟨rfl, hwaits⟩
    have hdone : ∀ x ∈ start ++ waits, x.outcome = .done := fun x hx =>
      (List.mem_append.1 hx).elim (hstart x) (hwaits x)
    rw [World.extend_extend]
    refine (removeContainersFromApp_does cfg.power_budgeting d.app d.app_files containers).mono ?_ ?_
    · intro _ removal w' hremoved
      simp only [List.mem_append, List.mem_singleton]
      rintro x (rfl | hx | hx | hx | hx)
      · rfl
      · exact hdeploy.done x hx
      · exact hstart x hx
      · exact hwaits x hx
      · exact hremoved x hx
    · intro err removal w' hremoval
      have hraises : StartRaises ext cfg d w _ w' := .notRemoved hdeploy hdone hremoval
      rw [List.append_assoc] at hraises
      exact hraises
  · rintro err waits w' ⟨rfl, hcalls⟩
    rw [World.extend_extend]
    exact .notAwaited hdeploy hstart hcalls

/-! ## How a Hadoop application ends -/

/-- How long the removal of the containers takes, after the calls `h`. -/
def elapsed (ext : External) (h deletes : List Event) : ℚ :=
  ext.default_timer (h ++ deletes) - ext.default_timer h

/-- How the removal from the database, and the wait after it, raises. -/
inductive WaitRaises (ext : External) (power_budgeting : Bool) (app : String)
    (names : Option (List String)) (scaler_polling_freq : ℚ) (w : World) : List Event → Prop
  | failed {es} (hcalls : ∀ x ∈ es, (∃ service enable, x.call = .script service enable) ∨ x.call.removesFromDb)
      (hfailed : ∃ x ∈ es, x.outcome ≠ .done) :
      WaitRaises ext power_budgeting app names scaler_polling_freq w es
  | noContainers (hnames : names = none) :
      WaitRaises ext power_budgeting app names scaler_polling_freq w
        (switched power_budgeting false ++ switched power_budgeting true)
  | late {l deletes} (hnames : names = some l)
      (hcalls : deletes.map Event.call = l.flatMap (removalCalls app))
      (hlate : scaler_polling_freq < elapsed ext (w.history ++ switched power_budgeting false) deletes) :
      WaitRaises ext power_budgeting app names scaler_polling_freq w
        (switched power_budgeting false ++ (deletes ++ switched power_budgeting true))

theorem sleep_does (seconds : ℚ) : Does World.history (sleep seconds)
    (fun _ es w' => es = [] ∧ w' = w ∧ 0 ≤ seconds) (fun _ es w' => es = [] ∧ w' = w ∧ seconds < 0) w := by
  unfold sleep
  split_ifs with h
  · exact Does.throw ⟨rfl, rfl, h⟩
  · exact Does.pure ⟨rfl, rfl, not_lt.1 h⟩

/-- **The wait after the removal raises if the removal took too long.** -/
theorem removeAndWait_does (power_budgeting : Bool) (app : String) (names : Option (List String))
    (scaler_polling_freq : ℚ) :
    Does World.history (removeAndWait ext power_budgeting app names scaler_polling_freq)
      (fun errors es w' => ∃ l deletes, names = some l ∧
        es = switched power_budgeting false ++ (deletes ++ switched power_budgeting true) ∧
        deletes.map Event.call = l.flatMap (removalCalls app) ∧
        (∀ x ∈ deletes, ∀ err, x.outcome ≠ .raised err) ∧ (errors = [] ↔ ∀ x ∈ deletes, x.outcome = .done) ∧
        w' = switchWorld ((switchWorld w power_budgeting false).extend deletes) power_budgeting true ∧
        elapsed ext (w.history ++ switched power_budgeting false) deletes ≤ scaler_polling_freq)
      (fun _ es w' => w'.app_state = w.app_state ∧
        WaitRaises ext power_budgeting app names scaler_polling_freq w es) w := by
  unfold removeAndWait
  have hbody : Does World.history
      (do
        let start ← get
        let containers ← ofPy (items names)
        let errors ← removeAllFromAppDb ext app containers
        let w ← get
        sleep (scaler_polling_freq - (ext.default_timer w.history - ext.default_timer start.history))
        return errors)
      (fun errors es w' => ∃ l, names = some l ∧ w' = (switchWorld w power_budgeting false).extend es ∧
        es.map Event.call = l.flatMap (removalCalls app) ∧
        (∀ x ∈ es, ∀ err, x.outcome ≠ .raised err) ∧ (errors = [] ↔ ∀ x ∈ es, x.outcome = .done) ∧
        elapsed ext (w.history ++ switched power_budgeting false) es ≤ scaler_polling_freq)
      (fun _ es w' => w'.app_state = w.app_state ∧
        ((names = none ∧ es = []) ∨
          ((∀ x ∈ es, x.call.removesFromDb) ∧ ∃ x ∈ es, x.outcome ≠ .done) ∨
          ∃ l, names = some l ∧ es.map Event.call = l.flatMap (removalCalls app) ∧
            scaler_polling_freq < elapsed ext (w.history ++ switched power_budgeting false) es))
      (switchWorld w power_budgeting false) := by
    refine Does.seq (Q := fun a es w' => es = [] ∧ a = switchWorld w power_budgeting false ∧
      w' = switchWorld w power_budgeting false) ⟨[], (List.append_nil _).symm, rfl, rfl, rfl⟩ ?_
      fun _ _ _ h => h
    rintro start es w₁ ⟨rfl, rfl, rfl⟩
    rcases names with _ | l
    · exact Does.throw ⟨rfl, .inl ⟨rfl, rfl⟩⟩
    simp only [items, ofPy, pure_bind]
    refine (removeAllFromAppDb_does app l).seq ?_ ?_
    · rintro errors deletes w₂ ⟨rfl, hcalls, hraised, herrors⟩
      refine Does.seq (Q := fun a es w' => es = [] ∧
        a = (switchWorld w power_budgeting false).extend deletes ∧
        w' = (switchWorld w power_budgeting false).extend deletes)
        ⟨[], (List.append_nil _).symm, rfl, rfl, rfl⟩ ?_ fun _ _ _ h => h
      rintro w₃ es w₄ ⟨rfl, rfl, rfl⟩
      refine (sleep_does _).seq ?_ ?_
      · rintro _ es w₅ ⟨rfl, rfl, htime⟩
        refine Does.pure ?_
        rw [List.append_nil, List.append_nil, List.append_nil]
        exact ⟨l, rfl, rfl, hcalls, hraised, herrors, sub_nonneg.1 htime⟩
      · rintro err es w₅ ⟨rfl, rfl, htime⟩
        rw [List.append_nil, List.append_nil]
        exact ⟨rfl, .inr (.inr ⟨l, rfl, hcalls, sub_neg.1 htime⟩)⟩
    · rintro err deletes w₂ ⟨rfl, hcalls, ⟨x, hx, hraised⟩, -⟩
      exact ⟨rfl, .inr (.inl ⟨hcalls, x, hx, by simp [hraised]⟩)⟩
  refine (scalingServicesDisabled_does hbody).mono ?_ ?_
  · rintro errors es w' ⟨deletes, w₁, ⟨l, hnames, rfl, hcalls, hraised, herrors, htime⟩, rfl, rfl⟩
    exact ⟨l, deletes, hnames, rfl, hcalls, hraised, herrors, rfl, htime⟩
  · have hscript : ∀ {enable : Bool}, ∀ x ∈ switched power_budgeting enable,
        ∃ service enable, x.call = .script service enable := by
      intro enable x hx
      obtain ⟨service, rfl⟩ := switched_script hx
      exact ⟨service, enable, rfl⟩
    rintro err es w' (⟨⟨hscripts, x, hx, hrefused⟩, hw'⟩ | ⟨deletes, w₁, ⟨hstate, hraised⟩, rfl, rfl⟩ |
      ⟨deletes, w₁, on, hended, ⟨hscripts, x, hx, hrefused⟩, hw', rfl⟩)
    · refine ⟨by rw [hw']; rfl, .failed (fun y hy => ?_) ⟨x, hx, by simp [hrefused]⟩⟩
      obtain ⟨service, hcall⟩ := hscripts y hy
      exact .inl ⟨service, false, hcall⟩
    · refine ⟨hstate, ?_⟩
      rcases hraised with ⟨hnames, rfl⟩ | ⟨hcalls, x, hx, hfailed⟩ | ⟨l, hnames, hcalls, hlate⟩
      · exact .noContainers hnames
      · refine .failed (fun y hy => ?_) ⟨x, by simp [hx], hfailed⟩
        simp only [List.mem_append] at hy
        rcases hy with hy | hy | hy
        · exact .inl (hscript y hy)
        · exact .inr (hcalls y hy)
        · exact .inl (hscript y hy)
      · exact .late hnames hcalls hlate
    · have hdeletes : w₁.app_state = w.app_state ∧ ∀ y ∈ deletes, y.call.removesFromDb := by
        rcases hended with ⟨errors, l, -, rfl, hcalls, -⟩ |
          ⟨e, hstate, ⟨-, rfl⟩ | ⟨hcalls, -⟩ | ⟨l, -, hcalls, -⟩⟩
        · exact ⟨rfl, fun y hy => mem_removalCalls hcalls hy⟩
        · exact ⟨hstate, by simp⟩
        · exact ⟨hstate, hcalls⟩
        · exact ⟨hstate, fun y hy => mem_removalCalls hcalls hy⟩
      refine ⟨by rw [hw', ← hdeletes.1]; rfl, .failed (fun y hy => ?_) ⟨x, by simp [hx], by simp [hrefused]⟩⟩
      simp only [List.mem_append] at hy
      rcases hy with hy | hy | hy
      · exact .inl (hscript y hy)
      · exact .inr (hdeletes.2 y hy)
      · obtain ⟨service, hcall⟩ := hscripts y hy
        exact .inl ⟨service, true, hcall⟩

end ServerlessYarn
