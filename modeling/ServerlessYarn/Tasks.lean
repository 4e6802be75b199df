/-
  ServerlessYARN model — the external calls of the background tasks
  (`ui/background_tasks.py`, with `web_request` of `serverlessyarn_utils`).

  A task runs playbooks, asks the state database, switches the scaling services
  with scripts, and writes the inventory.  Whether a call succeeds is decided by
  an environment that sees all calls made before; what a call did to the
  inventory, the state database and the services stays when a later one raises.

  * `webRequest_does`, `stopContainer_does`, …: what each helper adds to the
    history and what it changes.
-/
import ServerlessYarn.Deploy
import ServerlessYarn.Lib.Fallible
import ServerlessYarn.Integers
import ServerlessYarn.ScalingServices

namespace ServerlessYarn

open Fallible Inventory

/-! ## Calls -/

/-- `app_files`. -/
abbrev AppFiles := Dict String String

/-- The resources of a Hadoop cluster, by name. -/
abbrev HadoopResources := Dict String String

/-- A function of `run_playbooks.py`, with its arguments. -/
inductive Playbook where
  | start_containers_with_app (host_names : List String) (containers_info : List ContainerInfo)
      (app_name : String) (app_type : Option String) (app_files : AppFiles)
  | setup_network_on_containers (host_names : List String)
      (containers_info : Option (List ContainerInfo)) (app_name : String)
  | start_app_on_container (host_name container app_name : String) (app_files : AppFiles)
      (bind_path : String) (global_hdfs_data : Option AppFiles)
  | wait_for_app_on_container (host_name container : String)
  | stop_app_on_container (host_name container app_name : String) (app_files : AppFiles)
      (rm_container : String) (bind_path : String) (timestamp : Option String)
      (download_time upload_time : ℚ)
  | stop_container (host_name container : String) (bind_path : Option String)
      (clean_bind_dir : Bool)
  | setup_hadoop_network_on_containers (host_names : List String) (app_name : String)
      (app_files : AppFiles) (containers_info : Option (List ContainerInfo))
      (rm_host rm_container : String) (hadoop_conf : HadoopResources)
  | setup_hadoop_network_with_global_hdfs (host_names : List String) (app_name : String)
      (app_files : AppFiles) (containers_info : Option (List ContainerInfo))
      (rm_host rm_container : String) (hadoop_conf : HadoopResources) (global_hdfs_data : AppFiles)
  | upload_local_hdfs_data_to_global (rm_host rm_container : String) (global_hdfs_data : AppFiles)
      (containers_info : Option (List ContainerInfo))
  | stop_hadoop_cluster (rm_host rm_container : String)
  | clean_hdfs (host_name container : String)
deriving DecidableEq

/-- A request to the state database. -/
inductive DbRequest where
  /-- `put {url}{app}/state/{state}` -/
  | app_state (app state : String)
  /-- `delete {url}container/{container}/{app}` -/
  | container_of_app (container app : String)
  /-- `delete {url}container/{container}` -/
  | container (container : String)
  /-- `delete {url}apps/{app}` -/
  | app (app : String)
deriving DecidableEq

/-- A task started with `.delay`. -/
inductive LaunchedTask where
  | stop_app_on_container_task (host container_name bind_path app : String) (app_files : AppFiles)
      (rm_container : String) (timestamp : Option String) (download_time upload_time : ℚ)
  | stop_container (host container_name bind_path : String) (clean_bind_dir : Bool)
deriving DecidableEq

/-- An external call. -/
inductive Call where
  | playbook (p : Playbook)
  | db (r : DbRequest)
  | script (service : ScalingService) (enable : Bool)
  /-- `add_containers_to_hosts({host: number})`, under the lock -/
  | addToInventory (host : String) (number : ℕ)
  /-- `remove_container_from_host(container, host)`, under the lock -/
  | removeFromInventory (host container : String)
  /-- `redis_server.hset(key, field, …)` -/
  | hset (key field : String)
  | launch (t : LaunchedTask)
deriving DecidableEq

/-- How a call ended; the database may also answer with an error. -/
inductive Outcome where
  | done
  | refused
  | raised (err : PyError)
deriving DecidableEq

structure Event where
  call : Call
  outcome : Outcome
deriving DecidableEq

/-- The call of an event is one of those made. -/
theorem Event.call_mem {es : List Event} {calls : List Call} (h : es.map Event.call = calls) {x : Event}
    (hx : x ∈ es) : x.call ∈ calls := by
  rw [← h]
  exact List.mem_map_of_mem hx

/-- An answer of the state database, with the text of the page. -/
structure Response where
  status_code : ℕ
  text : String

/-- `response.ok`. -/
def Response.ok (r : Response) : Bool := r.status_code < 400

/-- How a script of a scaling service ended.  One that reports a failure may have
    left the service either way. -/
inductive ScriptResult where
  | succeeded
  | failed (err : String) (active : Bool)
deriving DecidableEq

/-- What decides the outcome of the next call, after the calls made so far. -/
structure External where
  raises : List Event → Call → Option PyError
  response : List Event → DbRequest → Response
  script : List Event → ScalingService → Bool → ScriptResult
  /-- `timeit.default_timer()`. -/
  default_timer : List Event → ℚ
  /-- `str(e)`. -/
  str : PyError → String
  /-- `str(errors)`. -/
  strList : List String → String
  /-- `time.strftime("%Y-%m-%d--%H-%M-%S")`. -/
  strftime : List Event → String
  /-- The seconds that a playbook reports for its transfers. -/
  transfer_time : List Event → Playbook → ℚ
  /-- The id that Celery gives to the next task. -/
  task_id : List Event → String

/-- What the tasks act on, and the calls made so far. -/
structure World where
  inventory : Inventory
  /-- The state of each application in the state database. -/
  app_state : String → Option String
  active : ScalingService → Bool
  history : List Event

/-- A task; what it did before it raised stays done. -/
abbrev Task (α : Type) := EStateM PyError World α

/-- More calls were made. -/
def World.extend (w : World) (es : List Event) : World := { w with history := w.history ++ es }

theorem World.extend_extend (w : World) (es es' : List Event) :
    (w.extend es).extend es' = w.extend (es ++ es') := by
  simp only [World.extend, List.append_assoc]

@[simp] theorem World.extend_nil (w : World) : w.extend [] = w := by
  simp only [World.extend, List.append_nil]

/-- Every call succeeds. -/
def External.healthy : External where
  raises := fun _ _ => none
  response := fun _ _ => ⟨200, ""⟩
  script := fun _ _ _ => .succeeded
  default_timer := fun _ => 0
  str := fun _ => "error"
  strList := fun errors => String.intercalate ", " errors
  strftime := fun _ => "2025-01-01--00-00-00"
  transfer_time := fun _ _ => 0
  task_id := fun h => toString h.length

/-- The services are active and no call was made. -/
def World.initial (inventory : Inventory) : World := ⟨inventory, fun _ => none, fun _ => true, []⟩

namespace Tasks

/-- Record a call. -/
def record (w : World) (c : Call) (o : Outcome) : World := w.extend [⟨c, o⟩]

/-- A computation of Python without external calls. -/
def ofPy {α : Type} : Py α → Task α
  | .ok a => pure a
  | .error err => throw err

section Calls

variable (ext : External)

/-- A call that changes nothing the tasks look at. -/
def call (c : Call) : Task Unit := fun w =>
  match ext.raises w.history c with
  | some err => .error err (record w c (.raised err))
  | none => .ok () (record w c .done)

def playbook (p : Playbook) : Task Unit := call ext (.playbook p)

/-- A function of `update_inventory_file.py`, under the lock. -/
def updateInventory {α : Type} (c : Call) (update : Inventory → Py (Inventory × α)) : Task α := fun w =>
  match ext.raises w.history c with
  | some err => .error err (record w c (.raised err))
  | none =>
    match update w.inventory with
    | .error err => .error err (record w c (.raised err))
    | .ok (inv, a) => .ok a { record w c .done with inventory := inv }

/-- `web_request`: the error and the response, where `none` stands for the
    response `""` that the callers look out for; an accepted request for a state
    changes it. -/
def webRequest (r : DbRequest) (error_message : String) : Task (String × Option Response) := fun w =>
  match ext.raises w.history (.db r) with
  | some err => .error err (record w (.db r) (.raised err))
  | none =>
    let response := ext.response w.history r
    if response.ok then
      .ok ("", some response) { record w (.db r) .done with
        app_state := match r with
          | .app_state app state => Function.update w.app_state app (some state)
          | _ => w.app_state }
    else
      .ok (String.join [error_message, ": ", response.text], some response)
        (record w (.db r) .refused)

/-! ## The state database -/

/-- The loop of `change_app_state_in_db`, with the tries that are left. -/
def changeAppStateLoop (app state : String) : ℕ → Task Unit
  | 0 => throw (.exception (String.join
      ["Reached max tries when changing app ", app, " execution state to ", state]))
  | tries + 1 => do
    let (error, response) ← webRequest ext (.app_state app state)
      (String.join ["Error changing app ", app, " execution state to ", state])
    match response with
    | some _ => if error = "" then return () else throw (.exception error)
    | none => changeAppStateLoop app state tries

/-- `change_app_state_in_db`. -/
def changeAppStateInDb (app state : String) : Task Unit := changeAppStateLoop ext app state 10

/-- `remove_container_from_db`. -/
def removeContainerFromDb (container_name : String) : Task String :=
  Prod.fst <$> webRequest ext (.container container_name)
    (String.join ["Error removing container ", container_name])

/-- The loop of `remove_container_from_app_db`.  Every response ends it, also one
    about a container that is missing in the application. -/
def removeFromAppLoop (container_name app : String) : ℕ → Task String
  | 0 => return String.join ["Reached max tries when removing ", container_name, " from app ", app]
  | tries + 1 => do
    let (error, response) ← webRequest ext (.container_of_app container_name app)
      (String.join ["Error removing container ", container_name, " from app ", app])
    match response with
    | some _ => return error
    | none => removeFromAppLoop container_name app tries

/-- `remove_container_from_app_db`. -/
def removeContainerFromAppDb (container_name app : String) : Task String := do
  let error ← removeFromAppLoop ext container_name app 10
  -- Remove the container itself
  let remove_error ← removeContainerFromDb ext container_name
  return if remove_error = "" then error else remove_error

/-! ## Containers -/

/-- `stop_container`: stop it on the remote host, then remove it from the
    inventory; the errors of both are raised together. -/
def stopContainer (host container_name : String) (bind_path : Option String) (clean_bind_dir : Bool) :
    Task Unit := do
  let error_msg ← tryCatch
    (do playbook ext (.stop_container host container_name bind_path clean_bind_dir); return "")
    fun e => return String.join ["Error removing container ", container_name, " from remote host ",
      host, ": ", ext.str e]
  let error_msg ← tryCatch
    (do
      updateInventory ext (.removeFromInventory host container_name) fun inv => do
        return (← removeContainerFromHost container_name host inv, ())
      return error_msg)
    fun e => return String.join [error_msg, "\nError removing container ", container_name,
      " from inventory: ", ext.str e]
  if error_msg = "" then return () else throw (.exception error_msg)

/-- The tasks of a group, run side by side: the first error in their order. -/
def runAll : List (Task Unit) → Task (Option PyError)
  | [] => return none
  | t :: ts => do
    let err ← tryCatch (do t; return none) fun e => return some e
    let rest ← runAll ts
    return err.or rest

/-- `group(tasks)()` and, when all are ready, `get`. -/
def group (tasks : List (Task Unit)) : Task Unit := do
  match ← runAll tasks with
  | some err => throw err
  | none => return ()

/-! ## Scaling services -/

/-- The services after their scripts, each of which switches its service or fails. -/
def afterScripts (services : List ScalingService) (enable : Bool) (w : World) : ScalingService → Bool :=
  fun service =>
    if service ∈ services then
      match ext.script w.history service enable with
      | .succeeded => enable
      | .failed _ active => active
    else w.active service

/-- The scripts of `manage_scaling_services`, started in parallel. -/
def runScripts (services : List ScalingService) (enable : Bool) :
    Task (List (ScalingService × ScriptResult)) := fun w =>
  let results := services.map fun service => (service, ext.script w.history service enable)
  .ok results { w with
    active := afterScripts ext services enable w
    history := w.history ++ results.map fun r =>
      ⟨.script r.1 enable, if r.2 = .succeeded then .done else .refused⟩ }

/-- `extracted_error`. -/
def extractedError (err : String) : String :=
  if err.toList.all isSpace then "Please consult Celery log under services/celery for further details"
  else err

/-- The results of the scripts are checked one at a time. -/
def checkScripts (enable : Bool) (results : List (ScalingService × ScriptResult)) : Task Unit :=
  results.forM fun r =>
    match r.2 with
    | .succeeded => return ()
    | .failed err _ => throw (.exception (String.join ["Error managing scaling service ", r.1.name,
        " (enable=", if enable then "True" else "False", "): ", extractedError err]))

/-- `manage_scaling_services(enable)`, with `skip_ansible`. -/
def manageScalingServices (power_budgeting enable : Bool) : Task Unit := do
  let results ← runScripts ext (scalingServices power_budgeting) enable
  checkScripts enable results

/-- `with scaling_services_disabled()`, around a body. -/
def scalingServicesDisabled {α : Type} (power_budgeting : Bool) (body : Task α) : Task α := do
  manageScalingServices ext power_budgeting false
  tryFinally body (manageScalingServices ext power_budgeting true)

end Calls

/-! ## What the calls do -/

section Specs

variable {ext : External} {w : World}

/-- A call is recorded, with its outcome. -/
theorem call_does (c : Call) : Does World.history (call ext c)
    (fun _ es w' => es = [⟨c, .done⟩] ∧ w' = w.extend es ∧ ext.raises w.history c = none)
    (fun err es w' => es = [⟨c, .raised err⟩] ∧ w' = w.extend es ∧
      ext.raises w.history c = some err) w := by
  unfold Does wp call
  rcases ext.raises w.history c with _ | err
  · exact ⟨_, rfl, rfl, rfl, rfl⟩
  · exact ⟨_, rfl, rfl, rfl, rfl⟩

theorem updateInventory_does {α : Type} (c : Call) (update : Inventory → Py (Inventory × α)) :
    Does World.history (updateInventory ext c update)
      (fun a es w' => es = [⟨c, .done⟩] ∧ ∃ inv, update w.inventory = .ok (inv, a) ∧
        w' = { w.extend es with inventory := inv })
      (fun err es w' => es = [⟨c, .raised err⟩] ∧ w' = w.extend es) w := by
  unfold Does wp updateInventory
  rcases ext.raises w.history c with _ | err
  · rcases hu : update w.inventory with err | ⟨inv, a⟩
    · exact ⟨_, rfl, rfl, rfl⟩
    · exact ⟨_, rfl, rfl, inv, rfl, rfl⟩
  · exact ⟨_, rfl, rfl, rfl⟩

/-- The states of the applications after an accepted request. -/
def accept (app_state : String → Option String) : DbRequest → String → Option String
  | .app_state app state => Function.update app_state app (some state)
  | _ => app_state

/-- A request is accepted, refused with an error text, or not made. -/
theorem webRequest_does (r : DbRequest) (error_message : String) :
    Does World.history (webRequest ext r error_message)
      (fun a es w' => (∃ response, a.2 = some response) ∧
        ((a.1 = "" ∧ es = [⟨.db r, .done⟩] ∧
            w' = { w.extend es with app_state := accept w.app_state r }) ∨
          (a.1 ≠ "" ∧ es = [⟨.db r, .refused⟩] ∧ w' = w.extend es)))
      (fun err es w' => es = [⟨.db r, .raised err⟩] ∧ w' = w.extend es) w := by
  unfold Does wp webRequest
  rcases ext.raises w.history (.db r) with _ | err
  · by_cases hok : (ext.response w.history r).ok
    · dsimp only
      rw [if_pos hok]
      refine ⟨_, rfl, ⟨_, rfl⟩, .inl ⟨rfl, rfl, ?_⟩⟩
      cases r <;> rfl
    · dsimp only
      rw [if_neg hok]
      exact ⟨_, rfl, ⟨_, rfl⟩, .inr ⟨by simp, rfl, rfl⟩⟩
  · exact ⟨_, rfl, rfl, rfl⟩

/-! ## What the helpers do -/

/-- The state is changed, or the request is refused or not made. -/
theorem changeAppStateInDb_does (app state : String) :
    Does World.history (changeAppStateInDb ext app state)
      (fun _ es w' => es = [⟨.db (.app_state app state), .done⟩] ∧
        w' = { w.extend es with app_state := Function.update w.app_state app (some state) })
      (fun _ es w' => (∃ o, o ≠ .done ∧ es = [⟨.db (.app_state app state), o⟩]) ∧ w' = w.extend es) w := by
  refine (webRequest_does _ _).seq ?_ ?_
  · rintro ⟨error, response⟩ es w' ⟨⟨response, rfl⟩, ⟨rfl, rfl, rfl⟩ | ⟨herror, rfl, rfl⟩⟩
    · exact Does.pure ⟨rfl, rfl⟩
    · simp only [if_neg herror]
      exact Does.throw ⟨⟨.refused, by simp, rfl⟩, rfl⟩
  · rintro err es w' ⟨rfl, rfl⟩
    exact ⟨⟨.raised err, by simp, rfl⟩, rfl⟩

theorem removeContainerFromDb_does (container_name : String) :
    Does World.history (removeContainerFromDb ext container_name)
      (fun error es w' => w' = w.extend es ∧
        ((error = "" ∧ es = [⟨.db (.container container_name), .done⟩]) ∨
          (error ≠ "" ∧ es = [⟨.db (.container container_name), .refused⟩])))
      (fun err es w' => es = [⟨.db (.container container_name), .raised err⟩] ∧ w' = w.extend es) w := by
  refine (webRequest_does _ _).map ?_
  rintro ⟨error, response⟩ es w' ⟨-, ⟨herror, rfl, rfl⟩ | ⟨herror, rfl, rfl⟩⟩
  · exact ⟨rfl, .inl ⟨herror, rfl⟩⟩
  · exact ⟨rfl, .inr ⟨herror, rfl⟩⟩

/-- Both records of the container are asked to be removed, unless a request
    cannot be made. -/
theorem removeContainerFromAppDb_does (container_name app : String) :
    Does World.history (removeContainerFromAppDb ext container_name app)
      (fun error es w' => w' = w.extend es ∧ ∃ o₁ o₂,
        es = [⟨.db (.container_of_app container_name app), o₁⟩, ⟨.db (.container container_name), o₂⟩] ∧
        (error = "" ↔ o₁ = .done ∧ o₂ = .done) ∧ (∀ err, o₁ ≠ .raised err) ∧ ∀ err, o₂ ≠ .raised err)
      (fun err es w' => w' = w.extend es ∧
        (es = [⟨.db (.container_of_app container_name app), .raised err⟩] ∨
          ∃ o, es = [⟨.db (.container_of_app container_name app), o⟩,
            ⟨.db (.container container_name), .raised err⟩])) w := by
  unfold removeContainerFromAppDb
  have hloop : Does World.history (removeFromAppLoop ext container_name app 10)
      (fun error es w' => w' = w.extend es ∧
        ((error = "" ∧ es = [⟨.db (.container_of_app container_name app), .done⟩]) ∨
          (error ≠ "" ∧ es = [⟨.db (.container_of_app container_name app), .refused⟩])))
      (fun err es w' => es = [⟨.db (.container_of_app container_name app), .raised err⟩] ∧
        w' = w.extend es) w := by
    refine (webRequest_does _ _).seq ?_ fun err es w' h => h
    rintro ⟨error, response⟩ es w' ⟨⟨response, rfl⟩, ⟨herror, rfl, rfl⟩ | ⟨herror, rfl, rfl⟩⟩
    · exact Does.pure ⟨rfl, .inl ⟨herror, rfl⟩⟩
    · exact Does.pure ⟨rfl, .inr ⟨herror, rfl⟩⟩
  refine hloop.seq ?_ fun err es w' ⟨hes, hw'⟩ => ⟨hw', .inl hes⟩
  rintro error es w' ⟨rfl, herror⟩
  refine (removeContainerFromDb_does container_name).seq ?_ ?_
  · rintro remove_error es' w'' ⟨rfl, hremove⟩
    refine Does.pure ⟨by rw [World.extend_extend, List.append_nil], ?_⟩
    rcases herror with ⟨rfl, rfl⟩ | ⟨herror, rfl⟩ <;> rcases hremove with ⟨rfl, rfl⟩ | ⟨hremove, rfl⟩ <;>
      refine ⟨_, _, rfl, ?_⟩ <;> simp_all
  · rintro err es' w'' ⟨rfl, rfl⟩
    refine ⟨World.extend_extend w _ _, .inr ?_⟩
    rcases herror with ⟨-, rfl⟩ | ⟨-, rfl⟩ <;> exact ⟨_, rfl⟩

/-- The outcome of `stop_container`: both steps are made, whatever fails. -/
structure StopsContainer (ext : External) (host container_name : String) (bind_path : Option String)
    (clean_bind_dir : Bool) (w : World) (stop remove : Outcome) (es : List Event) (w' : World) : Prop where
  events : es = [⟨.playbook (.stop_container host container_name bind_path clean_bind_dir), stop⟩,
    ⟨.removeFromInventory host container_name, remove⟩]
  world : w' = { w.extend es with inventory := w'.inventory }
  stopped : stop = .done ↔
    ext.raises w.history (.playbook (.stop_container host container_name bind_path clean_bind_dir)) = none
  removed : remove = .done → w.inventory.removeContainer host container_name = .ok w'.inventory
  kept : remove ≠ .done → w'.inventory = w.inventory

/-- `stop_container` raises if one of its steps does. -/
theorem stopContainer_does (host container_name : String) (bind_path : Option String)
    (clean_bind_dir : Bool) :
    Does World.history (stopContainer ext host container_name bind_path clean_bind_dir)
      (fun _ => StopsContainer ext host container_name bind_path clean_bind_dir w .done .done)
      (fun _ es w' => ∃ stop remove, ¬ (stop = .done ∧ remove = .done) ∧
        StopsContainer ext host container_name bind_path clean_bind_dir w stop remove es w') w := by
  have hremove : ∀ (error_msg : String) (w₁ : World), Does World.history (tryCatch
      (do
        updateInventory ext (.removeFromInventory host container_name) fun inv => do
          return (← removeContainerFromHost container_name host inv, ())
        return error_msg)
      fun e => (return String.join [error_msg, "\nError removing container ", container_name,
        " from inventory: ", ext.str e] : Task String))
      (fun msg es w' => ∃ o, es = [⟨.removeFromInventory host container_name, o⟩] ∧
        w' = { w₁.extend es with inventory := w'.inventory } ∧ (msg = "" ↔ error_msg = "" ∧ o = .done) ∧
        (o = .done → w₁.inventory.removeContainer host container_name = .ok w'.inventory) ∧
        (o ≠ .done → w'.inventory = w₁.inventory)) (fun _ _ _ => False) w₁ := by
    intro error_msg w₁
    refine Does.catch ((updateInventory_does _ _).seq ?_ fun err es w' h => h) (fun _ _ _ h => h) ?_
    · rintro _ es w' ⟨rfl, inv, hinv, rfl⟩
      simp only [bind_eq_ok, pure_eq_ok, Prod.mk.injEq, and_true] at hinv
      obtain ⟨inv', hinv, rfl⟩ := hinv
      exact Does.pure ⟨.done, rfl, rfl, by simp, fun _ => hinv, by simp⟩
    · rintro err es w' ⟨rfl, rfl⟩
      exact Does.pure ⟨.raised err, rfl, rfl, by simp, by simp, fun _ => rfl⟩
  unfold stopContainer
  have hstop : Does World.history (tryCatch
      (do playbook ext (.stop_container host container_name bind_path clean_bind_dir); return "")
      fun e => (return String.join ["Error removing container ", container_name, " from remote host ",
        host, ": ", ext.str e] : Task String))
      (fun msg es w' => ∃ o,
        es = [⟨.playbook (.stop_container host container_name bind_path clean_bind_dir), o⟩] ∧
        w' = w.extend es ∧ (msg = "" ↔ o = .done) ∧ (o = .done ↔ ext.raises w.history
          (.playbook (.stop_container host container_name bind_path clean_bind_dir)) = none))
      (fun _ _ _ => False) w := by
    refine Does.catch ((call_does _).seq ?_ fun err es w' h => h) (fun _ _ _ h => h) ?_
    · rintro _ es w' ⟨rfl, rfl, hraises⟩
      exact Does.pure ⟨.done, rfl, rfl, by simp, by simp [hraises]⟩
    · rintro err es w' ⟨rfl, rfl, hraises⟩
      exact Does.pure ⟨.raised err, rfl, rfl, by simp, by simp [hraises]⟩
  refine hstop.seq ?_ fun _ _ _ h => h.elim
  rintro msg es w₁ ⟨stop, rfl, rfl, hmsg, hstopped⟩
  refine (hremove msg _).seq ?_ fun _ _ _ h => h.elim
  rintro msg' es' w' ⟨remove, rfl, hw', hmsg', hdone, hkept⟩
  have hstops : StopsContainer ext host container_name bind_path clean_bind_dir w stop remove _ w' :=
    ⟨rfl, hw'.trans (by simp only [World.extend_extend]; rfl), hstopped, hdone, hkept⟩
  by_cases hempty : msg' = ""
  · rw [if_pos hempty]
    obtain ⟨hstopped, rfl⟩ := hmsg'.1 hempty
    obtain rfl := hmsg.1 hstopped
    exact Does.pure hstops
  · rw [if_neg hempty]
    refine Does.throw ⟨stop, remove, ?_, hstops⟩
    rintro ⟨rfl, rfl⟩
    exact hempty (hmsg'.2 ⟨hmsg.2 rfl, rfl⟩)

/-- Every call of a group is made, whatever fails; `get` raises the first error. -/
theorem group_does : ∀ (calls : List Call) {w : World},
    Does World.history (group (calls.map (call ext)))
      (fun _ es w' => w' = w.extend es ∧ es = calls.map (⟨·, .done⟩))
      (fun err es w' => w' = w.extend es ∧ es.map Event.call = calls ∧
        ∃ x ∈ es, x.outcome = .raised err) w := by
  have hall : ∀ (calls : List Call) (w : World), Does World.history (runAll (calls.map (call ext)))
      (fun err es w' => w' = w.extend es ∧ es.map Event.call = calls ∧ match err with
        | none => es = calls.map (⟨·, .done⟩)
        | some e => ∃ x ∈ es, x.outcome = .raised e) (fun _ _ _ => False) w := by
    intro calls
    induction calls with
    | nil =>
      intro w
      exact Does.pure ⟨by simp [World.extend], rfl, rfl⟩
    | cons c calls ih =>
      intro w
      have hfirst : Does World.history (tryCatch (do call ext c; return none)
          fun e => (return some e : Task (Option PyError)))
          (fun err es w' => w' = w.extend es ∧ ((err = none ∧ es = [⟨c, .done⟩]) ∨
            ∃ e, err = some e ∧ es = [⟨c, .raised e⟩])) (fun _ _ _ => False) w := by
        refine Does.catch ((call_does c).seq ?_ fun err es w' h => h) (fun _ _ _ h => h) ?_
        · rintro _ es w' ⟨rfl, rfl, -⟩
          exact Does.pure ⟨rfl, .inl ⟨rfl, rfl⟩⟩
        · rintro err es w' ⟨rfl, rfl, -⟩
          exact Does.pure ⟨rfl, .inr ⟨err, rfl, rfl⟩⟩
      refine hfirst.seq ?_ fun _ _ _ h => h.elim
      rintro err es w₁ ⟨rfl, herr⟩
      refine (ih _).seq ?_ fun _ _ _ h => h.elim
      rintro rest es' w₂ ⟨rfl, hcalls, hrest⟩
      refine Does.pure ⟨by rw [World.extend_extend, List.append_nil], ?_⟩
      rcases herr with ⟨rfl, rfl⟩ | ⟨e, rfl, rfl⟩
      · refine ⟨by simp [hcalls], ?_⟩
        rcases rest with _ | e
        · simpa using hrest
        · obtain ⟨x, hx, hraised⟩ := hrest
          exact ⟨x, by simp [hx], hraised⟩
      · exact ⟨by simp [hcalls], ⟨c, .raised e⟩, by simp, rfl⟩
  intro calls w
  refine (hall calls w).seq ?_ fun _ _ _ h => h.elim
  rintro err es w' ⟨rfl, hcalls, herr⟩
  rcases err with _ | e
  · exact Does.pure ⟨by rw [List.append_nil], by rw [List.append_nil]; exact herr⟩
  · exact Does.throw (by rw [List.append_nil]; exact ⟨rfl, hcalls, herr⟩)

/-! ## Switching the services -/

theorem checkScripts_does (enable : Bool) (results : List (ScalingService × ScriptResult)) :
    Does World.history (checkScripts enable results)
      (fun _ es w' => es = [] ∧ w' = w ∧ ∀ r ∈ results, r.2 = .succeeded)
      (fun _ es w' => es = [] ∧ w' = w ∧ ∃ r ∈ results, r.2 ≠ .succeeded) w := by
  unfold checkScripts
  refine (Does.forM (fun done es w' => es = [] ∧ w' = w ∧ ∀ r ∈ done, r.2 = .succeeded)
    ⟨rfl, rfl, by simp⟩ ?_).mono (fun _ es w' h => h) fun err es w' h => h
  rintro done ⟨service, result⟩ es w' hmem ⟨rfl, rfl, hdone⟩
  rcases result with _ | ⟨err, active⟩
  · refine Does.pure ⟨rfl, rfl, fun r hr => ?_⟩
    rcases List.mem_append.1 hr with hr | hr
    · exact hdone r hr
    · rw [List.mem_singleton.1 hr]
  · exact Does.throw ⟨rfl, rfl, _, hmem, by simp⟩

/-- The scripts of a switch, and whether each reports success. -/
def switchEvents (ext : External) (services : List ScalingService) (enable : Bool) (w : World) :
    List Event :=
  services.map fun service =>
    ⟨.script service enable, if ext.script w.history service enable = .succeeded then .done else .refused⟩

/-- All scripts are run; the switch raises if one of them reports a failure. -/
theorem manageScalingServices_does (power_budgeting enable : Bool) :
    Does World.history (manageScalingServices ext power_budgeting enable)
      (fun _ es w' => es = switchEvents ext (scalingServices power_budgeting) enable w ∧
        w' = { w.extend es with
          active := afterScripts ext (scalingServices power_budgeting) enable w } ∧
        ∀ service ∈ scalingServices power_budgeting,
          ext.script w.history service enable = .succeeded)
      (fun _ es w' => es = switchEvents ext (scalingServices power_budgeting) enable w ∧
        w' = { w.extend es with
          active := afterScripts ext (scalingServices power_budgeting) enable w } ∧
        ∃ service ∈ scalingServices power_budgeting,
          ext.script w.history service enable ≠ .succeeded) w := by
  unfold manageScalingServices
  have hrun : Does World.history (runScripts ext (scalingServices power_budgeting) enable)
      (fun results es w' => es = switchEvents ext (scalingServices power_budgeting) enable w ∧
        w' = { w.extend es with
          active := afterScripts ext (scalingServices power_budgeting) enable w } ∧
        results = (scalingServices power_budgeting).map fun service =>
          (service, ext.script w.history service enable)) (fun _ _ _ => False) w := by
    refine ⟨switchEvents ext (scalingServices power_budgeting) enable w, ?_, rfl, ?_, rfl⟩ <;>
      simp [switchEvents, World.extend, List.map_map, Function.comp_def]
  refine hrun.seq ?_ fun _ _ _ h => h.elim
  rintro results es w' ⟨rfl, rfl, rfl⟩
  refine (checkScripts_does enable _).mono ?_ ?_
  · rintro _ es' w'' ⟨rfl, rfl, hall⟩
    refine ⟨List.append_nil _, by rw [List.append_nil], fun service hservice => ?_⟩
    exact hall _ (List.mem_map_of_mem hservice)
  · rintro _ es' w'' ⟨rfl, rfl, r, hr, hfailed⟩
    obtain ⟨service, hservice, rfl⟩ := List.mem_map.1 hr
    exact ⟨List.append_nil _, by rw [List.append_nil], service, hservice, hfailed⟩

/-- The scripts of a switch, when all of them succeed. -/
def switched (power_budgeting enable : Bool) : List Event :=
  (scalingServices power_budgeting).map fun service => ⟨.script service enable, .done⟩

/-- The scripts of a switch, when one of them reports a failure. -/
def SwitchFailed (enable : Bool) (es : List Event) : Prop :=
  (∀ x ∈ es, ∃ service, x.call = .script service enable) ∧ ∃ x ∈ es, x.outcome = .refused

/-- The services, the history and the rest of the world after a switch. -/
def switchWorld (w : World) (power_budgeting enable : Bool) : World :=
  { w.extend (switched power_budgeting enable) with
    active := ServerlessYarn.manageScalingServices power_budgeting enable w.active }

/-- A switch of all services succeeds, or raises because of one script. -/
theorem manageScalingServices_switch (power_budgeting enable : Bool) :
    Does World.history (manageScalingServices ext power_budgeting enable)
      (fun _ es w' => es = switched power_budgeting enable ∧ w' = switchWorld w power_budgeting enable)
      (fun _ es w' => SwitchFailed enable es ∧
        w' = { w.extend es with active := w'.active }) w := by
  refine (manageScalingServices_does power_budgeting enable).mono ?_ ?_
  · rintro _ es w' ⟨rfl, rfl, hall⟩
    have hes : switchEvents ext (scalingServices power_budgeting) enable w =
        switched power_budgeting enable :=
      List.map_congr_left fun service hservice => by rw [hall service hservice, if_pos rfl]
    refine ⟨hes, ?_⟩
    have hactive : afterScripts ext (scalingServices power_budgeting) enable w =
        ServerlessYarn.manageScalingServices power_budgeting enable w.active := by
      funext service
      unfold afterScripts ServerlessYarn.manageScalingServices
      split_ifs with hservice
      · rw [hall service hservice]
      · rfl
    rw [hes, hactive]
    rfl
  · rintro _ es w' ⟨rfl, rfl, service, hservice, hfailed⟩
    refine ⟨⟨fun x hx => ?_, ⟨_, List.mem_map_of_mem hservice, if_neg hfailed⟩⟩, rfl⟩
    obtain ⟨service', -, rfl⟩ := List.mem_map.1 hx
    exact ⟨service', rfl⟩

/-- A block with disabled services: the body runs between two switches, and the
    second one is made whether it returns or raises. -/
theorem scalingServicesDisabled_does {α : Type} {power_budgeting : Bool} {body : Task α}
    {Q : α → List Event → World → Prop} {R : PyError → List Event → World → Prop}
    (hbody : Does World.history body Q R (switchWorld w power_budgeting false)) :
    Does World.history (scalingServicesDisabled ext power_budgeting body)
      (fun a es w' => ∃ es₁ w₁, Q a es₁ w₁ ∧ w' = switchWorld w₁ power_budgeting true ∧
        es = switched power_budgeting false ++ (es₁ ++ switched power_budgeting true))
      (fun err es w' =>
        (SwitchFailed false es ∧ w' = { w.extend es with active := w'.active }) ∨
        (∃ es₁ w₁, R err es₁ w₁ ∧ w' = switchWorld w₁ power_budgeting true ∧
          es = switched power_budgeting false ++ (es₁ ++ switched power_budgeting true)) ∨
        ∃ es₁ w₁ on, ((∃ a, Q a es₁ w₁) ∨ ∃ e, R e es₁ w₁) ∧ SwitchFailed true on ∧
          w' = { w₁.extend on with active := w'.active } ∧
          es = switched power_budgeting false ++ (es₁ ++ on)) w := by
  refine (manageScalingServices_switch power_budgeting false).seq ?_ fun err es w' h => .inl h
  rintro _ off w₀ ⟨rfl, rfl⟩
  refine hbody.finally ?_ ?_
  · rintro a es₁ w₁ hq
    refine (manageScalingServices_switch power_budgeting true).mono ?_ ?_
    · rintro _ on w' ⟨rfl, rfl⟩
      exact ⟨es₁, w₁, hq, rfl, rfl⟩
    · rintro err on w' ⟨hfailed, hw'⟩
      exact .inr (.inr ⟨es₁, w₁, on, .inl ⟨a, hq⟩, hfailed, hw', rfl⟩)
  · rintro e es₁ w₁ hr
    refine (manageScalingServices_switch power_budgeting true).mono ?_ ?_
    · rintro _ on w' ⟨rfl, rfl⟩
      exact .inr (.inl ⟨es₁, w₁, hr, rfl, rfl⟩)
    · rintro err on w' ⟨hfailed, hw'⟩
      exact .inr (.inr ⟨es₁, w₁, on, .inr ⟨e, hr⟩, hfailed, hw', rfl⟩)

end Specs

end Tasks

end ServerlessYarn
