/-
  ServerlessYARN model — the teardown of Hadoop and HDFS clusters
  (`ui/background_tasks.py`: the end of `start_hadoop_app_task`, `stop_hdfs_task`).

  Both tasks remove the containers from the state database with the scaling
  services switched off, and then sleep for what is left of the polling period
  of the scaler.  If the removal has taken longer than the period, the argument
  of the sleep is negative and the task raises there.

  * `finishHadoopApp_issues`, `stopHdfsTask_issues`: the stop tasks that are issued;
  * `teardown_completes_iff`: a teardown in which no call fails completes if and
    only if the removal takes no longer than the polling period.
-/
import ServerlessYarn.AppFailure

namespace ServerlessYarn

open Fallible Tasks

/-! ## Stopping HDFS -/

/-- A container of the HDFS application, as the state database describes it;
    `disk_path` is `container['resources']['disk']['path']`, if there is one. -/
structure HdfsContainer where
  name : String
  host : String
  disk_path : Option String

/-- The arguments of `stop_hdfs_task`, and the name of the frontend container. -/
structure HdfsStop where
  app : String
  app_containers : List HdfsContainer
  scaler_polling_freq : ℚ
  rm_host : String
  rm_container : String
  hdfs_frontend_container_name : String

namespace Tasks

section Hdfs

variable (ext : External) (cfg : PlatformConfig)

/-- The task that stops a container of HDFS; the directory of the namenode is kept. -/
def stopHdfsContainer (c : HdfsContainer) : LaunchedTask :=
  .stop_container c.host c.name (c.disk_path.getD "") (!decide ("namenode".toList <:+: c.name.toList))

/-- `stop_hdfs_task`; the errors of the removals are ignored. -/
def stopHdfsTask (s : HdfsStop) : Task Unit := do
  playbook ext (.stop_hadoop_cluster s.rm_host s.rm_container)
  let _ ← removeAndWait ext cfg.power_budgeting s.app (some (s.app_containers.map (·.name)))
    s.scaler_polling_freq
  let _ ← webRequest ext (.app s.app) (String.join ["Error removing app ", s.app])
  s.app_containers.forM fun c => playbook ext (.clean_hdfs c.host c.name)
  if !cfg.server_as_host then
    playbook ext (.stop_container "platform_server" s.hdfs_frontend_container_name none true)
  s.app_containers.forM fun c => launchTask ext (stopHdfsContainer c)

end Hdfs

end Tasks

/-! ## The stop tasks -/

/-- The host and the name of the container that a task stops. -/
def LaunchedTask.container : LaunchedTask → String × String
  | .stop_app_on_container_task host container_name .. => (host, container_name)
  | .stop_container host container_name .. => (host, container_name)

/-- The container that a call issues a stop task for. -/
def Call.stopped? : Call → Option (String × String)
  | .launch t => some t.container
  | _ => none

/-- The containers for which a stop task was issued. -/
def issued (es : List Event) : List (String × String) :=
  es.filterMap fun x => if x.outcome = .done then x.call.stopped? else none

@[simp] theorem issued_nil : issued [] = [] := rfl

@[simp] theorem issued_append (es es' : List Event) : issued (es ++ es') = issued es ++ issued es' :=
  List.filterMap_append

theorem issued_eq_nil {es : List Event} (h : ∀ x ∈ es, x.call.stopped? = none) : issued es = [] := by
  refine List.filterMap_eq_nil_iff.2 fun x hx => ?_
  rw [h x hx, ite_self]

/-- The task issues the given stop tasks and leaves the states alone; it raises
    only after a call has failed. -/
def Tasks.Issues {α : Type} (t : Task α) (l : List (String × String)) : Prop :=
  ∀ w, Does World.history t (fun _ es w' => issued es = l ∧ w'.app_state = w.app_state)
    (fun _ es _ => ∃ x ∈ es, x.outcome ≠ .done) w

variable {ext : External} {cfg : PlatformConfig} {w w' : World} {es : List Event}

namespace Tasks.Issues

theorem pure {α : Type} (a : α) : Issues (Pure.pure a : Task α) [] := fun _ => Does.pure ⟨rfl, rfl⟩

theorem bind {α β : Type} {t : Task α} {f : α → Task β} {l l' : List (String × String)}
    (ht : Issues t l) (hf : ∀ a, Issues (f a) l') : Issues (t >>= f) (l ++ l') := by
  intro w
  refine (ht w).seq ?_ fun _ _ _ h => h
  rintro a es w₁ ⟨hes, hw₁⟩
  refine (hf a w₁).mono ?_ ?_
  · rintro b es' w₂ ⟨hes', hw₂⟩
    exact ⟨by rw [issued_append, hes, hes'], hw₂.trans hw₁⟩
  · rintro err es' w₂ ⟨x, hx, hnot⟩
    exact ⟨x, List.mem_append_right _ hx, hnot⟩

theorem call (c : Call) : Issues (Tasks.call ext c) c.stopped?.toList := by
  intro w
  refine (call_does c).mono ?_ ?_
  · rintro _ es w' ⟨rfl, rfl, -⟩
    refine ⟨?_, rfl⟩
    unfold issued
    rw [List.filterMap_cons, if_pos rfl]
    rcases c.stopped? <;> rfl
  · rintro err es w' ⟨rfl, rfl, -⟩
    exact ⟨_, List.mem_singleton.2 rfl, by simp⟩

theorem launchTask (t : LaunchedTask) : Issues (Tasks.launchTask ext t) [t.container] := by
  have hget : Issues (MonadState.get : Task World) [] := fun _ =>
    ⟨[], (List.append_nil _).symm, rfl, rfl⟩
  exact hget.bind fun w => (call (.launch t)).bind fun _ => call _

theorem forM {α : Type} {f : α → Task Unit} {l : α → List (String × String)}
    (hf : ∀ a, Issues (f a) (l a)) : ∀ items : List α, Issues (items.forM f) (items.flatMap l)
  | [] => pure _
  | a :: items => (hf a).bind fun _ => forM hf items

theorem webRequest_app (app error_message : String) :
    Issues (Tasks.webRequest ext (.app app) error_message) [] := by
  intro w
  refine (webRequest_does _ _).mono ?_ ?_
  · rintro a es w' ⟨-, ⟨-, rfl, rfl⟩ | ⟨-, rfl, rfl⟩⟩
    · exact ⟨rfl, rfl⟩
    · exact ⟨rfl, rfl⟩
  · rintro err es w' ⟨rfl, rfl⟩
    exact ⟨_, List.mem_singleton.2 rfl, by simp⟩

end Tasks.Issues

/-! ## The two teardowns -/

/-- The end of a Hadoop application, with what its task knows by then. -/
structure HadoopEnd where
  d : AppDeployment
  h : HadoopStart
  app_containers : List ContainerInfo
  app_files : AppFiles
  rm_host : String
  rm_container : String
  download_time : ℚ
  upload_time : ℚ

/-- The teardown of a cluster. -/
inductive Teardown where
  | start_hadoop_app_task (e : HadoopEnd)
  | stop_hdfs_task (s : HdfsStop)

namespace Teardown

def run (ext : External) (cfg : PlatformConfig) : Teardown → Task Unit
  | start_hadoop_app_task e => finishHadoopApp ext cfg e.d e.h (some e.app_containers) e.app_files
      (e.rm_host, e.rm_container, e.download_time, e.upload_time)
  | stop_hdfs_task s => stopHdfsTask ext cfg s

/-- The host and the name of each container. -/
def containers : Teardown → List (String × String)
  | start_hadoop_app_task e => e.app_containers.map fun c => (c.host, c.container_name)
  | stop_hdfs_task s => s.app_containers.map fun c => (c.host, c.name)

def app : Teardown → String
  | start_hadoop_app_task e => e.d.app
  | stop_hdfs_task s => s.app

def scaler_polling_freq : Teardown → ℚ
  | start_hadoop_app_task e => e.h.scaler_polling_freq
  | stop_hdfs_task s => s.scaler_polling_freq

/-- The calls before the scaling services are switched off. -/
def firstCalls : Teardown → List Call
  | start_hadoop_app_task e => [.hset ("pending_tasks:" ++ e.h.task_id) "runtime",
      .playbook (.stop_hadoop_cluster e.rm_host e.rm_container)]
  | stop_hdfs_task s => [.playbook (.stop_hadoop_cluster s.rm_host s.rm_container)]

/-- The requests of the removal. -/
def removals (t : Teardown) : List Call := (t.containers.map Prod.snd).flatMap (removalCalls t.app)

/-- How long the removal takes if no call fails. -/
def removalTime (ext : External) (cfg : PlatformConfig) (t : Teardown) (w : World) : ℚ :=
  elapsed ext (w.history ++ t.firstCalls.map (⟨·, .done⟩) ++ switched cfg.power_budgeting false)
    (t.removals.map (⟨·, .done⟩))

/-- The task returned, every container got its stop task, and a Hadoop application
    is stopped. -/
structure Completes (t : Teardown) (result : EStateM.Result PyError World Unit) (w' : World)
    (es : List Event) : Prop where
  returned : result = .ok () w'
  stopTasks : issued es = t.containers
  state : ∀ e, t = .start_hadoop_app_task e → w'.app_state e.d.app = some "stopped"

end Teardown

/-- Calls that all succeeded. -/
theorem eq_map_done {calls : List Call} (hcalls : es.map Event.call = calls)
    (hdone : ∀ x ∈ es, x.outcome = .done) : es = calls.map (⟨·, .done⟩) := by
  subst hcalls
  rw [List.map_map]
  refine ((List.map_congr_left fun x hx => ?_).trans (List.map_id es)).symm
  rw [Function.comp_apply, ← hdone x hx]
  rfl

/-- The removal and the wait after it, when nothing fails. -/
theorem removeAndWait_issues (app : String) (names : List String) (scaler_polling_freq : ℚ) :
    Does World.history (removeAndWait ext cfg.power_budgeting app (some names) scaler_polling_freq)
      (fun errors es _ => issued es = [] ∧ (errors ≠ [] → ∃ x ∈ es, x.outcome ≠ .done) ∧
        ((∀ x ∈ es, x.outcome = .done) → elapsed ext (w.history ++ switched cfg.power_budgeting false)
          ((names.flatMap (removalCalls app)).map (⟨·, .done⟩)) ≤ scaler_polling_freq))
      (fun _ es _ => (∃ x ∈ es, x.outcome ≠ .done) ∨
        scaler_polling_freq < elapsed ext (w.history ++ switched cfg.power_budgeting false)
          ((names.flatMap (removalCalls app)).map (⟨·, .done⟩))) w := by
  have hscripts : ∀ enable, issued (switched cfg.power_budgeting enable) = [] := by
    intro enable
    refine issued_eq_nil fun x hx => ?_
    obtain ⟨service, rfl⟩ := switched_script hx
    rfl
  refine (removeAndWait_does cfg.power_budgeting app (some names) scaler_polling_freq).mono ?_ ?_
  · rintro errors es w' ⟨l, deletes, hl, rfl, hcalls, -, herrors, rfl, htime⟩
    cases hl
    refine ⟨?_, fun herror => ?_, fun hdone => ?_⟩
    · have hdeletes : issued deletes = [] := by
        refine issued_eq_nil fun x hx => ?_
        have hremoves := mem_removalCalls hcalls hx
        generalize x.call = c at hremoves ⊢
        cases c <;> first | rfl | cases hremoves
      rw [issued_append, issued_append, hscripts, hscripts, hdeletes]
      rfl
    · rw [Ne, herrors] at herror
      push Not at herror
      obtain ⟨x, hx, hnot⟩ := herror
      exact ⟨x, by simp [hx], hnot⟩
    · rw [← eq_map_done hcalls fun x hx => hdone x (by simp [hx])]
      exact htime
  · rintro err es w' ⟨-, ⟨-, hfailed⟩ | ⟨hnone⟩ | ⟨hl, hcalls, hlate⟩⟩
    case failed => exact .inl hfailed
    case noContainers => cases hnone
    case late l deletes =>
      cases hl
      by_cases hdone : ∀ x ∈ deletes, x.outcome = .done
      · rw [← eq_map_done hcalls hdone]
        exact .inr hlate
      · push Not at hdone
        obtain ⟨x, hx, hnot⟩ := hdone
        exact .inl ⟨x, by simp [hx], hnot⟩

/-- **The end of a Hadoop application.** -/
theorem finishHadoopApp_issues (e : HadoopEnd) :
    Does World.history ((Teardown.start_hadoop_app_task e).run ext cfg)
      (fun _ es w' => issued es = (Teardown.start_hadoop_app_task e).containers ∧
        w'.app_state e.d.app = some "stopped" ∧ ((∀ x ∈ es, x.outcome = .done) →
          (Teardown.start_hadoop_app_task e).removalTime ext cfg w ≤ e.h.scaler_polling_freq))
      (fun _ es _ => (∃ x ∈ es, x.outcome ≠ .done) ∨
        e.h.scaler_polling_freq < (Teardown.start_hadoop_app_task e).removalTime ext cfg w) w := by
  have htime : (Teardown.start_hadoop_app_task e).removalTime ext cfg w =
      elapsed ext (w.history ++ (Teardown.start_hadoop_app_task e).firstCalls.map (⟨·, .done⟩) ++
        switched cfg.power_budgeting false)
        (((e.app_containers.map (·.container_name)).flatMap (removalCalls e.d.app)).map (⟨·, .done⟩)) := by
    unfold Teardown.removalTime Teardown.removals Teardown.containers
    rw [List.map_map]
    rfl
  rw [htime]
  unfold Teardown.run finishHadoopApp
  simp only [Option.map_some]
  refine (call_does _).seq ?_ fun err es w' ⟨hes, _⟩ => .inl ⟨_, hes ▸ List.mem_singleton.2 rfl, by simp⟩
  rintro _ es₁ w₁ ⟨rfl, rfl, -⟩
  refine (call_does _).seq ?_ ?_
  swap
  · rintro err es₂ w₂ ⟨rfl, -⟩
    exact .inl ⟨_, List.mem_append_right _ (List.mem_singleton.2 rfl), by simp⟩
  rintro _ es₂ w₂ ⟨rfl, rfl, -⟩
  refine (removeAndWait_issues e.d.app (e.app_containers.map fun c : ContainerInfo => c.container_name)
    e.h.scaler_polling_freq).seq ?_ ?_
  swap
  · rintro err es₃ w₃ (⟨x, hx, hnot⟩ | hlate)
    · exact .inl ⟨x, by simp [hx], hnot⟩
    · right
      simpa [World.extend, Teardown.firstCalls] using hlate
  rintro errors es₃ w₃ ⟨hes₃, herrors, hintime⟩
  refine (outputTimestamp_does e.app_files).seq ?_ fun _ _ _ h => h.elim
  rintro timestamp es₄ w₄ ⟨rfl, rfl⟩
  simp only [items, ofPy, pure_bind]
  have hlaunch : Issues (e.app_containers.forM fun c => launchTask ext
      (stopHadoopContainer e.d.app e.app_files e.rm_container timestamp e.download_time e.upload_time c))
      (e.app_containers.flatMap fun c => [(c.host, c.container_name)]) := by
    refine Issues.forM (fun c => ?_) _
    have hcontainer : (stopHadoopContainer e.d.app e.app_files e.rm_container timestamp e.download_time
        e.upload_time c).container = (c.host, c.container_name) := by
      unfold stopHadoopContainer
      split_ifs <;> rfl
    rw [← hcontainer]
    exact Issues.launchTask _
  refine (hlaunch _).seq ?_ ?_
  swap
  · rintro err es₅ w₅ ⟨x, hx, hnot⟩
    exact .inl ⟨x, by simp [hx], hnot⟩
  rintro _ es₅ w₅ ⟨hes₅, -⟩
  refine (changeAppStateInDb_does e.d.app "stopped").seq ?_ ?_
  swap
  · rintro err es₆ w₆ ⟨⟨o, ho, rfl⟩, -⟩
    exact .inl ⟨⟨.db (.app_state e.d.app "stopped"), o⟩, by simp, ho⟩
  rintro _ es₆ w₆ ⟨rfl, rfl⟩
  refine (raiseErrors_does errors).mono ?_ ?_
  · rintro _ es₇ w₇ ⟨rfl, rfl, -⟩
    refine ⟨?_, Function.update_self _ _ _, fun hdone => ?_⟩
    · simp only [issued_append, hes₃, hes₅, List.append_nil, List.nil_append]
      have hone : ∀ {c : Call}, c.stopped? = none → issued [⟨c, .done⟩] = [] := fun h =>
        issued_eq_nil (by simpa using h)
      rw [hone rfl, hone rfl, hone rfl, List.append_nil]
      exact List.map_eq_flatMap.symm
    · have hlast := hintime fun x hx => hdone x (by simp [hx])
      simpa [World.extend, Teardown.firstCalls] using hlast
  · rintro err es₇ w₇ ⟨rfl, rfl, hsome⟩
    obtain ⟨x, hx, hnot⟩ := herrors hsome
    exact .inl ⟨x, by simp [hx], hnot⟩

/-- **The end of HDFS.** -/
theorem stopHdfsTask_issues (s : HdfsStop) :
    Does World.history ((Teardown.stop_hdfs_task s).run ext cfg)
      (fun _ es _ => issued es = (Teardown.stop_hdfs_task s).containers ∧
        ((∀ x ∈ es, x.outcome = .done) →
          (Teardown.stop_hdfs_task s).removalTime ext cfg w ≤ s.scaler_polling_freq))
      (fun _ es _ => (∃ x ∈ es, x.outcome ≠ .done) ∨
        s.scaler_polling_freq < (Teardown.stop_hdfs_task s).removalTime ext cfg w) w := by
  have htime : (Teardown.stop_hdfs_task s).removalTime ext cfg w =
      elapsed ext (w.history ++ (Teardown.stop_hdfs_task s).firstCalls.map (⟨·, .done⟩) ++
        switched cfg.power_budgeting false)
        (((s.app_containers.map (·.name)).flatMap (removalCalls s.app)).map (⟨·, .done⟩)) := by
    unfold Teardown.removalTime Teardown.removals Teardown.containers
    rw [List.map_map]
    rfl
  rw [htime]
  unfold Teardown.run stopHdfsTask
  refine (call_does _).seq ?_ fun err es w' ⟨hes, _⟩ => .inl ⟨_, hes ▸ List.mem_singleton.2 rfl, by simp⟩
  rintro _ es₁ w₁ ⟨rfl, rfl, -⟩
  refine (removeAndWait_issues s.app (s.app_containers.map fun c : HdfsContainer => c.name)
    s.scaler_polling_freq).seq ?_ ?_
  swap
  · rintro err es₂ w₂ (⟨x, hx, hnot⟩ | hlate)
    · exact .inl ⟨x, by simp [hx], hnot⟩
    · right
      simpa [World.extend, Teardown.firstCalls] using hlate
  rintro errors es₂ w₂ ⟨hes₂, -, hintime⟩
  have hrest : Issues
      (do
        let _ ← webRequest ext (.app s.app) (String.join ["Error removing app ", s.app])
        s.app_containers.forM fun c => playbook ext (.clean_hdfs c.host c.name)
        if !cfg.server_as_host then
          playbook ext (.stop_container "platform_server" s.hdfs_frontend_container_name none true)
        s.app_containers.forM fun c => launchTask ext (stopHdfsContainer c))
      (s.app_containers.flatMap (fun _ => []) ++ s.app_containers.flatMap fun c => [(c.host, c.name)]) := by
    have hstops : Issues (s.app_containers.forM fun c => launchTask ext (stopHdfsContainer c))
        (s.app_containers.flatMap fun c => [(c.host, c.name)]) :=
      Issues.forM (fun c => Issues.launchTask _) _
    refine (Issues.webRequest_app _ _).bind fun _ => (Issues.forM (fun c => Issues.call _) _).bind fun _ => ?_
    split_ifs
    · exact (Issues.call _).bind fun _ => hstops
    · exact hstops
  refine (hrest _).mono ?_ ?_
  · rintro _ es₃ w₃ ⟨hes₃, -⟩
    refine ⟨?_, fun hdone => ?_⟩
    · have hcleans : (s.app_containers.flatMap fun _ => ([] : List (String × String))) = [] :=
        List.flatMap_eq_nil_iff.2 fun _ _ => rfl
      rw [issued_append, issued_append, hes₂, hes₃, hcleans, issued_eq_nil (by simp [Call.stopped?])]
      exact List.map_eq_flatMap.symm
    · have hlast := hintime fun x hx => hdone x (by simp [hx])
      simpa [World.extend, Teardown.firstCalls] using hlast
  · rintro err es₃ w₃ ⟨x, hx, hnot⟩
    exact .inl ⟨x, by simp [hx], hnot⟩

/-! ## When a teardown completes -/

/-- **A teardown in which no call fails completes if and only if the removal takes no
    longer than the polling period of the scaler.** -/
theorem teardown_completes_iff (ext : External) (cfg : PlatformConfig) (t : Teardown) {w w' : World}
    {result : EStateM.Result PyError World Unit} {es : List Event} (hrun : t.run ext cfg w = result)
    (hw' : w' = after (t.run ext cfg) w) (hes : w'.history = w.history ++ es)
    (hdone : ∀ x ∈ es, x.outcome = .done) :
    t.Completes result w' es ↔ t.removalTime ext cfg w ≤ t.scaler_polling_freq := by
  have hnot : ¬ ∃ x ∈ es, x.outcome ≠ .done := by
    rintro ⟨x, hx, hnot⟩
    exact hnot (hdone x hx)
  have hdoes : Does World.history (t.run ext cfg)
      (fun _ es w' => issued es = t.containers ∧
        (∀ e, t = .start_hadoop_app_task e → w'.app_state e.d.app = some "stopped") ∧
        ((∀ x ∈ es, x.outcome = .done) → t.removalTime ext cfg w ≤ t.scaler_polling_freq))
      (fun _ es _ => (∃ x ∈ es, x.outcome ≠ .done) ∨
        t.scaler_polling_freq < t.removalTime ext cfg w) w := by
    cases t with
    | start_hadoop_app_task e =>
      refine (finishHadoopApp_issues e).mono ?_ fun _ _ _ h => h
      rintro _ es w' ⟨hissued, hstate, hintime⟩
      exact ⟨hissued, fun e' he' => by cases he'; exact hstate, hintime⟩
    | stop_hdfs_task s =>
      refine (stopHdfsTask_issues s).mono ?_ fun _ _ _ h => h
      rintro _ es w' ⟨hissued, hintime⟩
      exact ⟨hissued, by simp, hintime⟩
  rcases result with ⟨⟨⟩, w₀⟩ | ⟨err, w₀⟩
  · obtain rfl : w' = w₀ := by rw [hw', after, hrun]
    obtain ⟨es', hes', hissued, hstate, hintime⟩ := hdoes.ok hrun
    obtain rfl := List.append_cancel_left (hes.symm.trans hes')
    exact iff_of_true ⟨rfl, hissued, hstate⟩ (hintime hdone)
  · obtain rfl : w' = w₀ := by rw [hw', after, hrun]
    obtain ⟨es', hes', hraised⟩ := hdoes.error hrun
    obtain rfl := List.append_cancel_left (hes.symm.trans hes')
    refine iff_of_false (fun hcompletes => ?_) (not_le.2 (hraised.resolve_left hnot))
    cases hcompletes.returned

/-- HDFS with one container; the scaler polls every five seconds. -/
def HdfsStop.one : HdfsStop where
  app := "global_hdfs"
  app_containers := [⟨"datanode-host0", "host0", none⟩]
  scaler_polling_freq := 5
  rm_host := "host0"
  rm_container := "namenode-host0"
  hdfs_frontend_container_name := "hdfs-frontend"

/-- Every call succeeds and takes the given time. -/
def External.steady (seconds : ℚ) : External :=
  { External.healthy with default_timer := fun h => h.length * seconds }

/-- Both requests of the removal take a second. -/
theorem teardown_completes_iff_fast :
    let t := (Teardown.stop_hdfs_task .one).run (.steady 1) .plain
    (Teardown.stop_hdfs_task .one).Completes (t (.initial .empty)) (after t (.initial .empty))
      (after t (.initial .empty)).history := by
  intro t
  obtain ⟨w', hw'⟩ : ∃ w', w' = after t (.initial .empty) := ⟨_, rfl⟩
  have hdone : ∀ x ∈ w'.history, x.outcome = .done := by
    rw [hw']
    decide +kernel
  have htime : (Teardown.stop_hdfs_task .one).removalTime (.steady 1) .plain (.initial .empty) ≤ 5 := by
    decide +kernel
  rw [← hw']
  exact (teardown_completes_iff (.steady 1) .plain (.stop_hdfs_task .one) rfl hw'
    (List.nil_append _).symm hdone).2 htime

/-- Both requests of the removal take four seconds: the container is not stopped. -/
theorem teardown_not_completed : ∃ (ext : External) (t : Teardown),
    let w' := after (t.run ext .plain) (.initial .empty)
    (∀ x ∈ w'.history, x.outcome = .done) ∧
      ¬ t.Completes (t.run ext .plain (.initial .empty)) w' w'.history := by
  refine ⟨.steady 4, .stop_hdfs_task .one, ?_⟩
  intro w'
  constructor
  · decide +kernel
  · intro hcompletes
    have hissued := hcompletes.stopTasks
    revert hissued
    decide +kernel

end ServerlessYarn
