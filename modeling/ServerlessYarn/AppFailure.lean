/-
  ServerlessYARN model — what a failed start of an application leaves
  (`ui/background_tasks.py`: `start_app_task`, `start_hadoop_app_task`).

  One external call fails after the application was set to `running`, and all
  others succeed.  The handler of `start_app_task` covers the deployment, the
  network and the start, but not the wait; its last phase goes on after the
  errors of single containers.  `start_hadoop_app_task` has no handler, so only
  the clean-up inside the deployment helps.

  * `startApp_clean_iff`: which failures of `start_app_task` leave nothing;
  * `hadoop_clean_iff`: which failures of `start_hadoop_app_task` leave nothing;
  * `failed_start_clean_iff`: both tasks together.
-/
import ServerlessYarn.AppTasks

namespace ServerlessYarn

open Fallible Inventory Tasks

variable {ext : External} {cfg : PlatformConfig} {d : AppDeployment} {w w' w₁ w₂ : World}
  {es : List Event} {x₀ : Event}

/-! ## Failures, and what is left -/

/-- A playbook or a request to the database that raises; `change_app_state_in_db`
    also raises when its request is refused. -/
inductive Event.Fails : Event → Prop
  | playbook (p : Playbook) (err : PyError) : Event.Fails ⟨.playbook p, .raised err⟩
  | db (r : DbRequest) (err : PyError) : Event.Fails ⟨.db r, .raised err⟩
  | refused (app state : String) : Event.Fails ⟨.db (.app_state app state), .refused⟩

theorem Event.Fails.not_done {x : Event} (h : x.Fails) : x.outcome ≠ .done := by
  cases h <;> simp

/-- What holds of every playbook and of every request holds of a call that fails. -/
theorem Event.Fails.external {P : Call → Prop} {x : Event} (h : x.Fails)
    (hplaybook : ∀ p, P (.playbook p)) (hdb : ∀ r, P (.db r)) : P x.call := by
  cases h with
  | playbook p => exact hplaybook p
  | db r => exact hdb r
  | refused app state => exact hdb (.app_state app state)

/-- A failed script is not the failure of a playbook or of a request. -/
theorem Event.Fails.not_script {x : Event} (h : x.Fails) {service : ScalingService} {enable : Bool} :
    x.call ≠ .script service enable :=
  h.external (P := (· ≠ .script service enable)) (fun p => by simp) (fun r => by simp)

/-- Neither is that of a step of the inventory. -/
theorem Event.Fails.not_removeFromInventory {x : Event} (h : x.Fails) {host container : String} :
    x.call ≠ .removeFromInventory host container :=
  h.external (P := (· ≠ .removeFromInventory host container)) (fun p => by simp) (fun r => by simp)

theorem Event.Fails.raised {x : Event} (h : x.Fails) (hcall : x.call.removesFromDb) :
    ∃ err, x.outcome = .raised err := by
  cases h with
  | playbook p err => exact ⟨err, rfl⟩
  | db r err => exact ⟨err, rfl⟩
  | refused app state => cases hcall

/-- A task that returns only if no call failed has raised if one did. -/
theorem Event.Fails.task_raised {α : Type} {t : Task α} {R : PyError → List Event → World → Prop}
    (hfails : x₀.Fails)
    (hdoes : Does World.history t (fun _ es _ => ∀ x ∈ es, x.outcome = .done) R w)
    (hw' : w' = after t w) (hes : w'.history = w.history ++ es) (hx₀ : x₀ ∈ es) :
    ∃ err, R err es w' := by
  unfold after at hw'
  rcases hrun : t w with ⟨a, w₀⟩ | ⟨err, w₀⟩
  · rw [hrun] at hw'
    obtain rfl : w' = w₀ := hw'
    obtain ⟨es', hes', hdone⟩ := hdoes.ok hrun
    obtain rfl := List.append_cancel_left (hes.symm.trans hes')
    exact absurd (hdone x₀ hx₀) hfails.not_done
  · rw [hrun] at hw'
    obtain rfl : w' = w₀ := hw'
    obtain ⟨es', hes', hraises⟩ := hdoes.error hrun
    obtain rfl := List.append_cancel_left (hes.symm.trans hes')
    exact ⟨err, hraises⟩

/-- The application is stopped, the lists of the inventory are as before, and
    the scaling services are active. -/
structure LeftClean (cfg : PlatformConfig) (d : AppDeployment) (w w' : World) : Prop where
  state : w'.app_state d.app = some "stopped"
  lists : ∀ host ≠ "", (containersOf w'.inventory host).Perm (containersOf w.inventory host)
  active : ∀ service ∈ scalingServices cfg.power_budgeting, w'.active service = true

/-! ## What a deployment that returned leaves -/

/-- The names of the described containers of a host. -/
def describedOn (host : String) (containers : List ContainerInfo) : List String :=
  (containers.filter fun c => c.host = host).map (·.container_name)

/-- The lists have grown by the described containers; nothing else has changed. -/
structure Deploys (w : World) (containers : List ContainerInfo) (w₁ : World) : Prop where
  lists : ∀ host, containersOf w₁.inventory host = containersOf w.inventory host ++
    describedOn host containers
  hosts_named : ∀ c ∈ containers, c.host ≠ ""
  app_state : w₁.app_state = w.app_state

theorem DeployReturns.deploys {infos : Option (List ContainerInfo)}
    (h : DeployReturns cfg d w infos es w₁) : Deploys w (infos.getD []) w₁ := by
  rcases h with ⟨h⟩ | ⟨h, -⟩
  · refine ⟨fun host => ?_, by simp, by rw [h.world]; rfl⟩
    rw [(addPlanned_lists d.hosts_named h.result).2 host, ← h.namesOn]
    rfl
  · refine ⟨fun host => ?_, h.hosts_named, ?_⟩
    · refine ((addPlanned_lists d.hosts_named h.result).2 host).trans ?_
      rw [← h.namesOn]
      rfl
    · have hstate := congrArg World.app_state h.world
      exact hstate

/-- Where the state is that after the deployment, the application still runs. -/
theorem DeployReturns.not_leftClean {infos : Option (List ContainerInfo)}
    (h : DeployReturns cfg d (w.running d.app) infos es w₁) (hstate : w'.app_state = w₁.app_state) :
    ¬ LeftClean cfg d w w' := by
  intro hleft
  have hstopped := hleft.state
  rw [hstate, h.deploys.app_state] at hstopped
  have hrunning : (w.running d.app).app_state d.app = some "running" := Function.update_self _ _ _
  exact absurd (hrunning.symm.trans hstopped) (by simp)

theorem DeployReturns.ne_nil {containers : List ContainerInfo}
    (h : DeployReturns cfg d w (some containers) es w₁) : containers ≠ [] := by
  cases h
  assumption

/-- When all containers are written off, the lists are as before the deployment. -/
theorem Deploys.written_off {containers : List ContainerInfo} {host : String} (hne : host ≠ "")
    (h : Deploys w containers w₁) (hinv : w₂.inventory = w₁.inventory) (hfollows : Follows w₂ es w')
    (hes : writtenOff host es = describedOn host containers) :
    (containersOf w'.inventory host).Perm (containersOf w.inventory host) := by
  rw [hfollows host hne, hinv, h.lists, hes]
  exact append_sdiff_perm _ _

/-- When a container stays in the inventory, its list is not as before. -/
theorem Deploys.not_perm {containers : List ContainerInfo} (h : Deploys w containers w₁)
    (hne : containers ≠ []) (hinv : w'.inventory = w₁.inventory) :
    ¬ ∀ host ≠ "", (containersOf w'.inventory host).Perm (containersOf w.inventory host) := by
  intro hall
  obtain ⟨c, hc⟩ := List.exists_mem_of_ne_nil _ hne
  have hperm := hall c.host (h.hosts_named c hc)
  rw [hinv, h.lists] at hperm
  have hlen := hperm.length_eq
  rw [List.length_append, Nat.add_eq_left, List.length_eq_zero_iff, describedOn,
    List.map_eq_nil_iff, List.filter_eq_nil_iff] at hlen
  exact hlen c hc (by simp)

/-! ## The rollback after a failure -/

/-- The calls of a rollback. -/
def Call.rollsBack : Call → Bool
  | .playbook (.stop_app_on_container ..) | .playbook (.stop_container ..) | .db _ | .script ..
  | .removeFromInventory .. => true
  | _ => false

theorem RollsBack.calls {power_budgeting : Bool} {app : String} {app_files : AppFiles}
    {containers : List ContainerInfo} {stopApps stops forgets scripts : List Event} {o : Outcome}
    (h : RollsBack power_budgeting app app_files containers w stopApps stops forgets o scripts w') :
    ∀ x ∈ rollbackEvents app stopApps stops forgets o scripts, x.call.rollsBack := by
  intro x hx
  simp only [rollbackEvents, List.mem_append, List.mem_cons] at hx
  rcases hx with hx | hx | hx | rfl | hx
  · obtain ⟨c, -, hc⟩ := List.mem_map.1 (Event.call_mem h.stopApps_calls hx)
    rw [← hc]
    rfl
  · obtain ⟨c, -, hc⟩ := List.mem_flatMap.1 (Event.call_mem h.stops_calls hx)
    rcases List.mem_pair.1 hc with hc | hc <;> rw [hc] <;> rfl
  · obtain ⟨c, -, hc⟩ := h.forgets_only x hx
    rcases List.mem_pair.1 hc with hc | hc <;> rw [hc] <;> rfl
  · rfl
  · obtain ⟨service, -, hc⟩ := List.mem_map.1 (Event.call_mem h.scripts_calls hx)
    rw [← hc]
    rfl

/-- A rollback in which nothing fails undoes the deployment. -/
theorem RollsBack.clean {containers : List ContainerInfo} {stopApps stops forgets scripts : List Event}
    {o : Outcome}
    (h : RollsBack cfg.power_budgeting d.app d.app_files containers w₂ stopApps stops forgets o scripts w')
    (hdone : ∀ x ∈ rollbackEvents d.app stopApps stops forgets o scripts, x.outcome = .done)
    (hlists : ∀ host ≠ "", (∀ es w', Follows w₂ es w' → writtenOff host es = describedOn host containers →
      (containersOf w'.inventory host).Perm (containersOf w.inventory host)))
    (hnamed : ∀ c ∈ containers, c.host ≠ "") : LeftClean cfg d w w' where
  state := h.state (hdone ⟨.db (.app_state d.app "stopped"), o⟩ (by simp [rollbackEvents]))
  lists := by
    intro host hne
    refine hlists host hne stops w' (h.follows hnamed) ?_
    exact writtenOff_stops host h.stops_calls fun x hx _ => hdone x (by simp [rollbackEvents, hx])
  active := h.active fun x hx => hdone x (by simp [rollbackEvents, hx])

/-- A failure in a rollback without containers is that of the state request. -/
theorem RollsBack.fails_of_nil {stopApps stops forgets scripts : List Event} {o : Outcome}
    (h : RollsBack cfg.power_budgeting d.app d.app_files [] w stopApps stops forgets o scripts w')
    (hx : x₀ ∈ rollbackEvents d.app stopApps stops forgets o scripts) (hfails : x₀.Fails) :
    (∃ r, x₀.call = .db r) ∧ w'.app_state = w.app_state := by
  have hnil : stopApps = [] ∧ stops = [] := by
    constructor
    · exact List.map_eq_nil_iff.1 h.stopApps_calls
    · exact List.map_eq_nil_iff.1 h.stops_calls
  simp only [rollbackEvents, hnil.1, hnil.2, List.nil_append, List.mem_append, List.mem_cons] at hx
  rcases hx with hx | rfl | hx
  · obtain ⟨c, hc, -⟩ := h.forgets_only x₀ hx
    cases hc
  · exact ⟨⟨_, rfl⟩, h.state_kept hfails.not_done⟩
  · obtain ⟨service, -, hc⟩ := List.mem_map.1 (Event.call_mem h.scripts_calls hx)
    exact absurd hc.symm hfails.not_script

/-! ## Ordinary applications -/

/-- The failures of `start_app_task` after which nothing is left. -/
def startAppRecovers : Call → Bool
  | .playbook (.wait_for_app_on_container ..) => false
  | .playbook _ => true
  | _ => false

theorem startAppRecovers_of_startsApp {c : Call} (h : c.startsApp) : startAppRecovers c := by
  cases c
  case playbook p => cases p <;> first | rfl | cases h
  all_goals cases h

theorem startAppRecovers_of_starts {c : Call} (h : c.startsContainers) : startAppRecovers c := by
  cases c
  case playbook p => cases p <;> first | rfl | cases h
  all_goals cases h

theorem not_rollsBack_of_starts {c : Call} (h : c.startsContainers ∨ c.startsApp) :
    c.rollsBack = false := by
  cases c
  case playbook p => cases p <;> first | rfl | (rcases h with h | h <;> cases h)
  all_goals rcases h with h | h <;> cases h

/-- A deployment that raises although no call has failed has only added containers. -/
theorem DeployRaises.of_done {err : PyError} {deploy : List Event}
    (h : DeployRaises ext cfg d w err deploy w₁) (hdone : ∀ x ∈ deploy, x.outcome = .done) :
    w₁.app_state = w.app_state := by
  have hswitch : ∀ {enable : Bool} {es : List Event}, SwitchFailed enable es →
      (∀ x ∈ es, x ∈ deploy) → False := by
    intro enable es hswitch hes
    obtain ⟨x, hx, hrefused⟩ := hswitch.2
    rw [hdone x (hes x hx)] at hrefused
    cases hrefused
  rcases h with ⟨⟨x, hx, -, hnot⟩, -⟩ | ⟨h, -⟩ | ⟨h, hoff⟩ | ⟨h, hclean⟩ | ⟨h, hclean⟩ | ⟨h, hon⟩
  case notAdded => exact absurd (hdone x hx) hnot
  case notDescribed =>
    have hstate := congrArg World.app_state h.world
    exact hstate
  case notSwitchedOff => exact (hswitch hoff fun x hx => List.mem_append_right _ hx).elim
  case cleaned added containers w₂ stops w₃ =>
    have hraised := hdone ⟨d.startCall added containers, .raised err⟩ (by simp)
    cases hraised
  case notCleaned e adds added containers w₂ clean w₃ =>
    have hraised := hdone ⟨d.startCall added containers, .raised e⟩ (by simp)
    cases hraised
  case notSwitchedOn => exact (hswitch hon fun x hx => by simp [hx]).elim

/-- If one call of the deployment has failed, it is the playbook, and the
    deployment has cleaned up. -/
theorem DeployRaises.of_failure {err : PyError} {deploy : List Event} (hfails : x₀.Fails)
    (h : DeployRaises ext cfg d w err deploy w₁) (hx₀ : x₀ ∈ deploy)
    (honly : ∀ x ∈ deploy, x.outcome ≠ .done → x = x₀) :
    x₀.call.startsContainers ∧ LeftClean cfg d w w₁ := by
  have hswitch : ∀ {enable : Bool} {es : List Event}, SwitchFailed enable es →
      (∀ x ∈ es, x ∈ deploy) → False := by
    intro enable es hswitch hes
    obtain ⟨x, hx, hrefused⟩ := hswitch.2
    obtain ⟨service, hcall⟩ := hswitch.1 x hx
    obtain rfl := honly x (hes x hx) (by simp [hrefused])
    exact hfails.not_script hcall
  rcases h with ⟨⟨x, hx, hadds, hnot⟩, -⟩ | ⟨h, -⟩ | ⟨h, hoff⟩ | ⟨h, hclean⟩ | ⟨h, hclean⟩ | ⟨h, hon⟩
  case notAdded =>
    obtain rfl := honly x hx hnot
    have hnone : x.call.addsToInventory = false :=
      hfails.external (P := fun c => c.addsToInventory = false) (fun _ => rfl) (fun _ => rfl)
    rw [hnone] at hadds
    cases hadds
  case notDescribed => exact absurd (h.events x₀ hx₀).2 hfails.not_done
  case notSwitchedOff => exact (hswitch hoff fun x hx => List.mem_append_right _ hx).elim
  case cleaned adds added containers w₂ stops w₃ =>
    have hstart : ⟨d.startCall added containers, .raised err⟩ = x₀ := honly _ (by simp) (by simp)
    subst hstart
    have hinv : ((switchWorld w₂ cfg.power_budgeting false).extend
        [⟨d.startCall added containers, .raised err⟩]).inventory = w₂.inventory := rfl
    refine ⟨rfl, ?_, fun host hne => ?_, fun service hservice => if_pos hservice⟩
    swap
    · have hperm := hclean.lists h hinv host hne
      exact hperm
    show w₃.app_state d.app = some "stopped"
    rw [hclean.state]
    exact Function.update_self _ _ _
  case notCleaned e adds added containers w₂ clean w₃ =>
    have hstart : ⟨d.startCall added containers, .raised e⟩ = x₀ := honly _ (by simp) (by simp)
    obtain ⟨x, hx, hnot, -⟩ := hclean.failed
    have heq := honly x (by simp [hx]) hnot
    have hcall := hclean.not_starts x hx
    rw [heq, ← hstart] at hcall
    cases hcall
  case notSwitchedOn => exact (hswitch hon fun x hx => by simp [hx]).elim

/-- A rollback without containers, after a failure in which nothing is left. -/
theorem RollsBack.clean_of_nil {stopApps stops forgets scripts : List Event} {o : Outcome}
    (h : RollsBack cfg.power_budgeting d.app d.app_files [] w₁ stopApps stops forgets o scripts w')
    (hdone : ∀ x ∈ rollbackEvents d.app stopApps stops forgets o scripts, x.outcome = .done)
    (hclean : LeftClean cfg d w w₁) : LeftClean cfg d w w' := by
  refine h.clean hdone (fun host hne es w'' hfollows hes => ?_) (by simp)
  have hlists : containersOf w''.inventory host = containersOf w₁.inventory host := by
    rw [hfollows host hne, hes]
    rfl
  rw [hlists]
  exact hclean.lists host hne

/-- The failures inside the deployment. -/
theorem DeployRaises.clean {err : PyError} {deploy stopApps stops forgets scripts : List Event}
    {o : Outcome} (hfails : x₀.Fails)
    (hdeploy : DeployRaises ext cfg d (w.running d.app) err deploy w₁)
    (hrollback : RollsBack cfg.power_budgeting d.app d.app_files [] w₁ stopApps stops forgets o
      scripts w')
    (hx₀ : x₀ ∈ deploy ++ rollbackEvents d.app stopApps stops forgets o scripts)
    (honly : ∀ x ∈ deploy ++ rollbackEvents d.app stopApps stops forgets o scripts,
      x.outcome ≠ .done → x = x₀) :
    LeftClean cfg d w w' ↔ startAppRecovers x₀.call := by
  by_cases hx : x₀ ∈ deploy
  · obtain ⟨hcall, hstate, hlists, hactive⟩ := hdeploy.of_failure hfails hx fun x hx =>
      honly x (List.mem_append_left _ hx)
    refine iff_of_true (hrollback.clean_of_nil (fun x hx => ?_) ⟨hstate, hlists, hactive⟩)
      (startAppRecovers_of_starts hcall)
    by_contra hnot
    have heq := honly x (List.mem_append_right _ hx) hnot
    have hrolls := hrollback.calls x hx
    rw [heq, not_rollsBack_of_starts (.inl hcall)] at hrolls
    cases hrolls
  · -- no external call has failed in the deployment, so it is the request of the rollback
    obtain ⟨⟨r, hr⟩, hstate⟩ := hrollback.fails_of_nil ((List.mem_append.1 hx₀).resolve_left hx) hfails
    rw [hr]
    refine iff_of_false (fun hleft => ?_) (by simp [startAppRecovers])
    have hdone := hdeploy.of_done fun x hx' => by
      by_contra hnot
      obtain rfl := honly x (List.mem_append_left _ hx') hnot
      exact hx hx'
    have hrunning := hleft.state
    rw [hstate, hdone] at hrunning
    simp [World.running] at hrunning

/-- The failures while the containers are connected and the application started. -/
theorem RollsBack.clean_of_started {infos : Option (List ContainerInfo)} {deploy start stopApps stops forgets
    scripts : List Event} {o : Outcome} (hfails : x₀.Fails)
    (hdeploy : DeployReturns cfg d (w.running d.app) infos deploy w₁)
    (hcalls : ∀ x ∈ start, x.call.startsApp)
    (hfailed : infos = none ∨ ∃ x ∈ start, x.outcome ≠ .done)
    (hrollback : RollsBack cfg.power_budgeting d.app d.app_files (infos.getD []) (w₁.extend start)
      stopApps stops forgets o scripts w')
    (hx₀ : x₀ ∈ start ++ rollbackEvents d.app stopApps stops forgets o scripts)
    (honly : ∀ x ∈ start ++ rollbackEvents d.app stopApps stops forgets o scripts,
      x.outcome ≠ .done → x = x₀) :
    LeftClean cfg d w w' ↔ startAppRecovers x₀.call := by
  have hdeploys := hdeploy.deploys
  by_cases hstart : ∃ x ∈ start, x.outcome ≠ .done
  · obtain ⟨x, hx, hnot⟩ := hstart
    obtain rfl := honly x (List.mem_append_left _ hx) hnot
    refine iff_of_true (hrollback.clean (fun y hy => ?_) (fun host hne => ?_) hdeploys.hosts_named)
      (startAppRecovers_of_startsApp (hcalls x hx))
    · by_contra hnot
      have heq := honly y (List.mem_append_right _ hy) hnot
      have hcall := hrollback.calls y hy
      rw [heq, not_rollsBack_of_starts (.inr (hcalls x hx))] at hcall
      cases hcall
    · intro es w'' hfollows hes
      have hinv : (w₁.extend start).inventory = w₁.inventory := rfl
      have hperm := hdeploys.written_off hne hinv hfollows hes
      exact hperm
  · obtain rfl := hfailed.resolve_right hstart
    push Not at hstart
    have hx : x₀ ∈ rollbackEvents d.app stopApps stops forgets o scripts :=
      (List.mem_append.1 hx₀).resolve_left fun hx => hfails.not_done (hstart x₀ hx)
    obtain ⟨⟨r, hr⟩, hstate⟩ := hrollback.fails_of_nil hx hfails
    rw [hr]
    exact iff_of_false (hdeploy.not_leftClean hstate) (by simp [startAppRecovers])

/-- The failures while the containers are removed. -/
theorem RemovalRaises.clean {containers : List ContainerInfo} {deploy start removal : List Event}
    (hfails : x₀.Fails)
    (hdeploy : DeployReturns cfg d (w.running d.app) (some containers) deploy w₁)
    (hremoval : RemovalRaises cfg.power_budgeting d.app d.app_files containers (w₁.extend start)
      removal w')
    (hx₀ : x₀ ∈ removal) (honly : ∀ x ∈ removal, x.outcome ≠ .done → x = x₀) :
    LeftClean cfg d w w' ↔ startAppRecovers x₀.call := by
  have hdeploys := hdeploy.deploys
  rcases hremoval with ⟨x, hx, ⟨service, enable, hcall⟩, hnot⟩ | ⟨ho, hstate⟩ | ⟨hcalls, hraised, hne, hinv⟩ |
    ⟨hdeletes, hstopApps, hstops, hfollows, hstate, hactive⟩
  case switchFailed =>
    obtain rfl := honly x hx hnot
    exact absurd hcall hfails.not_script
  case notStopped o =>
    have heq : ⟨.db (.app_state d.app "stopped"), o⟩ = x₀ := honly _ (by simp) ho
    subst heq
    exact iff_of_false (hdeploy.not_leftClean hstate) (by simp [startAppRecovers])
  case notRemoved deletes =>
    obtain ⟨x, hx, err, hraised⟩ := hraised
    obtain rfl := honly x (by simp [hx]) (by simp [hraised])
    have hnot : startAppRecovers x.call = false := by
      refine hfails.external (P := fun c => c.removesFromDb → startAppRecovers c = false) (fun p hcall => ?_)
        (fun _ _ => rfl) (hcalls x hx)
      cases hcall
    rw [hnot]
    refine iff_of_false (fun hleft => ?_) (by simp)
    exact hdeploys.not_perm hne hinv hleft.lists
  case collected deletes stopApps stops timestamp =>
    have hx : x₀ ∈ stopApps ∨ x₀ ∈ stops := by
      simp only [List.mem_append, List.mem_cons] at hx₀
      rcases hx₀ with (hx | (rfl | hx) | hx) | hx | hx
      · obtain ⟨service, rfl⟩ := switched_script hx
        exact absurd rfl hfails.not_done
      · exact absurd rfl hfails.not_done
      · obtain ⟨err, hraised⟩ := hfails.raised (hdeletes x₀ hx).1
        exact absurd hraised ((hdeletes x₀ hx).2 err)
      · obtain ⟨service, rfl⟩ := switched_script hx
        exact absurd rfl hfails.not_done
      · exact .inl hx
      · exact .inr hx
    refine iff_of_true ⟨hstate, fun host hne => ?_, hactive⟩ ?_
    · have hwritten : writtenOff host stops = describedOn host containers := by
        refine writtenOff_stops host hstops fun x hx hremove => ?_
        by_contra hnot
        obtain rfl := honly x (by simp [hx]) hnot
        obtain ⟨h, c, hcall⟩ := hremove
        exact hfails.not_removeFromInventory hcall
      have hinv : (w₁.extend start).inventory = w₁.inventory := rfl
      have hperm := hdeploys.written_off hne hinv (hfollows hdeploys.hosts_named) hwritten
      exact hperm
    · rcases hx with hx | hx
      · obtain ⟨c, -, hc⟩ := List.mem_map.1 (Event.call_mem hstopApps hx)
        rw [← hc]
        rfl
      · obtain ⟨c, -, hc⟩ := List.mem_flatMap.1 (Event.call_mem hstops hx)
        rcases List.mem_pair.1 hc with hc | hc
        · rw [hc]
          rfl
        · exact absurd hc hfails.not_removeFromInventory

/-- **Which failures of `start_app_task` leave nothing running.** -/
theorem startApp_clean_iff {task_id : String} (hfails : x₀.Fails)
    (hw' : w' = after (startAppTask ext cfg false task_id d) w) (hes : w'.history = w.history ++ es)
    (hrunning : ⟨.db (.app_state d.app "running"), .done⟩ ∈ es) (hx₀ : x₀ ∈ es)
    (honly : ∀ x ∈ es, x.outcome ≠ .done → x = x₀) :
    LeftClean cfg d w w' ↔ startAppRecovers x₀.call := by
  obtain ⟨-, hraises⟩ := hfails.task_raised (startAppTask_does task_id d) hw' hes hx₀
  rcases hraises with ⟨ho⟩ | ⟨hdeploy, hrollback⟩ | ⟨hdeploy, hcalls, hfailed, hrollback⟩ |
    ⟨hdeploy, hdone, hcalls⟩ | ⟨hdeploy, hdone, hremoval⟩
  case notRunning =>
    rw [List.mem_singleton] at hrunning
    exact absurd (congrArg Event.outcome hrunning).symm ho
  all_goals
    have hx := (List.mem_cons.1 hx₀).resolve_left fun heq =>
      hfails.not_done (congrArg Event.outcome heq)
    have honly' := fun x hx => honly x (List.mem_cons_of_mem _ hx)
  case notDeployed => exact hdeploy.clean hfails hrollback hx honly'
  all_goals
    have hx := (List.mem_append.1 hx).resolve_left fun hx => hfails.not_done (hdeploy.done x₀ hx)
    have honly' := fun x hx => honly' x (List.mem_append_right _ hx)
  case notStarted => exact hrollback.clean_of_started hfails hdeploy hcalls hfailed hx honly'
  all_goals
    have hx := (List.mem_append.1 hx).resolve_left fun hx => hfails.not_done (hdone x₀ hx)
    have honly' := fun x hx => honly' x (List.mem_append_right _ hx)
  case notRemoved => exact hremoval.clean hfails hdeploy hx honly'
  case notAwaited =>
    -- the wait is covered by no handler: the application stays `running`
    have hnot : startAppRecovers x₀.call = false := by
      refine hfails.external (P := fun c => c.awaitsApp → startAppRecovers c = false) (fun p hcall => ?_)
        (fun _ _ => rfl) (hcalls x₀ hx)
      cases p <;> first | rfl | cases hcall
    rw [hnot]
    exact iff_of_false (hdeploy.not_leftClean rfl) (by simp)

/-! ## Hadoop applications -/

/-- The task starts no containers and leaves the application unstopped; if it
    returns, nothing in it has failed. -/
def Tasks.Proceeds {α : Type} (app : String) (t : Task α) : Prop :=
  ∀ w, w.app_state app ≠ some "stopped" → Does World.history t
    (fun _ es w' => w'.app_state app ≠ some "stopped" ∧ (∀ x ∈ es, x.call.startsContainers = false) ∧
      ∀ x ∈ es, x.outcome = .done)
    (fun _ es w' => w'.app_state app ≠ some "stopped" ∧ ∀ x ∈ es, x.call.startsContainers = false) w

namespace Tasks.Proceeds

variable {app : String} {α β : Type}

theorem pure (a : α) : Proceeds app (Pure.pure a : Task α) := fun _ hw =>
  Does.pure ⟨hw, by simp, by simp⟩

theorem ofPy (p : Py α) : Proceeds app (Tasks.ofPy p) := by
  intro w hw
  rcases p with err | a
  · exact Does.throw ⟨hw, by simp⟩
  · exact Does.pure ⟨hw, by simp, by simp⟩

theorem get : Proceeds app (MonadState.get : Task World) := fun _ hw =>
  ⟨[], (List.append_nil _).symm, hw, by simp, by simp⟩

theorem bind {t : Task α} {f : α → Task β} (ht : Proceeds app t) (hf : ∀ a, Proceeds app (f a)) :
    Proceeds app (t >>= f) := by
  intro w hw
  refine (ht w hw).seq ?_ fun _ _ _ h => h
  rintro a es w₁ ⟨hw₁, hcalls, hdone⟩
  refine (hf a w₁ hw₁).mono ?_ ?_
  · rintro b es' w₂ ⟨hw₂, hcalls', hdone'⟩
    exact ⟨hw₂, fun x hx => (List.mem_append.1 hx).elim (hcalls x) (hcalls' x),
      fun x hx => (List.mem_append.1 hx).elim (hdone x) (hdone' x)⟩
  · rintro err es' w₂ ⟨hw₂, hcalls'⟩
    exact ⟨hw₂, fun x hx => (List.mem_append.1 hx).elim (hcalls x) (hcalls' x)⟩

theorem call {c : Call} (hc : c.startsContainers = false) : Proceeds app (Tasks.call ext c) := by
  intro w hw
  refine (call_does c).mono ?_ ?_
  · rintro _ es w' ⟨rfl, rfl, -⟩
    exact ⟨hw, by simp [hc], by simp⟩
  · rintro err es w' ⟨rfl, rfl, -⟩
    exact ⟨hw, by simp [hc]⟩

theorem changeAppStateInDb {state : String} (hstate : state ≠ "stopped") :
    Proceeds app (Tasks.changeAppStateInDb ext app state) := by
  intro w hw
  refine (changeAppStateInDb_does app state).mono ?_ ?_
  · rintro _ es w' ⟨rfl, rfl⟩
    refine ⟨?_, by simp [Call.startsContainers], by simp⟩
    show Function.update w.app_state app (some state) app ≠ some "stopped"
    rw [Function.update_self]
    simpa using hstate
  · rintro err es w' ⟨⟨o, -, rfl⟩, rfl⟩
    exact ⟨hw, by simp [Call.startsContainers]⟩

theorem timedPlaybook {p : Playbook} (hp : (Call.playbook p).startsContainers = false) :
    Proceeds app (Tasks.timedPlaybook ext p) :=
  get.bind fun _ => (call hp).bind fun _ => pure _

theorem launchTask (t : LaunchedTask) : Proceeds app (Tasks.launchTask ext t) :=
  get.bind fun _ => (call rfl).bind fun _ => call rfl

theorem forM {f : α → Task Unit} (hf : ∀ a, Proceeds app (f a)) : ∀ l : List α, Proceeds app (l.forM f)
  | [] => pure _
  | a :: l => (hf a).bind fun _ => forM hf l

theorem setupHadoopNetwork (h : HadoopStart) (app_containers : Option (List ContainerInfo))
    (app_files : AppFiles) (master : Option String × Option ContainerInfo) :
    Proceeds d.app (Tasks.setupHadoopNetwork ext d h app_containers app_files master) := by
  unfold Tasks.setupHadoopNetwork
  rcases h.global? with _ | data
  · refine (ofPy _).bind fun rm_host => (ofPy _).bind fun rm_container => ?_
    exact (call rfl).bind fun _ => pure _
  · by_cases hinput : hasGlobalInput data
    · simp only [hinput, if_true]
      refine (changeAppStateInDb (by decide)).bind fun _ => (ofPy _).bind fun rm_host =>
        (ofPy _).bind fun rm_container => (timedPlaybook rfl).bind fun _ => ?_
      exact (changeAppStateInDb (by decide)).bind fun _ => pure _
    · simp only [hinput, Bool.false_eq_true, if_false]
      exact (ofPy _).bind fun rm_host => (ofPy _).bind fun rm_container => (timedPlaybook rfl).bind fun _ =>
        pure _

theorem setupContainersHadoopNetworkTask (h : HadoopStart)
    (app_containers : Option (List ContainerInfo)) (app_files : AppFiles) :
    Proceeds d.app (Tasks.setupContainersHadoopNetworkTask ext d h app_containers app_files) := by
  unfold Tasks.setupContainersHadoopNetworkTask
  refine (ofPy _).bind fun master => (setupHadoopNetwork h _ _ _).bind fun download_time =>
    (ofPy _).bind fun rm_container => (ofPy _).bind fun rm_host => (call rfl).bind fun _ =>
    (call rfl).bind fun _ => Proceeds.bind ?_ fun upload_time => pure _
  unfold Tasks.uploadOutput
  rcases h.global? with _ | data
  · exact pure _
  · exact (changeAppStateInDb (by decide)).bind fun _ => timedPlaybook rfl

end Tasks.Proceeds

theorem not_starts_of_removes {c : Call} (h : c.removesFromDb) : c.startsContainers = false := by
  cases c <;> first | rfl | cases h

theorem WaitRaises.not_starts {power_budgeting : Bool} {app : String} {names : Option (List String)}
    {scaler_polling_freq : ℚ} (h : WaitRaises ext power_budgeting app names scaler_polling_freq w es) :
    ∀ x ∈ es, x.call.startsContainers = false := by
  have hscript : ∀ {enable : Bool}, ∀ x ∈ switched power_budgeting enable,
      x.call.startsContainers = false := by
    intro enable x hx
    obtain ⟨service, rfl⟩ := switched_script hx
    rfl
  rcases h with ⟨hcalls, -⟩ | ⟨-⟩ | ⟨-, hcalls, -⟩
  case failed =>
    intro x hx
    rcases hcalls x hx with ⟨service, enable, hcall⟩ | hcall
    · rw [hcall]
      rfl
    · exact not_starts_of_removes hcall
  case noContainers =>
    intro x hx
    exact (List.mem_append.1 hx).elim (hscript x) (hscript x)
  case late =>
    intro x hx
    simp only [List.mem_append] at hx
    rcases hx with hx | hx | hx
    · exact hscript x hx
    · exact not_starts_of_removes (mem_removalCalls hcalls hx)
    · exact hscript x hx

/-- Nothing that ends a Hadoop application leaves it stopped, unless only errors
    of the removal were collected. -/
theorem finishHadoopApp_does (h : HadoopStart) (app_containers : Option (List ContainerInfo))
    (app_files : AppFiles) (master : String × String × ℚ × ℚ) (hw : w.app_state d.app ≠ some "stopped") :
    Does World.history (finishHadoopApp ext cfg d h app_containers app_files master)
      (fun _ es _ => ∀ x ∈ es, x.outcome = .done)
      (fun _ es w' => (∀ x ∈ es, x.call.startsContainers = false) ∧
        (w'.app_state d.app ≠ some "stopped" ∨ ∃ x ∈ es, x.call.removesFromDb ∧ x.outcome = .refused)) w := by
  obtain ⟨rm_host, rm_container, download_time, upload_time⟩ := master
  unfold finishHadoopApp
  have hfirst : Tasks.Proceeds d.app (do
      updateTaskRuntime ext h.task_id
      playbook ext (.stop_hadoop_cluster rm_host rm_container)) :=
    (Tasks.Proceeds.call rfl).bind fun _ => Tasks.Proceeds.call rfl
  simp only
  rw [← bind_assoc]
  refine (hfirst w hw).seq ?_ fun _ es w' ⟨hw', hcalls⟩ => ⟨hcalls, .inl hw'⟩
  rintro _ es w₁ ⟨hw₁, hcalls, hdone⟩
  refine (removeAndWait_does cfg.power_budgeting d.app _ h.scaler_polling_freq).seq ?_ ?_
  · rintro errors es₂ w₂ ⟨names, deletes, -, rfl, hdeletes, hraised, herrors, rfl, -⟩
    have hoff : ∀ enable, ∀ x ∈ switched cfg.power_budgeting enable,
        x.call.startsContainers = false ∧ x.outcome = .done := by
      intro enable x hx
      obtain ⟨service, rfl⟩ := switched_script hx
      exact ⟨rfl, rfl⟩
    have hdeleted : ∀ x ∈ deletes, x.call.startsContainers = false := fun x hx =>
      not_starts_of_removes (mem_removalCalls hdeletes hx)
    have hremoval : ∀ x ∈ switched cfg.power_budgeting false ++
        (deletes ++ switched cfg.power_budgeting true), x.call.startsContainers = false := by
      simp only [List.forall_mem_append]
      exact ⟨fun x hx => (hoff _ x hx).1, hdeleted, fun x hx => (hoff _ x hx).1⟩
    refine (outputTimestamp_does app_files).seq ?_ fun _ _ _ h => h.elim
    rintro timestamp es₃ w₃ ⟨rfl, rfl⟩
    simp only [List.nil_append]
    rcases app_containers with _ | containers
    · refine Does.throw ⟨?_, .inl hw₁⟩
      simp only [List.append_nil]
      exact List.forall_mem_append.2 ⟨hcalls, hremoval⟩
    simp only [items, ofPy, pure_bind]
    have hlaunch : Tasks.Proceeds d.app (containers.forM fun c => launchTask ext
        (stopHadoopContainer d.app app_files rm_container timestamp download_time upload_time c)) :=
      Tasks.Proceeds.forM (fun _ => Tasks.Proceeds.launchTask _) containers
    refine (hlaunch (switchWorld ((switchWorld w₁ cfg.power_budgeting false).extend deletes)
      cfg.power_budgeting true) hw₁).seq ?_ ?_
    · rintro _ launches w₄ ⟨hw₄, hlaunches, hlaunched⟩
      have hlast : ∀ o, ∀ x ∈ es ++ (switched cfg.power_budgeting false ++ (deletes ++
          switched cfg.power_budgeting true) ++ (launches ++ [⟨.db (.app_state d.app "stopped"), o⟩])),
          x.call.startsContainers = false := by
        intro o
        refine List.forall_mem_append.2 ⟨hcalls, List.forall_mem_append.2 ⟨hremoval, ?_⟩⟩
        exact List.forall_mem_append.2 ⟨hlaunches, List.forall_mem_singleton.2 rfl⟩
      refine (changeAppStateInDb_does d.app "stopped").seq ?_ ?_
      · rintro _ es₅ w₅ ⟨rfl, rfl⟩
        refine (raiseErrors_does errors).mono ?_ ?_
        · rintro _ es₆ w₆ ⟨rfl, rfl, hnil⟩
          simp only [List.append_nil, List.forall_mem_append, List.forall_mem_singleton]
          exact ⟨hdone, ⟨fun x hx => (hoff _ x hx).2, herrors.1 hnil, fun x hx => (hoff _ x hx).2⟩,
            hlaunched, trivial⟩
        · rintro err es₆ w₆ ⟨rfl, rfl, hsome⟩
          rw [Ne, herrors] at hsome
          push Not at hsome
          obtain ⟨x, hx, hnot⟩ := hsome
          have hrefused : x.outcome = .refused := by
            rcases ho : x.outcome with _ | _ | err
            · exact absurd ho hnot
            · rfl
            · exact absurd ho (hraised x hx err)
          rw [List.append_nil]
          exact ⟨hlast _, .inr ⟨x, by simp [hx], mem_removalCalls hdeletes hx, hrefused⟩⟩
      · rintro err es₅ w₅ ⟨⟨o, -, rfl⟩, rfl⟩
        exact ⟨hlast o, .inl hw₄⟩
    · rintro err launches w₄ ⟨hw₄, hlaunches⟩
      refine ⟨?_, .inl hw₄⟩
      rw [List.forall_mem_append, List.forall_mem_append]
      exact ⟨hcalls, hremoval, hlaunches⟩
  · rintro err es₂ w₂ ⟨hstate, hraises⟩
    refine ⟨fun x hx => ?_, .inl (by rw [hstate]; exact hw₁)⟩
    rcases List.mem_append.1 hx with hx | hx
    · exact hcalls x hx
    · exact hraises.not_starts x hx

/-- How `start_hadoop_app_task` raises. -/
inductive HadoopRaises (ext : External) (cfg : PlatformConfig) (d : AppDeployment) (w : World) :
    List Event → World → Prop
  | notRunning {es : List Event} {w' : World} (hnot : ⟨.db (.app_state d.app "running"), .done⟩ ∉ es) :
      HadoopRaises ext cfg d w es w'
  | notDeployed {counted deploy : List Event} {err : PyError} {w₁ : World}
      (hcounted : ∀ x ∈ counted, x.outcome = .done)
      (hdeploy : DeployRaises ext cfg d ((w.extend counted).running d.app) err deploy w₁) :
      HadoopRaises ext cfg d w (counted ++ (⟨.db (.app_state d.app "running"), .done⟩ :: deploy)) w₁
  | notFinished {done rest : List Event} {w' : World} (hdone : ∀ x ∈ done, x.outcome = .done)
      (hcalls : ∀ x ∈ rest, x.call.startsContainers = false)
      (hstate : w'.app_state d.app ≠ some "stopped" ∨
        ∃ x ∈ rest, x.call.removesFromDb ∧ x.outcome = .refused) :
      HadoopRaises ext cfg d w (done ++ rest) w'

/-- **How `start_hadoop_app_task` ends.** -/
theorem startHadoopAppTask_does (d : AppDeployment) (h : HadoopStart) :
    Does World.history (startHadoopAppTask ext cfg d h) (fun _ es _ => ∀ x ∈ es, x.outcome = .done)
      (fun _ => HadoopRaises ext cfg { d with app_type := some h.app_type } w) w := by
  unfold startHadoopAppTask
  refine (call_does _).seq ?_ ?_
  swap
  · rintro err es w' ⟨rfl, rfl, -⟩
    exact .notRunning (by simp)
  rintro _ counted w₀ ⟨rfl, rfl, -⟩
  refine (changeAppStateInDb_does d.app "running").seq ?_ ?_
  swap
  · rintro err es w' ⟨⟨o, ho, rfl⟩, rfl⟩
    refine .notRunning fun hmem => ?_
    simp only [List.mem_append, List.mem_singleton, Event.mk.injEq, reduceCtorEq, false_and, true_and,
      false_or] at hmem
    exact ho hmem.symm
  rintro _ es w₁ ⟨rfl, rfl⟩
  refine (deployAppContainers_does { d with app_type := some h.app_type } _).seq ?_ ?_
  swap
  · intro err deploy w₂ hdeploy
    exact .notDeployed (by simp) hdeploy
  intro infos deploy w₂ hdeploy
  have hw₂ : w₂.app_state d.app ≠ some "stopped" := by
    rw [hdeploy.deploys.app_state]
    show Function.update w.app_state d.app (some "running") d.app ≠ some "stopped"
    rw [Function.update_self]
    simp
  let before : List Event := [⟨.hset ("app:" ++ d.app) "active_containers", .done⟩,
    ⟨.db (.app_state d.app "running"), .done⟩]
  have hbefore : ∀ x ∈ before, x.outcome = .done := by simp [before]
  refine ((Tasks.Proceeds.setupContainersHadoopNetworkTask h infos _) w₂ hw₂).seq ?_ ?_
  · rintro master es w₃ ⟨hw₃, hcalls, hdone⟩
    refine (finishHadoopApp_does h infos _ master hw₃).mono ?_ ?_
    · intro _ rest w' hrest
      simp only [List.forall_mem_append, List.forall_mem_singleton]
      exact ⟨trivial, trivial, hdeploy.done, hdone, hrest⟩
    · rintro err rest w' ⟨hrest, hstate⟩
      have hraises : HadoopRaises ext cfg { d with app_type := some h.app_type } w
          (before ++ (deploy ++ es) ++ rest) w' :=
        .notFinished (List.forall_mem_append.2 ⟨hbefore, List.forall_mem_append.2 ⟨hdeploy.done, hdone⟩⟩)
          hrest hstate
      simp only [List.append_assoc] at hraises
      exact hraises
  · rintro err rest w' ⟨hw', hcalls⟩
    have hraises : HadoopRaises ext cfg { d with app_type := some h.app_type } w
        (before ++ deploy ++ rest) w' :=
      .notFinished (List.forall_mem_append.2 ⟨hbefore, hdeploy.done⟩) hcalls (.inl hw')
    simp only [List.append_assoc] at hraises
    exact hraises

/-- **Which failures of `start_hadoop_app_task` leave nothing running.** -/
theorem hadoop_clean_iff {h : HadoopStart} (hfails : x₀.Fails)
    (hw' : w' = after (startHadoopAppTask ext cfg d h) w) (hes : w'.history = w.history ++ es)
    (hrunning : ⟨.db (.app_state d.app "running"), .done⟩ ∈ es) (hx₀ : x₀ ∈ es)
    (honly : ∀ x ∈ es, x.outcome ≠ .done → x = x₀) :
    LeftClean cfg d w w' ↔ x₀.call.startsContainers := by
  obtain ⟨-, hraises⟩ := hfails.task_raised (startHadoopAppTask_does d h) hw' hes hx₀
  rcases hraises with ⟨hnot⟩ | ⟨hcounted, hdeploy⟩ | ⟨hdone, hcalls, hstate⟩
  case notRunning => exact absurd hrunning hnot
  case notDeployed counted deploy err =>
    have hx : x₀ ∈ deploy := by
      refine (List.mem_cons.1 ((List.mem_append.1 hx₀).resolve_left fun hx => ?_)).resolve_left fun heq => ?_
      · exact hfails.not_done (hcounted x₀ hx)
      · exact hfails.not_done (congrArg Event.outcome heq)
    obtain ⟨hcall, hstate, hlists, hactive⟩ := hdeploy.of_failure hfails hx fun x hx =>
      honly x (by simp [hx])
    exact iff_of_true ⟨hstate, hlists, hactive⟩ hcall
  case notFinished done rest =>
    have hx := (List.mem_append.1 hx₀).resolve_left fun hx => hfails.not_done (hdone x₀ hx)
    rw [hcalls x₀ hx]
    refine iff_of_false (fun hleft => ?_) (by simp)
    rcases hstate with hstate | ⟨x, hx, hremoves, hrefused⟩
    · exact hstate hleft.state
    · obtain rfl := honly x (by simp [hx]) (by simp [hrefused])
      obtain ⟨err, hraised⟩ := hfails.raised hremoves
      rw [hrefused] at hraised
      cases hraised

/-! ## Both tasks -/

/-- The tasks that start an application, with the arguments that the plan leaves out;
    callbacks are switched off. -/
inductive AppTask where
  | start_app_task (task_id : String)
  | start_hadoop_app_task (h : HadoopStart)

def AppTask.run (ext : External) (cfg : PlatformConfig) (d : AppDeployment) : AppTask → Task Unit
  | start_app_task task_id => startAppTask ext cfg false task_id d
  | start_hadoop_app_task h => startHadoopAppTask ext cfg d h

/-- The failures after which the task leaves nothing. -/
def AppTask.recovers : AppTask → Call → Bool
  | start_app_task _ => startAppRecovers
  | start_hadoop_app_task _ => Call.startsContainers

/-- **Which failures of a start leave nothing running.** -/
theorem failed_start_clean_iff (ext : External) (cfg : PlatformConfig) (t : AppTask)
    {d : AppDeployment} {w w' : World} {es : List Event} {x₀ : Event} (hfails : x₀.Fails)
    (hw' : w' = after (t.run ext cfg d) w) (hes : w'.history = w.history ++ es)
    (hrunning : ⟨.db (.app_state d.app "running"), .done⟩ ∈ es) (hx₀ : x₀ ∈ es)
    (honly : ∀ x ∈ es, x.outcome ≠ .done → x = x₀) :
    LeftClean cfg d w w' ↔ t.recovers x₀.call := by
  cases t with
  | start_app_task task_id => exact startApp_clean_iff hfails hw' hes hrunning hx₀ honly
  | start_hadoop_app_task h => exact hadoop_clean_iff hfails hw' hes hrunning hx₀ honly

/-- Everything succeeds, but for the given call. -/
def External.failing (c : Call) : External :=
  { External.healthy with raises := fun _ c' => if c' = c then some (.exception "failed") else none }

/-- The second of the two containers. -/
def secondContainer : ContainerInfo where
  container_name := "host0-cont1"
  host := "host0"
  cpu := (Request.of 100 1024 0 0 0).res .cpu
  mem := (Request.of 100 1024 0 0 0).res .mem
  energy := none
  disk := none

/-- The application cannot be started in the second container. -/
theorem failed_start_clean_iff_start :
    let c := startAppCall "app" .empty secondContainer
    LeftClean .plain .two (.initial inventoryOfOne)
      (after ((AppTask.start_app_task "task").run (.failing c) .plain .two) (.initial inventoryOfOne)) := by
  intro c
  obtain ⟨w', hw'⟩ : ∃ w', w' = after ((AppTask.start_app_task "task").run (.failing c) .plain .two)
    (.initial inventoryOfOne) := ⟨_, rfl⟩
  have hrunning : ⟨.db (.app_state "app" "running"), .done⟩ ∈ w'.history := by
    rw [hw']
    decide +kernel
  have hx₀ : ⟨c, .raised (.exception "failed")⟩ ∈ w'.history := by
    rw [hw']
    decide +kernel
  have honly : ∀ x ∈ w'.history, x.outcome ≠ .done → x = ⟨c, .raised (.exception "failed")⟩ := by
    rw [hw']
    decide +kernel
  have hes : w'.history = (World.initial inventoryOfOne).history ++ w'.history := (List.nil_append _).symm
  rw [← hw']
  exact (failed_start_clean_iff (.failing c) .plain (.start_app_task "task") (.playbook _ _) hw' hes
    hrunning hx₀ honly).2 rfl

/-- The wait for the second container fails: the application stays `running`. -/
theorem failed_start_not_clean : ∃ (ext : External) (x₀ : Event),
    let w' := after ((AppTask.start_app_task "task").run ext .plain .two) (.initial inventoryOfOne)
    x₀.Fails ∧ x₀ ∈ w'.history ∧ ⟨.db (.app_state "app" "running"), .done⟩ ∈ w'.history ∧
      (∀ x ∈ w'.history, x.outcome ≠ .done → x = x₀) ∧ ¬ LeftClean .plain .two (.initial inventoryOfOne) w' := by
  refine ⟨.failing (waitCall "host0" secondContainer),
    ⟨waitCall "host0" secondContainer, .raised (.exception "failed")⟩, .playbook _ _, ?_, ?_, ?_,
    fun hleft => ?_⟩
  · decide +kernel
  · decide +kernel
  · decide +kernel
  · have hstate := hleft.state
    revert hstate
    decide +kernel

end ServerlessYarn
