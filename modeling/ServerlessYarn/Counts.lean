/-
  ServerlessYARN model — no container is lost or duplicated by the placement.

  Every placement moves one container from `containers_to_allocate` to the
  assignation of a host, so their sum is an invariant of all policies; the
  formatting of the result keeps it, with `bigger` and `smaller` merged.

  * `Reaches.assigned_eq`: when nothing is left, the containers assigned are
    those that were to be allocated;
  * `assignation_counts`: what `getContainerAssignationForApp` returns holds
    exactly the requested containers.
-/
import Mathlib.Algebra.Order.BigOperators.Group.Finset
import Mathlib.Algebra.Order.Group.Int
import Mathlib.Algebra.BigOperators.Ring.Finset
import ServerlessYarn.Assignation
import ServerlessYarn.LoopBounds

namespace ServerlessYarn

/-! ## Counting containers -/

/-- `host_assignation.get(t, 0)`. -/
def HostAssignation.count (a : HostAssignation) (t : ContainerType) : ℕ := (a t).getD 0

/-- The containers of a type on a host. -/
def Plan.count (s : Plan) (name : String) (t : ContainerType) : ℕ :=
  ((s.assignation.get? name).map (·.count t)).getD 0

/-- The containers of a type on all hosts. -/
def Plan.assigned (s : Plan) (t : ContainerType) : ℕ := s.assignation.sum fun _ a => a.count t

/-- Only `regular` has an entry without containers. -/
def Plan.KeysPositive (s : Plan) : Prop :=
  ∀ name a t, s.assignation.get? name = some a → t ≠ .regular → a t ≠ some 0

theorem HostAssignation.count_update (a : HostAssignation) (t t' : ContainerType) :
    HostAssignation.count (Function.update a t (some ((a t).getD 0 + 1))) t' =
      a.count t' + if t = t' then 1 else 0 := by
  by_cases h : t = t'
  · subst h; simp [count]
  · simp [count, h, Function.update_of_ne (Ne.symm h)]

section step
variable {e : Env} {tr : Tracking} {s s' : Plan} {ev : Placement}

theorem Placed.assignation (h : Placed e tr s ev s') : s'.assignation =
    s.assignation.modify ev.host fun a =>
      Function.update a ev.type (some ((a ev.type).getD 0 + 1)) := by
  obtain ⟨c, host, -, -, -, -, rfl⟩ := h.step
  rfl

theorem Placed.hosts_keys (h : Placed e tr s ev s') : s'.hosts.keys = s.hosts.keys := by
  obtain ⟨c, host, -, -, -, -, rfl⟩ := h.step
  exact Dict.keys_modify _ _ _

theorem Placed.host_mem (h : Placed e tr s ev s') : ev.host ∈ s.hosts.keys := by
  obtain ⟨c, host, -, hhost, -⟩ := h.step
  exact Dict.mem_keys_of_get? hhost

theorem Placed.count (h : Placed e tr s ev s') (name : String) (t : ContainerType) :
    s'.count name t = s.count name t + if ev.host = name ∧ ev.type = t then 1 else 0 := by
  unfold Plan.count
  rw [h.assignation, Dict.get?_modify]
  by_cases hn : name = ev.host
  · subst hn
    obtain ⟨a, ha⟩ := Dict.mem_keys_iff.1 h.assigned
    simp [ha, HostAssignation.count_update]
  · simp [hn, Ne.symm hn]

theorem Placed.assigned_eq (h : Placed e tr s ev s') (t : ContainerType) :
    s'.assigned t = s.assigned t + if ev.type = t then 1 else 0 := by
  obtain ⟨a, ha⟩ := Dict.mem_keys_iff.1 h.assigned
  unfold Plan.assigned
  rw [h.assignation]
  exact Dict.sum_modify _ ha (HostAssignation.count_update a ev.type t)

/-- **A placement moves one container from those left to a host.** -/
theorem Placed.assigned_add (h : Placed e tr s ev s') (t : ContainerType) :
    s'.assigned t + s'.containers_to_allocate t = s.assigned t + s.containers_to_allocate t := by
  rw [h.assigned_eq, h.toAllocate, Function.update_apply]
  by_cases ht : t = ev.type
  · subst ht; simp only [if_true]; push_cast; omega
  · simp [ht, Ne.symm ht]

theorem Placed.toAllocate_nonneg (h : Placed e tr s ev s')
    (h0 : ∀ t, 0 ≤ s.containers_to_allocate t) (t : ContainerType) :
    0 ≤ s'.containers_to_allocate t := by
  have hpos := h.pos
  rw [h.toAllocate, Function.update_apply]
  split_ifs with ht
  · omega
  · exact h0 t

theorem Placed.keysPositive (h : Placed e tr s ev s') (h0 : s.KeysPositive) : s'.KeysPositive := by
  intro name a t ha ht
  rw [h.assignation, Dict.get?_modify] at ha
  split_ifs at ha with hn
  · obtain ⟨a₀, ha₀, rfl⟩ := Option.map_eq_some_iff.1 ha
    by_cases htt : t = ev.type
    · subst htt; simp
    · rw [Function.update_of_ne htt]
      exact h0 name a₀ t ha₀ ht
  · exact h0 name a t ha ht

theorem count_of_run {evs : List Placement} (h : Run (Placed e tr) s evs s') (name : String)
    (t : ContainerType) :
    s'.count name t = s.count name t + evs.countP fun ev => ev.host = name ∧ ev.type = t := by
  refine h.inv_hist (I := fun evs s' => s'.count name t =
    s.count name t + evs.countP fun ev => ev.host = name ∧ ev.type = t) (by simp) ?_
  intro es s₁ ev s₂ _ hI hst
  rw [hst.count, hI, List.countP_append, List.countP_singleton]
  simp only [decide_eq_true_eq]
  omega

/-- No more containers are placed than there were to allocate. -/
theorem countP_le_toAllocate {evs : List Placement} (h : Run (Placed e tr) s evs s')
    (t : ContainerType) :
    (evs.countP fun ev => ev.type = t) ≤ (s.containers_to_allocate t).toNat := by
  have hinv : ((evs.countP fun ev => ev.type = t : ℕ) : ℤ) + s'.containers_to_allocate t =
      s.containers_to_allocate t ∧
      (0 < (evs.countP fun ev => ev.type = t) → 0 ≤ s'.containers_to_allocate t) := by
    refine h.inv_hist (I := fun evs s' => ((evs.countP fun ev => ev.type = t : ℕ) : ℤ) +
      s'.containers_to_allocate t = s.containers_to_allocate t ∧
      (0 < (evs.countP fun ev => ev.type = t) → 0 ≤ s'.containers_to_allocate t)) (by simp) ?_
    rintro es s₁ ev s₂ - ⟨hsum, hpos⟩ hst
    have hev := hst.pos
    rw [List.countP_append, List.countP_singleton, hst.toAllocate, Function.update_apply]
    by_cases ht : t = ev.type
    · subst ht
      simp only [decide_true, if_true]
      push_cast
      omega
    · simp only [Ne.symm ht, ht, decide_false, Bool.false_eq_true, if_false, Nat.add_zero]
      exact ⟨hsum, hpos⟩
  omega

end step

namespace Reaches
variable {e : Env} {tr : Tracking} {s s' : Plan}

theorem inv {I : Plan → Prop} (hs : ∀ s ev s', I s → Placed e tr s ev s' → I s')
    (h : Reaches e tr s s') (h0 : I s) : I s' := h.choose_spec.inv hs h0

/-- A host without record gets no container. -/
theorem assignation_of_notMem (h : Reaches e tr s s') {name : String} (hn : name ∉ s.hosts.keys) :
    s'.assignation.get? name = s.assignation.get? name := by
  refine (h.inv (I := fun s₁ => s₁.hosts.keys = s.hosts.keys ∧
    s₁.assignation.get? name = s.assignation.get? name) ?_ ⟨rfl, rfl⟩).2
  rintro s₁ ev s₂ ⟨hk, ha⟩ hst
  refine ⟨hst.hosts_keys.trans hk, ?_⟩
  have hne : name ≠ ev.host := by
    rintro rfl
    exact hn (hk ▸ hst.host_mem)
  rw [hst.assignation, Dict.get?_modify_of_ne _ _ hne, ha]

theorem keysPositive (h : Reaches e tr s s') (h0 : s.KeysPositive) : s'.KeysPositive :=
  h.inv (fun _ _ _ hI hst => hst.keysPositive hI) h0

/-- **When nothing is left, what was to be allocated has been assigned.** -/
theorem assigned_eq (h : Reaches e tr s s') (h0 : ∀ t, 0 ≤ s.containers_to_allocate t)
    (hleft : containersNotAllocated s'.containers_to_allocate ≤ 0) (t : ContainerType) :
    (s'.assigned t : ℤ) = s.assigned t + s.containers_to_allocate t := by
  have hsum : s'.assigned t + s'.containers_to_allocate t =
      s.assigned t + s.containers_to_allocate t :=
    h.inv (I := fun s₁ => s₁.assigned t + s₁.containers_to_allocate t =
      s.assigned t + s.containers_to_allocate t)
      (fun _ _ _ hI hst => (hst.assigned_add t).trans hI) rfl
  have hnn : ∀ t, 0 ≤ s'.containers_to_allocate t :=
    h.inv (I := fun s₁ => ∀ t, 0 ≤ s₁.containers_to_allocate t)
      (fun _ _ _ hI hst => hst.toAllocate_nonneg hI) h0
  have ht : s'.containers_to_allocate t ≤ containersNotAllocated s'.containers_to_allocate :=
    Finset.single_le_sum (fun t _ => hnn t) (Finset.mem_univ t)
  have := hnn t
  omega

end Reaches

/-! ## The policies -/

theorem map_some_eq_ok {α : Type} {x : Py α} {a : α} :
    (some <$> x) = .ok (some a) ↔ x = .ok a := by
  cases x <;> simp [Functor.map, Except.map]

/-- **Every policy is a run of its iterations.** -/
theorem applyPolicy_run {e : Env} {assignation_policy : String} {s s' : Plan}
    (h : applyPolicy e assignation_policy s = .ok (some s')) :
    PolicyRun e assignation_policy s s' := by
  unfold applyPolicy at h
  split_ifs at h with hf hc hb hlist
  · exact hf ▸ assignFillUp_run (map_some_eq_ok.1 h)
  · exact assignCyclic_run hf (hc ▸ by decide) (map_some_eq_ok.1 h)
  · exact hb ▸ assignBestEffort_run (map_some_eq_ok.1 h)
  · exact assignCyclic_run hf hb (map_some_eq_ok.1 h)
  · cases pure_eq_ok.1 h

theorem planContainers_reaches {q : AppRequest} {s : Plan}
    (h : planContainers q = .ok (some s)) :
    Reaches q.env (policyTracking q.env q.assignation_policy) q.initial s :=
  (applyPolicy_run h).reaches

/-! ## The initial state -/

/-- The number of special types requested. -/
def ContainerResources.special (cr : ContainerResources) : ℤ :=
  (if cr.bigger.isSome then 1 else 0) + (if cr.smaller.isSome then 1 else 0) +
    (if cr.rm_nn.isSome then 1 else 0)

theorem AppRequest.initial_assignation (q : AppRequest) (name : String) :
    q.initial.assignation.get? name =
      if name ∈ q.initial.hosts.keys then some (.single .regular 0)
      else if q.reserved ∧ name = q.server_name then some (.single .rm_nn 1) else none := by
  by_cases hr : q.reserved
  · have hr' : reservesServer q.cfg q.container_resources := hr
    simp [initial, initialPlan, hr', hr, Dict.get?_setAll, Dict.get?_set]
  · have hr' : ¬ reservesServer q.cfg q.container_resources := hr
    simp [initial, initialPlan, hr', hr, Dict.get?_setAll]

theorem AppRequest.initial_hosts (q : AppRequest) (name : String) :
    q.initial.hosts.get? name =
      if q.reserved ∧ name = q.server_name then none else q.hosts.get? name := by
  by_cases hr : q.reserved
  · have hr' : reservesServer q.cfg q.container_resources := hr
    simp [initial, initialPlan, hr', hr]
  · have hr' : ¬ reservesServer q.cfg q.container_resources := hr
    simp [initial, initialPlan, hr', hr]

/-- The reserved server is not among the hosts of the placement. -/
theorem AppRequest.initial_server {q : AppRequest} (hres : q.reserved) :
    q.server_name ∉ q.initial.hosts.keys := by
  rw [← Dict.get?_eq_none_iff, q.initial_hosts, if_pos ⟨hres, rfl⟩]

theorem AppRequest.initial_keysPositive (q : AppRequest) : q.initial.KeysPositive := by
  intro name a t ha ht
  rw [q.initial_assignation] at ha
  split_ifs at ha
  · cases ha
    simp [HostAssignation.single, Function.update_of_ne ht]
  · cases ha
    by_cases hrm : t = .rm_nn
    · subst hrm; simp [HostAssignation.single]
    · simp [HostAssignation.single, Function.update_of_ne hrm]

theorem AppRequest.initial_assigned (q : AppRequest) (t : ContainerType) :
    q.initial.assigned t = if q.reserved ∧ t = .rm_nn then 1 else 0 := by
  have hzero : ∀ ks : List String,
      (ks.map fun _ => (HostAssignation.single .regular 0).count t).sum = 0 := by
    intro ks
    have : (HostAssignation.single .regular 0).count t = 0 := by
      cases t <;> simp [HostAssignation.count, HostAssignation.single]
    simp [this]
  by_cases hr : q.reserved
  · have hr' : reservesServer q.cfg q.container_resources := hr
    have hnot := q.initial_server hr
    simp only [AppRequest.initial, initialPlan, hr', if_true] at hnot
    simp only [Plan.assigned, AppRequest.initial, initialPlan, hr', if_true]
    rw [Dict.sum_setAll_of_disjoint _ _ _ _ (Dict.nodup_keys _), hzero,
      Dict.sum_set_of_notMem _ _ _ (by simp)]
    · cases t <;> simp [hr, HostAssignation.count, HostAssignation.single]
    · intro k hk hk'
      rcases Dict.mem_keys_set.1 hk' with rfl | hk'
      · exact hnot hk
      · simp at hk'
  · have hr' : ¬ reservesServer q.cfg q.container_resources := hr
    simp only [Plan.assigned, AppRequest.initial, initialPlan, hr', if_false, Bool.false_eq_true]
    rw [Dict.sum_setAll_of_disjoint _ _ _ _ (Dict.nodup_keys _) (by simp), hzero]
    simp [hr]

theorem AppRequest.initial_toAllocate (q : AppRequest) (t : ContainerType) :
    q.initial.containers_to_allocate t =
      if q.reserved ∧ t = .rm_nn then 0
      else toAllocate q.container_resources q.number_of_containers t := by
  by_cases hr : q.reserved
  · have hr' : reservesServer q.cfg q.container_resources := hr
    by_cases ht : t = .rm_nn
    · subst ht; simp [AppRequest.initial, initialPlan, hr, hr']
    · simp [AppRequest.initial, initialPlan, hr, hr', ht, Function.update_of_ne]
  · have hr' : ¬ reservesServer q.cfg q.container_resources := hr
    simp [AppRequest.initial, initialPlan, hr, hr']

/-- Together with the reserved server, the requested containers are to be
    allocated. -/
theorem AppRequest.initial_total (q : AppRequest) (t : ContainerType) :
    q.initial.assigned t + q.initial.containers_to_allocate t =
      toAllocate q.container_resources q.number_of_containers t := by
  rw [q.initial_assigned, q.initial_toAllocate]
  by_cases h : q.reserved ∧ t = .rm_nn
  · obtain ⟨hr, rfl⟩ := h
    have hrm : q.container_resources.rm_nn.isSome := by
      have hr' : reservesServer q.cfg q.container_resources := hr
      simp only [reservesServer, Bool.and_eq_true] at hr'
      exact hr'.1.1
    simp [hr, toAllocate, hrm]
  · simp [h]

theorem AppRequest.initial_nonneg {q : AppRequest}
    (hn : q.container_resources.special ≤ q.number_of_containers) (t : ContainerType) :
    0 ≤ q.initial.containers_to_allocate t := by
  rw [q.initial_toAllocate]
  unfold ContainerResources.special at hn
  split_ifs
  · rfl
  · cases t <;> simp only [toAllocate] <;> split_ifs at hn ⊢ <;> omega

/-! ## The result -/

/-- `new_containers.get(name, {}).get(dt)`. -/
def AssignationResult.get? (r : AssignationResult) (name : String) (dt : DeployType) : Option ℕ :=
  (r.new_containers.get? name).bind fun nc => nc dt

/-- The containers of a deployment type on all hosts. -/
def AssignationResult.total (r : AssignationResult) (dt : DeployType) : ℕ :=
  r.new_containers.sum fun _ nc => (nc dt).getD 0

theorem sum_deployed {M : Type} [AddCommMonoid M] (f : ContainerType → M) (dt : DeployType) :
    ∑ t with t.deployed = dt, f t =
      match dt with
      | .rm_nn => f .rm_nn
      | .irregular => f .bigger + f .smaller
      | .regular => f .regular := by
  cases dt with
  | rm_nn =>
    have hf : ({t | t.deployed = .rm_nn} : Finset ContainerType) = {.rm_nn} := by decide
    rw [hf, Finset.sum_singleton]
  | irregular =>
    have hf : ({t | t.deployed = .irregular} : Finset ContainerType) = {.bigger, .smaller} := by
      decide
    rw [hf, Finset.sum_pair (by decide)]
  | regular =>
    have hf : ({t | t.deployed = .regular} : Finset ContainerType) = {.regular} := by decide
    rw [hf, Finset.sum_singleton]

/-- The formatting merges the types with one deployment type. -/
theorem formatHost_getD (a : HostAssignation) (dt : DeployType) :
    (formatHost a dt).getD 0 = ∑ t with t.deployed = dt, a.count t := by
  rw [sum_deployed]
  cases dt with
  | rm_nn => rfl
  | irregular =>
    cases hb : a .bigger <;> cases hs : a .smaller <;>
      simp [formatHost, HostAssignation.count, hb, hs]
  | regular =>
    simp only [formatHost, HostAssignation.count]
    split_ifs with h
    · rfl
    · simpa using (Nat.eq_zero_of_not_pos h).symm

theorem formatAssignation_get? (assignation : Dict String HostAssignation) (name : String)
    (dt : DeployType) :
    ((formatAssignation assignation).get? name).bind (fun nc => nc dt) =
      (assignation.get? name).bind fun a => formatHost a dt := by
  unfold formatAssignation
  rw [Dict.get?_filterMap]
  rcases assignation.get? name with _ | a
  · rfl
  · simp only [Option.bind_some]
    split_ifs with h
    · rfl
    · simp only [not_exists, Option.not_isSome_iff_eq_none] at h
      simp [h dt]

theorem formatAssignation_sum (assignation : Dict String HostAssignation) (dt : DeployType) :
    ((formatAssignation assignation).sum fun _ nc => (nc dt).getD 0) =
      assignation.sum fun _ a => (formatHost a dt).getD 0 := by
  unfold formatAssignation
  rw [Dict.sum_filterMap]
  refine Dict.sum_congr fun k a _ => ?_
  split_ifs with h
  · rfl
  · simp only [not_exists, Option.not_isSome_iff_eq_none] at h
    simp [h dt]

theorem Plan.formatted_total (s : Plan) (dt : DeployType) :
    ((formatAssignation s.assignation).sum fun _ nc => (nc dt).getD 0) =
      ∑ t with t.deployed = dt, s.assigned t := by
  rw [formatAssignation_sum, Dict.sum_congr fun _ a _ => formatHost_getD a dt]
  simp only [Dict.sum, Plan.assigned]
  induction s.assignation.entries with
  | nil => simp
  | cons e es ih => simp only [List.map_cons, List.sum_cons, ih, Finset.sum_add_distrib]

/-- **The containers of a successful call**, per deployment type. -/
theorem AssignationResult.total_eq {q : AppRequest} {r : AssignationResult}
    (hn : q.container_resources.special ≤ q.number_of_containers)
    (h : getContainerAssignationForApp q = .ok r) (herr : r.error = none) (dt : DeployType) :
    (r.total dt : ℤ) =
      ∑ t with t.deployed = dt, toAllocate q.container_resources q.number_of_containers t := by
  obtain ⟨s, hs, hleft, rfl⟩ := getContainerAssignationForApp_ok h herr
  have hall : ∀ t, (s.assigned t : ℤ) =
      toAllocate q.container_resources q.number_of_containers t := by
    intro t
    rw [(planContainers_reaches hs).assigned_eq (AppRequest.initial_nonneg hn) hleft,
      q.initial_total]
  simp only [AssignationResult.total, Plan.formatted_total]
  rw [Nat.cast_sum]
  exact Finset.sum_congr rfl fun t _ => hall t

/-- The master has an entry on one host if it has one container in all. -/
theorem AssignationResult.master_unique {q : AppRequest} {r : AssignationResult}
    (h : getContainerAssignationForApp q = .ok r) (herr : r.error = none)
    (hone : r.total .rm_nn = 1) :
    ∃ name, r.get? name .rm_nn = some 1 ∧ ∀ name', name' ≠ name → r.get? name' .rm_nn = none := by
  obtain ⟨s, hs, -, rfl⟩ := getContainerAssignationForApp_ok h herr
  have hpos : s.KeysPositive := (planContainers_reaches hs).keysPositive q.initial_keysPositive
  have hzero : ∀ name a, s.assignation.get? name = some a → (a .rm_nn).getD 0 = 0 →
      a .rm_nn = none := by
    intro name a ha h0
    rcases hm : a .rm_nn with _ | m
    · rfl
    · rw [hm, Option.getD_some] at h0
      exact absurd (h0 ▸ hm) (hpos name a .rm_nn ha (by decide))
  simp only [AssignationResult.total, formatAssignation_sum] at hone
  obtain ⟨name, a, ha, hone, hrest⟩ := Dict.exists_of_sum_eq_one hone
  simp only [AssignationResult.get?, formatAssignation_get?]
  refine ⟨name, ?_, fun name' hne => ?_⟩
  · rw [ha, Option.bind_some]
    rcases hm : a .rm_nn with _ | m
    · simp [formatHost, hm] at hone
    · simp only [formatHost, hm, Option.getD_some] at hone ⊢
      rw [hone]
  · rcases ha' : s.assignation.get? name' with _ | a'
    · rfl
    · exact hzero name' a' ha' (hrest name' a' ha' hne)

theorem AssignationResult.master_none {q : AppRequest} {r : AssignationResult}
    (h : getContainerAssignationForApp q = .ok r) (herr : r.error = none)
    (hzero : r.total .rm_nn = 0) (name : String) : r.get? name .rm_nn = none := by
  obtain ⟨s, hs, -, rfl⟩ := getContainerAssignationForApp_ok h herr
  have hpos : s.KeysPositive := (planContainers_reaches hs).keysPositive q.initial_keysPositive
  simp only [AssignationResult.total, formatAssignation_sum] at hzero
  simp only [AssignationResult.get?, formatAssignation_get?]
  rcases ha : s.assignation.get? name with _ | a
  · rfl
  · have h0 := Dict.eq_zero_of_sum_eq_zero hzero ha
    rcases hm : a .rm_nn with _ | m
    · exact hm
    · simp only [formatHost, hm, Option.getD_some] at h0
      exact absurd (h0 ▸ hm) (hpos name a .rm_nn ha (by decide))

/-- The reserved server holds the master and nothing else. -/
theorem AssignationResult.reserved_server {q : AppRequest} {r : AssignationResult}
    (h : getContainerAssignationForApp q = .ok r) (herr : r.error = none) (hres : q.reserved) :
    r.get? q.server_name .rm_nn = some 1 ∧ r.get? q.server_name .regular = none ∧
      r.get? q.server_name .irregular = none := by
  obtain ⟨s, hs, -, rfl⟩ := getContainerAssignationForApp_ok h herr
  have hget : s.assignation.get? q.server_name = some (.single .rm_nn 1) := by
    rw [(planContainers_reaches hs).assignation_of_notMem (AppRequest.initial_server hres),
      q.initial_assignation, if_neg (AppRequest.initial_server hres), if_pos ⟨hres, rfl⟩]
  simp only [AssignationResult.get?, formatAssignation_get?, hget, Option.bind_some]
  decide

/-- **No container is lost or duplicated.**  A successful call assigns the
    requested containers, the master once, and with the reserved server on it
    alone; a call with an error assigns none. -/
theorem assignation_counts (q : AppRequest) (r : AssignationResult)
    (hn : q.container_resources.special ≤ q.number_of_containers)
    (h : getContainerAssignationForApp q = .ok r) :
    (r.error = none →
      (r.total .regular : ℤ) = q.number_of_containers - q.container_resources.special ∧
      r.total .irregular = (if q.container_resources.bigger.isSome then 1 else 0) +
        (if q.container_resources.smaller.isSome then 1 else 0) ∧
      r.total .irregular ≤ 1 ∧
      (q.container_resources.rm_nn.isSome →
        ∃ name, r.get? name .rm_nn = some 1 ∧
          ∀ name', name' ≠ name → r.get? name' .rm_nn = none) ∧
      (q.container_resources.rm_nn = none → ∀ name, r.get? name .rm_nn = none) ∧
      (q.reserved → r.get? q.server_name .rm_nn = some 1 ∧
        r.get? q.server_name .regular = none ∧ r.get? q.server_name .irregular = none)) ∧
    (r.error.isSome → r.new_containers = .empty) := by
  refine ⟨fun herr => ?_, getContainerAssignationForApp_error h⟩
  have hreg := AssignationResult.total_eq hn h herr .regular
  have hirr := AssignationResult.total_eq hn h herr .irregular
  have hrm := AssignationResult.total_eq hn h herr .rm_nn
  simp only [sum_deployed, toAllocate] at hreg hirr hrm
  refine ⟨?_, ?_, ?_, fun hs => ?_, fun hs => ?_, AssignationResult.reserved_server h herr⟩
  · unfold ContainerResources.special; omega
  · split_ifs at hirr ⊢ <;> omega
  · rcases q.container_resources.one_irregular with ho | ho <;> simp only [ho] at hirr <;>
      split_ifs at hirr <;> simp_all
  · rw [if_pos hs] at hrm
    exact AssignationResult.master_unique h herr (by omega)
  · rw [hs] at hrm
    exact AssignationResult.master_none h herr (by simpa using hrm)

/-- A Hadoop application of three containers, the master on the reserved server. -/
theorem assignation_counts_hadoop : ∃ q r,
    q.container_resources.special ≤ q.number_of_containers ∧
    getContainerAssignationForApp q = .ok r ∧ r.error = none ∧ q.reserved = true ∧
    (r.total .regular : ℤ) = 1 ∧ r.total .irregular = 1 ∧
    r.get? q.server_name .rm_nn = some 1 := by
  let host : Host := ⟨fun _ => 4, 10, some (Dict.empty.set "ssd0" ⟨"/ssd0", 20, 20, 20, 20⟩)⟩
  let q : AppRequest :=
    { cfg := ⟨true, true, false, true, true⟩
      server_name := "server"
      assignation_policy := "Cyclic"
      allow_oversubscription := false
      hosts := (Dict.empty.set "server" host).set "host0" host
      number_of_containers := 3
      container_resources := ⟨.of 1 1 0 2 2, some (.of 2 2 0 3 3), none, some (.of 1 1 0 0 0),
        .inr rfl⟩
      app_name := "hadoop" }
  have hn : q.container_resources.special ≤ q.number_of_containers := by decide +kernel
  obtain ⟨r, hq⟩ := Option.isSome_iff_exists.1 (show q.result?.isSome by decide +kernel)
  obtain ⟨hr, herr⟩ := AppRequest.result?_eq_some.1 hq
  obtain ⟨hreg, hirr, -, -, -, hres⟩ := (assignation_counts q r hn hr).1 herr
  exact ⟨q, r, hn, hr, herr, rfl, hreg, hirr, (hres rfl).1⟩

end ServerlessYarn
