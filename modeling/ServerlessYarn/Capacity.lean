/-
  ServerlessYARN model — capacity of the hosts.

  A resource that a policy checks and subtracts is a ledger over the hosts:
  every placement charges its host with what the container requests.  This
  holds of cpu and mem under every policy, and of energy under Best-effort only
  (Fill-up and Cyclic check it but never subtract it).

  * `Reaches.load_le`: the containers of a host request no more of such a
    resource than the host had free;
  * `cpu_mem_respected`: cpu and mem are never over-committed.
-/
import Mathlib.Algebra.Module.BigOperators
import Mathlib.Algebra.Order.Module.Defs
import Mathlib.Tactic.Linarith
import ServerlessYarn.Counts
import ServerlessYarn.Lib.Ledger

namespace ServerlessYarn

/-! ## The ledger of a resource -/

/-- `container_resources[t][f'{r}_{limit_key}']`. -/
def Env.cost (e : Env) (r : Resource) (t : ContainerType) : ℚ :=
  ((e.container_resources.get? t).map (·.get r e.limit_key)).getD 0

/-- The free amount of `r` on a host. -/
def Hosts.free (hosts : Hosts) (r : Resource) (name : String) : ℚ :=
  ((hosts.get? name).map (·.free r)).getD 0

/-- The policy checks and subtracts the resource. -/
def Tracking.Charges (tr : Tracking) (e : Env) (r : Resource) : Prop :=
  r = .energy → tr.energy ∧ e.check_energy

theorem Tracking.charges_of_ne {tr : Tracking} {e : Env} {r : Resource} (h : r ≠ .energy) :
    tr.Charges e r := fun hr => absurd hr h

section ledger
variable {e : Env} {tr : Tracking} {s s' : Plan} {r : Resource}

/-- **A placement charges its host**, for every resource the policy charges. -/
theorem Placed.charge {ev : Placement} (hr : tr.Charges e r) (h : Placed e tr s ev s') :
    Ledger.Charge (fun ev => some ev.host) (fun ev => e.cost r ev.type) (s.hosts.free r) ev
      (s'.hosts.free r) := by
  obtain ⟨c, host, hc, hhost, hacc, -, rfl⟩ := h.step
  have hcost : e.cost r ev.type = c.get r e.limit_key := by simp [Env.cost, hc]
  intro name
  simp only [Option.some.injEq]
  split_ifs with hn
  · subst hn
    have hfree : s.hosts.free r ev.host = host.free r := by simp [Hosts.free, hhost]
    have hplace : (s.place tr c e.limit_key ev).hosts.free r ev.host =
        host.free r - c.get r e.limit_key := by
      simp only [Hosts.free, Plan.place, Dict.get?_modify_self, hhost, Option.map_some,
        Option.getD_some, Host.place_free]
      rw [if_neg]
      rintro ⟨hen, htr⟩
      simp [(hr hen).1] at htr
    rw [hcost, hfree, hplace]
    refine ⟨?_, rfl⟩
    cases r with
    | cpu => exact hacc.1
    | mem => exact hacc.2.1
    | energy => exact hacc.2.2 (hr rfl).2
  · simp only [Hosts.free, Plan.place, Dict.get?_modify_of_ne _ _ (Ne.symm hn)]

/-- A type that is not requested is never placed. -/
theorem Placed.type_isSome {ev : Placement} (h : Placed e tr s ev s') :
    (e.container_resources.get? ev.type).isSome := by
  obtain ⟨c, host, hc, -⟩ := h.step
  simp [hc]

theorem Reaches.count_of_absent (h : Reaches e tr s s') {t : ContainerType}
    (ht : e.container_resources.get? t = none) (name : String) :
    s'.count name t = s.count name t := by
  refine h.inv (I := fun s₁ => s₁.count name t = s.count name t) ?_ rfl
  intro s₁ ev s₂ hI hst
  have hne : ev.type ≠ t := by
    rintro rfl
    simpa [ht] using hst.type_isSome
  rw [hst.count, hI, if_neg fun hev => hne hev.2, Nat.add_zero]

/-- The containers of a host request what the placements charged to it. -/
theorem load_eq_charged {evs : List Placement} (h : Run (Placed e tr) s evs s') (r : Resource)
    (name : String) : ∑ t, s'.count name t • e.cost r t = ∑ t, s.count name t • e.cost r t +
      Ledger.charged (fun ev : Placement => some ev.host) (fun ev => e.cost r ev.type) evs name := by
  rw [Ledger.charged_eq_sum Placement.type (e.cost r) fun _ _ _ => rfl,
    ← Finset.sum_add_distrib]
  refine Finset.sum_congr rfl fun t _ => ?_
  rw [count_of_run h, add_smul]
  simp

/-- **Every host has free what the containers put on it request.** -/
theorem Reaches.load_le (h : Reaches e tr s s') (hr : tr.Charges e r) {name : String}
    (h0 : 0 ≤ s.hosts.free r name) :
    ∑ t, s'.count name t • e.cost r t ≤ s.hosts.free r name + ∑ t, s.count name t • e.cost r t := by
  obtain ⟨evs, hrun⟩ := h
  have hledger : Run (Ledger.Charge (fun ev : Placement => some ev.host)
      fun ev => e.cost r ev.type) (s.hosts.free r) evs (s'.hosts.free r) :=
    hrun.map (I := fun _ => True) (fun s : Plan => s.hosts.free r) (fun _ _ _ _ _ => trivial)
      (fun _ _ _ _ hst => hst.charge hr) trivial
  rw [load_eq_charged hrun, add_comm]
  exact add_le_add_left (Ledger.charged_le hledger h0) _

end ledger

/-! ## The load of a host -/

/-- The containers of a deployment type on a host. -/
def AssignationResult.count (r : AssignationResult) (name : String) (dt : DeployType) : ℕ :=
  (r.get? name dt).getD 0

/-- What the containers assigned to a host request of a resource in all. -/
def AssignationResult.load (r : AssignationResult) (cr : ContainerResources) (k : LimitKey)
    (res : Resource) (name : String) : ℚ :=
  ∑ dt, r.count name dt • ((cr.deploy? dt).map (·.get res k)).getD 0

theorem Plan.formatted_count (s : Plan) (d : DiskAssignation) (o : Option AssignationError)
    (name : String) (dt : DeployType) :
    (AssignationResult.mk (formatAssignation s.assignation) d o).count name dt =
      ∑ t with t.deployed = dt, s.count name t := by
  simp only [AssignationResult.count, AssignationResult.get?, formatAssignation_get?, Plan.count]
  rcases s.assignation.get? name with _ | a
  · simp
  · exact formatHost_getD a dt

theorem AppRequest.initial_count (q : AppRequest) (name : String) (t : ContainerType) :
    q.initial.count name t =
      if (q.reserved ∧ name = q.server_name) ∧ t = .rm_nn then 1 else 0 := by
  unfold Plan.count
  rw [q.initial_assignation]
  by_cases hs : q.reserved ∧ name = q.server_name
  · have hnot : name ∉ q.initial.hosts.keys := hs.2 ▸ AppRequest.initial_server hs.1
    rw [if_neg hnot, if_pos hs]
    cases t <;> simp [HostAssignation.count, HostAssignation.single, hs]
  · rw [if_neg hs, if_neg (fun h => hs h.1 : ¬ ((q.reserved ∧ name = q.server_name) ∧ t = .rm_nn))]
    split_ifs
    · cases t <;> simp [HostAssignation.count, HostAssignation.single]
    · rfl

theorem AppRequest.reserved_rm_nn {q : AppRequest} (hres : q.reserved) :
    q.container_resources.rm_nn.isSome := by
  have hr : reservesServer q.cfg q.container_resources := hres
  simp only [reservesServer, Bool.and_eq_true] at hr
  exact hr.1.1

/-- A call puts no container of a type that is not requested. -/
theorem planContainers_count_of_absent {q : AppRequest} {s : Plan}
    (hs : planContainers q = .ok (some s)) {t : ContainerType}
    (hc : q.container_resources.get? t = none) (name : String) : s.count name t = 0 := by
  rw [(planContainers_reaches hs).count_of_absent hc, q.initial_count, if_neg]
  rintro ⟨⟨hres, -⟩, rfl⟩
  have := AppRequest.reserved_rm_nn hres
  simp_all [ContainerResources.get?]

/-- The load of a host, counted by the types of the planner. -/
theorem AssignationResult.load_eq {q : AppRequest} {s : Plan}
    (hs : planContainers q = .ok (some s)) (d : DiskAssignation) (o : Option AssignationError)
    (res : Resource) (name : String) :
    (AssignationResult.mk (formatAssignation s.assignation) d o).load q.container_resources q.key
      res name = ∑ t, s.count name t • q.env.cost res t := by
  unfold AssignationResult.load
  simp only [Plan.formatted_count, Finset.sum_smul]
  rw [← Finset.sum_fiberwise (Finset.univ : Finset ContainerType) ContainerType.deployed]
  refine Finset.sum_congr rfl fun dt _ => Finset.sum_congr rfl fun t ht => ?_
  obtain rfl := (Finset.mem_filter.1 ht).2
  rcases hc : q.container_resources.get? t with _ | c
  · rw [planContainers_count_of_absent hs hc, zero_smul, zero_smul]
  · have hcost : q.env.cost res t = c.get res q.key := by
      have hc' : q.env.container_resources.get? t = some c := hc
      simp only [Env.cost, hc', Option.map_some, Option.getD_some]
      rfl
    rw [ContainerResources.deploy?_deployed hc, hcost]
    rfl

/-- What the master on the reserved server requests there. -/
def AppRequest.reservedCost (q : AppRequest) (res : Resource) (name : String) : ℚ :=
  if q.reserved ∧ name = q.server_name then q.env.cost res .rm_nn else 0

/-- **The load of a host**: it fits in what the host has free, except for the
    master on the reserved server, which is put there unchecked. -/
theorem AssignationResult.load_le {q : AppRequest} {r : AssignationResult}
    (h : getContainerAssignationForApp q = .ok r) (herr : r.error = none) {res : Resource}
    (hres : (policyTracking q.env q.assignation_policy).Charges q.env res) {name : String}
    (hfree : 0 ≤ q.initial.hosts.free res name) :
    r.load q.container_resources q.key res name ≤
      q.initial.hosts.free res name + q.reservedCost res name := by
  obtain ⟨s, hs, -, rfl⟩ := getContainerAssignationForApp_ok h herr
  rw [AssignationResult.load_eq hs]
  refine ((planContainers_reaches hs).load_le hres hfree).trans_eq ?_
  simp only [q.initial_count, AppRequest.reservedCost]
  split_ifs with hr
  · simp [hr]
  · simp [hr]

/-- What the reserved server is asked for: the master. -/
theorem reserved_load {q : AppRequest} {r : AssignationResult}
    (h : getContainerAssignationForApp q = .ok r) (herr : r.error = none) (hres : q.reserved)
    (res : Resource) :
    r.load q.container_resources q.key res q.server_name = q.env.cost res .rm_nn := by
  obtain ⟨s, hs, -, rfl⟩ := getContainerAssignationForApp_ok h herr
  rw [AssignationResult.load_eq hs]
  have hcount : ∀ t, s.count q.server_name t = if t = .rm_nn then 1 else 0 := by
    intro t
    have hsame : s.count q.server_name t = q.initial.count q.server_name t := by
      unfold Plan.count
      rw [(planContainers_reaches hs).assignation_of_notMem (AppRequest.initial_server hres)]
    rw [hsame, q.initial_count]
    simp [hres]
  simp [hcount]

/-- A host with the amount free, and the master if it is put there unchecked,
    is not over-committed. -/
theorem AssignationResult.load_le_free {q : AppRequest} {r : AssignationResult}
    (h : getContainerAssignationForApp q = .ok r) (herr : r.error = none) {res : Resource}
    (hres : (policyTracking q.env q.assignation_policy).Charges q.env res) {name : String}
    {host : Host} (hhost : q.hosts.get? name = some host) (hfree : 0 ≤ host.free res)
    (hmaster : q.reserved → name = q.server_name → q.env.cost res .rm_nn ≤ host.free res) :
    r.load q.container_resources q.key res name ≤ host.free res := by
  by_cases hs : q.reserved ∧ name = q.server_name
  · obtain ⟨hr, rfl⟩ := hs
    rw [reserved_load h herr hr]
    exact hmaster hr rfl
  · have hget : q.initial.hosts.free res name = host.free res := by
      simp [Hosts.free, q.initial_hosts, hs, hhost]
    have hle := AssignationResult.load_le h herr hres (hget.symm ▸ hfree)
    rwa [hget, AppRequest.reservedCost, if_neg hs, add_zero] at hle

end ServerlessYarn
