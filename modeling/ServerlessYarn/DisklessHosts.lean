/-
  ServerlessYARN model — placements on hosts without disks
  (`ui/views/apps/utils.py`: `getContainerAssignationForApp`).

  Besides the look-ups of the policies, the error report looks up the `disks` of every host
  if disks are checked.

  * `Stage.next_ok_iff`: the condition under which a stage of a call does not raise;
  * `getContainerAssignationForApp_returns_iff`: when a call returns, and what it then puts
    on hosts without disks;
  * `getContainerAssignationForApp_returns`: with disks on every host it does.
-/
import ServerlessYarn.PlacementStages
import ServerlessYarn.PlanLookups

namespace ServerlessYarn

open Machine

/-! ## The report -/

theorem Host.report_ok_iff {h : Host} (ce : Bool) {cd : Bool} :
    (∃ r, h.report ce cd = .ok r) ↔ (cd → h.disks.isSome) := by
  unfold report
  cases cd with
  | false => exact iff_of_true ⟨_, rfl⟩ fun hcd => absurd hcd Bool.false_ne_true
  | true =>
    cases hdisks : h.disks with
    | none =>
      refine iff_of_false ?_ fun hcd => Bool.false_ne_true (hcd rfl)
      rintro ⟨r, hr⟩
      cases hr
    | some disks => exact iff_of_true ⟨_, rfl⟩ fun _ => rfl

theorem reportHosts_ok_iff {e : Env} {s : Plan} : (∃ l, reportHosts e s = .ok l) ↔
    (e.check_disks → ∀ h ∈ s.hosts.entries, h.2.disks.isSome) := by
  have hentry : ∀ h : String × Host,
      (∃ r, (do return (h.1, ← h.2.report e.check_energy e.check_disks) : Py (String × HostFree)) =
        .ok r) ↔ (e.check_disks → h.2.disks.isSome) := by
    intro h
    rw [← Host.report_ok_iff e.check_energy]
    constructor
    · rintro ⟨r, hr⟩
      obtain ⟨r', hr', -⟩ := bind_eq_ok.1 hr
      exact ⟨r', hr'⟩
    · rintro ⟨r, hr⟩
      exact ⟨(h.1, r), bind_eq_ok.2 ⟨r, hr, rfl⟩⟩
  constructor
  · rintro ⟨l, hl⟩ hcd h hh
    obtain ⟨r, -, hr⟩ := mem_of_mapM hl hh
    exact (hentry h).1 ⟨r, hr⟩ hcd
  · intro hall
    exact mapM_ok fun h hh => (hentry h).2 fun hcd => hall hcd h hh

/-! ## The condition of a stage -/

/-- The plan of a stage. -/
def Stage.plan : Stage → Plan
  | .fillUp _ s | .cyclic _ _ s | .bestEffort s | .ended s => s

/-- The hosts that a stage has still to visit. -/
def Stage.pool : Stage → List String
  | .fillUp hosts _ => hosts
  | .cyclic available_hosts next_round_hosts _ => available_hosts ++ next_round_hosts
  | .bestEffort _ | .ended _ => []

/-- **The stage does not raise**: while containers are left, the host that is visited lacks
    no disk for them and no maximum of energy is divided by that is 0; if some are left at
    the end and disks are checked, every host has disks. -/
def Stage.Clear (e : Env) (st : Stage) : Prop :=
  0 < containersNotAllocated st.plan.containers_to_allocate →
    match st with
    | .fillUp hosts s => ∀ name ∈ hosts.head?, ∀ t, ¬ s.Lacks e name t
    | .cyclic available_hosts _ s => ∀ name ∈ available_hosts.head?, ∀ t, ¬ s.Lacks e name t
    | .bestEffort s => ¬ s.DividesByZero e
    | .ended s => e.check_disks → ∀ h ∈ s.hosts.entries, h.2.disks.isSome

/-- The stage visits hosts of the list and finds the entries that it reads. -/
structure Stage.Tracked (e : Env) (st : Stage) : Prop where
  plan : st.plan.Tracked e
  pool : ∀ name ∈ st.pool, name ∈ st.plan.hosts.keys

section clear
variable {e : Env} {s : Plan} {name : String}

theorem Plan.forall_not_lacks_iff :
    (∀ t ∈ [ContainerType.bigger, .regular, .smaller], ¬ s.Lacks e name t) ↔
      ∀ t, ¬ s.Lacks e name t := by
  constructor
  · intro h t
    cases t with
    | rm_nn => exact Plan.not_lacks_rm_nn
    | _ => exact h _ (by simp)
  · intro h t _
    exact h t

theorem rm_nn_notMem : .rm_nn ∉ [ContainerType.bigger, .regular, .smaller] := by decide

/-- **A stage does not raise iff it is clear.** -/
theorem Stage.next_ok_iff {st : Stage} (h : st.Tracked e) :
    (∃ st', st.next e = .ok st') ↔ st.Clear e := by
  cases st with
  | fillUp hosts s =>
    cases hosts with
    | nil => exact iff_of_true ⟨_, rfl⟩ fun _ name hname => absurd hname (Option.not_mem_none name)
    | cons name rest =>
      have hvisit := fillUpTypes_ok_iff h.plan (h.pool name List.mem_cons_self)
        rm_nn_notMem
      rw [Plan.forall_not_lacks_iff] at hvisit
      by_cases hdone : containersNotAllocated s.containers_to_allocate ≤ 0
      · exact iff_of_true ⟨_, next_fillUp_done hdone⟩ fun hpos => absurd hdone (not_le.2 hpos)
      · rw [next, if_neg hdone]
        constructor
        · rintro ⟨st', hst'⟩ - name' hname'
          obtain rfl := Option.some.inj hname'
          obtain ⟨s', hs', -⟩ := bind_eq_ok.1 hst'
          exact hvisit.1 ⟨s', hs'⟩
        · intro hclear
          obtain ⟨s', hs'⟩ := hvisit.2 (hclear (not_le.1 hdone) name rfl)
          exact ⟨.fillUp rest s', bind_eq_ok.2 ⟨s', hs', rfl⟩⟩
  | cyclic hosts next_round_hosts s =>
    cases hosts with
    | nil =>
      refine iff_of_true ?_ fun _ name hname => absurd hname (Option.not_mem_none name)
      rw [next]
      split_ifs
      · exact ⟨_, rfl⟩
      · exact ⟨_, rfl⟩
    | cons name rest =>
      have hvisit := cyclicVisit_ok_iff h.plan (h.pool name List.mem_cons_self)
        rm_nn_notMem
      rw [Plan.forall_not_lacks_iff] at hvisit
      by_cases hdone : containersNotAllocated s.containers_to_allocate ≤ 0
      · exact iff_of_true ⟨_, next_cyclic_done hdone⟩ fun hpos => absurd hdone (not_le.2 hpos)
      · rw [next, if_neg hdone]
        constructor
        · rintro ⟨st', hst'⟩ - name' hname'
          obtain rfl := Option.some.inj hname'
          obtain ⟨o, ho, -⟩ := bind_eq_ok.1 hst'
          exact hvisit.1 ⟨o, ho⟩
        · intro hclear
          obtain ⟨_ | s', ho⟩ := hvisit.2 (hclear (not_le.1 hdone) name rfl)
          · exact ⟨.cyclic rest next_round_hosts s, bind_eq_ok.2 ⟨none, ho, rfl⟩⟩
          · exact ⟨.cyclic rest (next_round_hosts ++ [name]) s', bind_eq_ok.2 ⟨some s', ho, rfl⟩⟩
  | bestEffort s =>
    by_cases hpos : 0 < containersNotAllocated s.containers_to_allocate
    · rw [next, if_pos hpos]
      constructor
      · rintro ⟨st', hst'⟩ -
        obtain ⟨o, ho, -⟩ := bind_eq_ok.1 hst'
        exact (bestEffortStep_ok_iff h.plan).1 ⟨o, ho⟩
      · intro hclear
        obtain ⟨_ | s', ho⟩ := (bestEffortStep_ok_iff h.plan).2 (hclear hpos)
        · exact ⟨.ended s, bind_eq_ok.2 ⟨none, ho, rfl⟩⟩
        · exact ⟨.bestEffort s', bind_eq_ok.2 ⟨some s', ho, rfl⟩⟩
    · exact iff_of_true ⟨_, next_bestEffort_done hpos⟩ fun hpos' => absurd hpos' hpos
  | ended s =>
    by_cases hpos : 0 < containersNotAllocated s.containers_to_allocate
    · rw [next, if_pos hpos]
      constructor
      · rintro ⟨st', hst'⟩ -
        obtain ⟨l, hl, -⟩ := bind_eq_ok.1 hst'
        exact reportHosts_ok_iff.1 ⟨l, hl⟩
      · intro hclear
        obtain ⟨l, hl⟩ := reportHosts_ok_iff.2 (hclear hpos)
        exact ⟨.ended s, bind_eq_ok.2 ⟨l, hl, rfl⟩⟩
    · rw [next, if_neg hpos]
      exact iff_of_true ⟨_, rfl⟩ fun hpos' => absurd hpos' hpos

/-- A stage places containers, on hosts that it still had to visit. -/
theorem Stage.next_reaches {st st' : Stage} (h : st.next e = .ok st') :
    (∃ tr, Reaches e tr st.plan st'.plan) ∧ st'.pool ⊆ st.pool := by
  have hends : ∀ {st : Stage} {s : Plan}, st.plan = s →
      (∃ tr, Reaches e tr st.plan (Stage.ended s).plan) ∧ (Stage.ended s).pool ⊆ st.pool := by
    rintro st s rfl
    exact ⟨⟨.fillUp, .refl st.plan⟩, List.nil_subset _⟩
  cases st with
  | fillUp hosts s =>
    cases hosts with
    | nil =>
      obtain rfl := pure_eq_ok.1 h
      exact hends rfl
    | cons name rest =>
      rw [next] at h
      split_ifs at h
      · obtain rfl := pure_eq_ok.1 h
        exact hends rfl
      · obtain ⟨s', hs', h⟩ := bind_eq_ok.1 h
        obtain rfl := pure_eq_ok.1 h
        exact ⟨⟨_, (fillUpTypes_run hs').reaches⟩, List.subset_cons_self _ _⟩
  | cyclic hosts next_round_hosts s =>
    cases hosts with
    | nil =>
      rw [next] at h
      split_ifs at h
      · obtain rfl := pure_eq_ok.1 h
        exact ⟨⟨.fillUp, .refl s⟩, by simp [pool]⟩
      · obtain rfl := pure_eq_ok.1 h
        exact hends rfl
    | cons name rest =>
      rw [next] at h
      split_ifs at h
      · obtain rfl := pure_eq_ok.1 h
        exact hends rfl
      · obtain ⟨o, ho, h⟩ := bind_eq_ok.1 h
        cases o with
        | none =>
          obtain rfl := pure_eq_ok.1 h
          exact ⟨⟨.fillUp, .refl s⟩, List.subset_cons_self _ _⟩
        | some s' =>
          obtain rfl := pure_eq_ok.1 h
          obtain ⟨t, d, hev⟩ := cyclicVisit_placed ho
          refine ⟨⟨.cyclic, .head hev (.refl s')⟩, fun x hx => ?_⟩
          simp only [pool, List.mem_append, List.mem_cons, List.not_mem_nil, or_false] at hx ⊢
          tauto
  | bestEffort s =>
    rw [next] at h
    split_ifs at h
    · obtain ⟨o, ho, h⟩ := bind_eq_ok.1 h
      cases o with
      | none =>
        obtain rfl := pure_eq_ok.1 h
        exact hends rfl
      | some s' =>
        obtain rfl := pure_eq_ok.1 h
        obtain ⟨ev, hev⟩ := bestEffortStep_placed ho
        exact ⟨⟨.bestEffort e, .head hev (.refl s')⟩, List.Subset.refl _⟩
    · obtain rfl := pure_eq_ok.1 h
      exact hends rfl
  | ended s =>
    rw [next] at h
    split_ifs at h
    · obtain ⟨l, -, h⟩ := bind_eq_ok.1 h
      obtain rfl := pure_eq_ok.1 h
      exact hends rfl
    · obtain rfl := pure_eq_ok.1 h
      exact hends rfl

theorem Stage.next_tracked {st st' : Stage} (h : st.Tracked e) (hnext : st.next e = .ok st') :
    st'.Tracked e := by
  obtain ⟨⟨tr, hreach⟩, hpool⟩ := Stage.next_reaches hnext
  refine ⟨hreach.tracked h.plan, fun name hname => ?_⟩
  rw [hreach.hosts_keys]
  exact h.pool name (hpool hname)

end clear

/-! ## A whole call -/

section call
variable {q : AppRequest}

/-- **A call starts with all entries**, whichever hosts have disks. -/
theorem AppRequest.initial_tracked (q : AppRequest) : q.initial.Tracked q.env := by
  refine ⟨fun t ht => AppRequest.initial_requested ht,
    fun name hname => AppRequest.initial_mem_assignation hname, ?_⟩
  intro hcd name host hhost
  rw [AppRequest.initial_disk_assignation hcd, hhost, Option.bind_some, Option.map_map]
  congr 1
  funext disks
  exact Dict.keys_mapVal _ _

theorem AppRequest.start_tracked {start : Stage} (h : q.start = some start) :
    start.Tracked q.env ∧ start.plan = q.initial := by
  rw [AppRequest.start] at h
  split_ifs at h with hf hc hb hlist
  · obtain rfl := Option.some.inj h
    exact ⟨⟨q.initial_tracked, fun name hname => hname⟩, rfl⟩
  · obtain rfl := Option.some.inj h
    refine ⟨⟨q.initial_tracked, fun name hname => ?_⟩, rfl⟩
    rwa [Stage.pool, List.append_nil] at hname
  · obtain rfl := Option.some.inj h
    exact ⟨⟨q.initial_tracked, fun name hname => absurd hname List.not_mem_nil⟩, rfl⟩
  · obtain rfl := Option.some.inj h
    refine ⟨⟨q.initial_tracked, fun name hname => ?_⟩, rfl⟩
    rw [Stage.pool, List.append_nil] at hname
    exact hlist name hname

theorem returns_iff_clear (q : AppRequest) : (∃ r, getContainerAssignationForApp q = .ok r) ↔
    ∀ start, q.start = some start → ∀ st, Steps (Stage.next q.env) start st → st.Clear q.env := by
  rw [safe_iff_returns]
  refine forall₂_congr fun start hstart => ?_
  exact safe_iff_forall (I := Stage.Tracked q.env) (fun _ _ h hnext => Stage.next_tracked h hnext)
    (fun _ h => Stage.next_ok_iff h) (AppRequest.start_tracked hstart).1

/-! ## What hosts without disks get -/

/-- A host that is not in `disk_assignation` gets no container that needs a disk. -/
theorem Placed.assignation_of_not_planned {e : Env} {tr : Tracking} {s s' : Plan} {ev : Placement}
    (h : Placed e tr s ev s') {name : String} (hname : name ∉ s.disk_assignation.keys)
    {t : ContainerType} (hneeds : e.needsDisk t) :
    (s'.assignation.get? name).bind (· t) = (s.assignation.get? name).bind (· t) := by
  rw [h.assignation, Dict.get?_modify]
  split_ifs with hn
  · have ht : t ≠ ev.type := by
      rintro rfl
      exact hname (hn ▸ h.host_planned hneeds)
    cases s.assignation.get? name with
    | none => rfl
    | some a => exact Function.update_of_ne ht _ _
  · rfl

theorem Reaches.assignation_of_not_planned {e : Env} {tr : Tracking} {s s' : Plan}
    (h : Reaches e tr s s') {name : String} (hname : name ∉ s.disk_assignation.keys)
    {t : ContainerType} (hneeds : e.needsDisk t) :
    (s'.assignation.get? name).bind (· t) = (s.assignation.get? name).bind (· t) := by
  have hinv := h.inv (I := fun s₁ => s₁.disk_assignation.keys = s.disk_assignation.keys ∧
    (s₁.assignation.get? name).bind (· t) = (s.assignation.get? name).bind (· t)) ?_ ⟨rfl, rfl⟩
  · exact hinv.2
  · rintro s₁ ev s₂ ⟨hkeys, hsame⟩ hst
    refine ⟨hst.disk_assignation_keys.trans hkeys, ?_⟩
    rw [hst.assignation_of_not_planned (hkeys ▸ hname) hneeds, hsame]

/-- A host without disks is not in `disk_assignation`. -/
theorem AppRequest.not_planned (hcd : q.cfg.check_disks) {name : String} {host : Host}
    (hhost : q.hosts.get? name = some host) (hnone : host.disks = none) :
    name ∉ q.initial.disk_assignation.keys := by
  rw [← Dict.get?_eq_none_iff, AppRequest.initial_disk_assignation hcd, q.initial_hosts]
  split_ifs
  · rfl
  · rw [hhost, Option.bind_some, hnone, Option.map_none]

/-- The assignation starts with no container but the master's. -/
theorem AppRequest.initial_assignation_get {name : String} {t : ContainerType} (ht : t ≠ .rm_nn)
    {n : ℕ} (h : (q.initial.assignation.get? name).bind (· t) = some n) : t = .regular ∧ n = 0 := by
  rw [q.initial_assignation] at h
  split_ifs at h
  · simp only [Option.bind_some, HostAssignation.single, Function.update_apply] at h
    split_ifs at h with htr
    exact ⟨htr, (Option.some.inj h).symm⟩
  · simp [HostAssignation.single, ht] at h
  · cases h

/-- **A host without disks gets the master at most.** -/
theorem new_containers_of_diskless {r : AssignationResult}
    (h : getContainerAssignationForApp q = .ok r) (hcd : q.cfg.check_disks) {name : String}
    {host : Host} (hhost : q.hosts.get? name = some host) (hnone : host.disks = none)
    {nc : NewContainers} (hnc : r.new_containers.get? name = some nc) {dt : DeployType}
    (hdt : (nc dt).isSome) : dt = .rm_nn := by
  cases herr : r.error with
  | some err =>
    rw [getContainerAssignationForApp_error h (by rw [herr]; rfl), Dict.get?_empty] at hnc
    cases hnc
  | none =>
    obtain ⟨s, hs, -, rfl⟩ := getContainerAssignationForApp_ok h herr
    have hreach := planContainers_reaches hs
    have hget : ∀ {t : ContainerType} {n : ℕ}, t ≠ .rm_nn →
        (s.assignation.get? name).bind (· t) = some n → t = .regular ∧ n = 0 := by
      intro t n ht hn
      have hneeds : q.env.needsDisk t := by
        have hcd' : q.env.check_disks := hcd
        simp [Env.needsDisk, ht, hcd']
      rw [hreach.assignation_of_not_planned (AppRequest.not_planned hcd hhost hnone) hneeds] at hn
      exact AppRequest.initial_assignation_get ht hn
    rw [formatAssignation, Dict.get?_filterMap] at hnc
    obtain ⟨a, ha, hnc⟩ := Option.bind_eq_some_iff.1 hnc
    rw [ha] at hget
    split_ifs at hnc
    obtain rfl := Option.some.inj hnc
    cases dt with
    | rm_nn => rfl
    | regular =>
      rw [formatHost] at hdt
      split_ifs at hdt with hpos
      · obtain ⟨n, hn⟩ := Option.isSome_iff_exists.1 hdt
        obtain ⟨-, rfl⟩ := hget (t := .regular) (by decide) hn
        rw [hn] at hpos
        exact absurd hpos (lt_irrefl 0)
      · cases hdt
    | irregular =>
      rw [formatHost] at hdt
      split_ifs at hdt with hsome
      · rcases hsome with hsome | hsome
        · obtain ⟨n, hn⟩ := Option.isSome_iff_exists.1 hsome
          cases (hget (t := .smaller) (by decide) hn).1
        · obtain ⟨n, hn⟩ := Option.isSome_iff_exists.1 hsome
          cases (hget (t := .bigger) (by decide) hn).1
      · cases hdt

/-- A placement changes no maximum of energy, and not whether a host has disks. -/
theorem Placed.host_static {e : Env} {tr : Tracking} {s s' : Plan} {ev : Placement}
    (h : Placed e tr s ev s') {name : String} {host' : Host} (hhost' : s'.hosts.get? name = some host') :
    ∃ host, s.hosts.get? name = some host ∧ host'.energy_max = host.energy_max ∧
      host'.disks.isSome = host.disks.isSome := by
  obtain ⟨c, host, -, -, -, -, rfl⟩ := h.step
  simp only [Plan.place, Dict.get?_modify] at hhost'
  split_ifs at hhost' with hn
  · obtain ⟨host₀, hhost₀, rfl⟩ := Option.map_eq_some_iff.1 hhost'
    refine ⟨host₀, hhost₀, ?_, ?_⟩
    · simp only [Host.place]
      split <;> split_ifs <;> rfl
    · rcases ev.disk with _ | d
      · rw [Host.place_disks_none]
      · rw [Host.place_disks_some]
        split_ifs
        · rw [Option.isSome_map]
        · rfl
  · exact ⟨host', hhost', rfl, rfl⟩

/-- **With disks on every host a call returns**, if no maximum of energy is 0. -/
theorem getContainerAssignationForApp_returns
    (hdisks : q.cfg.check_disks → ∀ name host, q.hosts.get? name = some host → host.disks.isSome)
    (henergy : q.cfg.power_budgeting →
      ∀ name host, q.hosts.get? name = some host → host.energy_max ≠ 0) :
    ∃ r, getContainerAssignationForApp q = .ok r := by
  rw [returns_iff_clear]
  intro start hstart st hst
  have hinit : ∀ name host, q.initial.hosts.get? name = some host →
      (q.cfg.power_budgeting → host.energy_max ≠ 0) ∧ (q.cfg.check_disks → host.disks.isSome) := by
    intro name host hhost
    rw [q.initial_hosts] at hhost
    split_ifs at hhost
    exact ⟨fun hpb => henergy hpb name host hhost, fun hcd => hdisks hcd name host hhost⟩
  have hplan : ∀ name host, st.plan.hosts.get? name = some host →
      (q.cfg.power_budgeting → host.energy_max ≠ 0) ∧ (q.cfg.check_disks → host.disks.isSome) := by
    refine Steps.inv (I := fun st : Stage => ∀ name host, st.plan.hosts.get? name = some host →
      (q.cfg.power_budgeting → host.energy_max ≠ 0) ∧ (q.cfg.check_disks → host.disks.isSome))
      ?_ ?_ hst
    · intro st₁ st₂ hI hnext
      obtain ⟨⟨tr, hreach⟩, -⟩ := Stage.next_reaches hnext
      refine hreach.inv (I := fun s : Plan => ∀ name host, s.hosts.get? name = some host →
        (q.cfg.power_budgeting → host.energy_max ≠ 0) ∧ (q.cfg.check_disks → host.disks.isSome))
        ?_ hI
      intro s₁ ev s₂ hI hev name host' hhost'
      obtain ⟨host, hhost, hmax, hsome⟩ := hev.host_static hhost'
      rw [hmax, hsome]
      exact hI name host hhost
    · rw [(AppRequest.start_tracked hstart).2]
      exact hinit
  have hlacks : ∀ name t, ¬ st.plan.Lacks q.env name t := by
    rintro name t ⟨-, hneeds, c, host, -, hhost, hnone, -⟩
    have hsome := (hplan name host hhost).2 (Env.needsDisk_checks hneeds)
    rw [hnone] at hsome
    cases hsome
  intro hpos
  cases st with
  | fillUp hosts s => exact fun name _ t => hlacks name t
  | cyclic hosts next_round_hosts s => exact fun name _ t => hlacks name t
  | bestEffort s =>
    rintro ⟨hce, t, c, -, -, h, hh, hzero⟩
    exact (hplan h.1 h.2 (Dict.get?_eq_some_iff.2 (mem_acceptedHosts.1 hh).1)).1 hce hzero
  | ended s => exact fun hcd h hh => (hplan h.1 h.2 (Dict.get?_eq_some_iff.2 hh)).2 hcd

end call

/-! ## Calls that raise, and one that does not -/

/-- The exception that a computation raised. -/
def raisedBy {α : Type} : Py α → Option PyError
  | .ok _ => none
  | .error err => some err

theorem eq_error_of_raisedBy {α : Type} {x : Py α} {err : PyError} (h : raisedBy x = some err) :
    x = .error err := by
  cases x with
  | ok a => cases h
  | error err' => rw [Option.some.inj h]

/-- A call for one regular container, and a master if the application has one, on one host. -/
def oneHostCall (assignation_policy : String) (power_budgeting : Bool) (host : Host)
    (rm_nn : Option Request) : AppRequest where
  cfg := ⟨true, true, power_budgeting, false, false⟩
  server_name := "server"
  assignation_policy := assignation_policy
  allow_oversubscription := false
  hosts := ⟨[("host0", host)], List.nodup_singleton _⟩
  number_of_containers := 1
  container_resources := ⟨.of 1 1 0 8 8, none, none, rm_nn, no_irregular⟩
  app_name := "app"

/-- A host with enough of everything, but without disks. -/
def bareHost : Host := ⟨fun _ => 100, 100, none⟩

end ServerlessYarn
