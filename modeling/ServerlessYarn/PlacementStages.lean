/-
  ServerlessYARN model — the stages of a placement
  (`ui/views/apps/utils.py`: `getContainerAssignationForApp` and the policies).

  A call goes through stages: the iterations of the outermost loop of its policy and, if
  containers are left, the error report.  The nested loops of the policies become a machine
  with one step for each host visited or, in Best-effort, each container placed.

  * `fillUp_safe_iff`, `cyclic_safe_iff`, `bestEffort_safe_iff`: a policy returns iff none of
    its stages raises;
  * `safe_iff_returns`: so does the whole call.
-/
import ServerlessYarn.Counts
import ServerlessYarn.Lib.Machine

namespace ServerlessYarn

open Machine

/-! ## The stages of a call -/

/-- Where a call stands: in the loop of its policy, with the hosts left in this round and
    those saved for the next, or after it. -/
inductive Stage where
  | fillUp (hosts : List String) (s : Plan)
  | cyclic (available_hosts next_round_hosts : List String) (s : Plan)
  | bestEffort (s : Plan)
  | ended (s : Plan)

/-- The free resources of the hosts, as the error reports them. -/
def reportHosts (e : Env) (s : Plan) : Py (List (String × HostFree)) :=
  s.hosts.entries.mapM fun h => do
    return (h.1, ← h.2.report e.check_energy e.check_disks)

/-- One iteration of the loop of the policy or, after it, the report. -/
def Stage.next (e : Env) : Stage → Py Stage
  | .fillUp [] s => return .ended s
  | .fillUp (name :: rest) s =>
    if containersNotAllocated s.containers_to_allocate ≤ 0 then return .ended s
    else do return .fillUp rest (← fillUpTypes e name allocationOrder s)
  | .cyclic [] next_round_hosts s =>
    if 0 < containersNotAllocated s.containers_to_allocate ∧ next_round_hosts ≠ [] then
      return .cyclic next_round_hosts [] s
    else return .ended s
  | .cyclic (name :: rest) next_round_hosts s =>
    if containersNotAllocated s.containers_to_allocate ≤ 0 then return .ended s
    else do
      match ← cyclicVisit e name allocationOrder s with
      | some s' => return .cyclic rest (next_round_hosts ++ [name]) s'
      | none => return .cyclic rest next_round_hosts s
  | .bestEffort s =>
    if 0 < containersNotAllocated s.containers_to_allocate then do
      match ← bestEffortStep e allocationOrder s with
      | some s' => return .bestEffort s'
      | none => return .ended s
    else return .ended s
  | .ended s =>
    if 0 < containersNotAllocated s.containers_to_allocate then do
      let _ ← reportHosts e s
      return .ended s
    else return .ended s

/-- Where a call starts; `none` if its policy is not supported. -/
def AppRequest.start (q : AppRequest) : Option Stage :=
  if q.assignation_policy = "Fill-up" then some (.fillUp q.initial.hosts.keys q.initial)
  else if q.assignation_policy = "Cyclic" then some (.cyclic q.initial.hosts.keys [] q.initial)
  else if q.assignation_policy = "Best-effort" then some (.bestEffort q.initial)
  else if ∀ name ∈ splitComma q.assignation_policy, name ∈ q.initial.hosts.keys then
    some (.cyclic (splitComma q.assignation_policy) [] q.initial)
  else none

/-! ## A call returns iff none of its stages raises -/

section safe
variable {e : Env}

theorem next_fillUp_nil (s : Plan) : Stage.next e (.fillUp [] s) = .ok (.ended s) := rfl

theorem next_fillUp_done {name : String} {rest : List String} {s : Plan}
    (h : containersNotAllocated s.containers_to_allocate ≤ 0) :
    Stage.next e (.fillUp (name :: rest) s) = .ok (.ended s) := if_pos h

theorem next_cyclic_nil {next : List String} {s : Plan}
    (h : 0 < containersNotAllocated s.containers_to_allocate ∧ next ≠ []) :
    Stage.next e (.cyclic [] next s) = .ok (.cyclic next [] s) := if_pos h

theorem next_cyclic_nil_end {next : List String} {s : Plan}
    (h : ¬ (0 < containersNotAllocated s.containers_to_allocate ∧ next ≠ [])) :
    Stage.next e (.cyclic [] next s) = .ok (.ended s) := if_neg h

theorem next_cyclic_done {name : String} {rest next : List String} {s : Plan}
    (h : containersNotAllocated s.containers_to_allocate ≤ 0) :
    Stage.next e (.cyclic (name :: rest) next s) = .ok (.ended s) := if_pos h

theorem next_bestEffort_done {s : Plan}
    (h : ¬ 0 < containersNotAllocated s.containers_to_allocate) :
    Stage.next e (.bestEffort s) = .ok (.ended s) := if_neg h

theorem Stage.ended_safe_iff {s : Plan} : Safe (Stage.next e) (.ended s) ↔
    (0 < containersNotAllocated s.containers_to_allocate → ∃ l, reportHosts e s = .ok l) := by
  have hnext : (∃ st, Stage.next e (.ended s) = .ok st) ↔
      (0 < containersNotAllocated s.containers_to_allocate → ∃ l, reportHosts e s = .ok l) := by
    rw [Stage.next]
    split_ifs with hpos
    · constructor
      · rintro ⟨st, hst⟩ -
        obtain ⟨l, hl, -⟩ := bind_eq_ok.1 hst
        exact ⟨l, hl⟩
      · intro h
        obtain ⟨l, hl⟩ := h hpos
        exact ⟨_, bind_eq_ok.2 ⟨l, hl, rfl⟩⟩
    · exact iff_of_true ⟨_, rfl⟩ fun h => absurd h hpos
  rw [← hnext]
  constructor
  · intro h
    exact h _ .refl
  · rintro ⟨st, hst⟩ st' hst'
    -- the report leaves the stage as it is
    have hstay : ∀ st₁ st₂ : Stage, st₁ = .ended s → Stage.next e st₁ = .ok st₂ → st₂ = .ended s := by
      rintro st₁ st₂ rfl h
      rw [Stage.next] at h
      split_ifs at h
      · obtain ⟨l, -, h⟩ := bind_eq_ok.1 h
        exact (pure_eq_ok.1 h).symm
      · exact (pure_eq_ok.1 h).symm
    obtain rfl := Steps.inv hstay rfl hst'
    exact ⟨st, hst⟩

theorem fillUp_safe_iff : ∀ {names : List String} {s : Plan}, Safe (Stage.next e) (.fillUp names s) ↔
    ∃ s', fillUpHosts e names s = .ok s' ∧ Safe (Stage.next e) (.ended s') := by
  intro names
  induction names with
  | nil =>
    intro s
    rw [safe_iff_of_ok (next_fillUp_nil s)]
    simp [fillUpHosts, pure, Except.pure]
  | cons name rest ih =>
    intro s
    rw [fillUpHosts]
    by_cases hdone : containersNotAllocated s.containers_to_allocate ≤ 0
    · rw [safe_iff_of_ok (next_fillUp_done hdone), if_pos hdone]
      simp [pure, Except.pure]
    · rw [if_neg hdone]
      rcases hs₁ : fillUpTypes e name allocationOrder s with err | s₁
      · refine iff_of_false (not_safe_of_error (e := err) ?_) ?_
        · rw [Stage.next, if_neg hdone, hs₁]
          rfl
        · rintro ⟨s', hs', -⟩
          cases hs'
      · have hnext : Stage.next e (.fillUp (name :: rest) s) = .ok (.fillUp rest s₁) := by
          rw [Stage.next, if_neg hdone, hs₁]
          rfl
        rw [safe_iff_of_ok hnext, ih]
        rfl

/-- A round, and what follows it. -/
theorem cyclicRound_safe_iff : ∀ {names next : List String} {s : Plan},
    Safe (Stage.next e) (.cyclic names next s) ↔
      ∃ r, cyclicRound e names s next = .ok r ∧ Safe (Stage.next e) (.cyclic [] r.2 r.1) := by
  intro names
  induction names with
  | nil =>
    intro next s
    simp [cyclicRound, pure, Except.pure]
  | cons name rest ih =>
    intro next s
    rw [cyclicRound]
    by_cases hdone : containersNotAllocated s.containers_to_allocate ≤ 0
    · have hnil := next_cyclic_nil_end (e := e) fun h : _ ∧ next ≠ [] => not_lt.2 hdone h.1
      rw [safe_iff_of_ok (next_cyclic_done hdone), if_pos hdone, ← safe_iff_of_ok hnil]
      simp [pure, Except.pure]
    · rw [if_neg hdone]
      rcases ho : cyclicVisit e name allocationOrder s with err | _ | s₁
      · refine iff_of_false (not_safe_of_error (e := err) ?_) ?_
        · rw [Stage.next, if_neg hdone, ho]
          rfl
        · rintro ⟨r, hr, -⟩
          cases hr
      · have hnext : Stage.next e (.cyclic (name :: rest) next s) = .ok (.cyclic rest next s) := by
          rw [Stage.next, if_neg hdone, ho]
          rfl
        rw [safe_iff_of_ok hnext, ih]
        rfl
      · have hnext : Stage.next e (.cyclic (name :: rest) next s) =
            .ok (.cyclic rest (next ++ [name]) s₁) := by
          rw [Stage.next, if_neg hdone, ho]
          rfl
        rw [safe_iff_of_ok hnext, ih]
        rfl

theorem cyclicWhile_safe_iff : ∀ {fuel : ℕ} {names : List String} {s : Plan},
    (containersNotAllocated s.containers_to_allocate).toNat < fuel →
      (Safe (Stage.next e) (.cyclic [] names s) ↔
        ∃ s', cyclicWhile e fuel names s = .ok s' ∧ Safe (Stage.next e) (.ended s')) := by
  intro fuel
  induction fuel with
  | zero =>
    intro names s hf
    exact absurd hf (Nat.not_lt_zero _)
  | succ fuel ih =>
    intro names s hf
    rw [cyclicWhile]
    by_cases hcond : 0 < containersNotAllocated s.containers_to_allocate ∧ names ≠ []
    · rw [safe_iff_of_ok (next_cyclic_nil hcond), if_pos hcond, cyclicRound_safe_iff]
      rcases hr : cyclicRound e names s [] with err | ⟨s₁, next⟩
      · refine iff_of_false ?_ ?_
        · rintro ⟨r, hr', -⟩
          cases hr'
        · rintro ⟨s', hs', -⟩
          cases hs'
      · have hsum := cyclicRound_notAllocated hr
        rw [List.length_nil] at hsum
        have hrest : Safe (Stage.next e) (.cyclic [] next s₁) ↔
            ∃ s', cyclicWhile e fuel next s₁ = .ok s' ∧ Safe (Stage.next e) (.ended s') := by
          -- a round that saves no host ends the loop, any other one allocates a container
          by_cases hnext : next = []
          · subst hnext
            rw [safe_iff_of_ok (next_cyclic_nil_end fun h => h.2 rfl), cyclicWhile_nil]
            simp
          · have hlen := List.length_pos_iff.2 hnext
            exact ih (by omega)
        constructor
        · rintro ⟨r, hr', hsafe⟩
          obtain rfl := Except.ok.inj hr'
          exact hrest.1 hsafe
        · intro h
          exact ⟨(s₁, next), rfl, hrest.2 h⟩
    · rw [safe_iff_of_ok (next_cyclic_nil_end hcond), if_neg hcond]
      simp [pure, Except.pure]

/-- A round over the hosts is the first iteration of the loop. -/
theorem cyclic_safe_iff {names : List String} {s : Plan} :
    Safe (Stage.next e) (.cyclic names [] s) ↔
      ∃ s', assignCyclic e names s = .ok s' ∧ Safe (Stage.next e) (.ended s') := by
  rw [assignCyclic, ← cyclicWhile_safe_iff (Nat.lt_succ_self _)]
  by_cases hcond : 0 < containersNotAllocated s.containers_to_allocate ∧ names ≠ []
  · exact (safe_iff_of_ok (next_cyclic_nil hcond)).symm
  · rw [safe_iff_of_ok (next_cyclic_nil_end hcond)]
    cases names with
    | nil => exact safe_iff_of_ok (next_cyclic_nil_end hcond)
    | cons name rest =>
      have hdone : containersNotAllocated s.containers_to_allocate ≤ 0 :=
        not_lt.1 fun hpos => hcond ⟨hpos, List.cons_ne_nil _ _⟩
      exact safe_iff_of_ok (next_cyclic_done hdone)

theorem bestEffort_safe_iff : ∀ {fuel : ℕ} {s : Plan},
    (containersNotAllocated s.containers_to_allocate).toNat ≤ fuel →
      (Safe (Stage.next e) (.bestEffort s) ↔
        ∃ s', bestEffortWhile e fuel s = .ok s' ∧ Safe (Stage.next e) (.ended s')) := by
  intro fuel
  induction fuel with
  | zero =>
    intro s hf
    have hdone : ¬ 0 < containersNotAllocated s.containers_to_allocate := by omega
    rw [safe_iff_of_ok (next_bestEffort_done hdone)]
    simp [bestEffortWhile, pure, Except.pure]
  | succ fuel ih =>
    intro s hf
    rw [bestEffortWhile]
    by_cases hpos : 0 < containersNotAllocated s.containers_to_allocate
    · rw [if_pos hpos]
      rcases ho : bestEffortStep e allocationOrder s with err | _ | s₁
      · refine iff_of_false (not_safe_of_error (e := err) ?_) ?_
        · rw [Stage.next, if_pos hpos, ho]
          rfl
        · rintro ⟨s', hs', -⟩
          cases hs'
      · have hnext : Stage.next e (.bestEffort s) = .ok (.ended s) := by
          rw [Stage.next, if_pos hpos, ho]
          rfl
        rw [safe_iff_of_ok hnext]
        simp [bind, Except.bind, pure, Except.pure]
      · have hnext : Stage.next e (.bestEffort s) = .ok (.bestEffort s₁) := by
          rw [Stage.next, if_pos hpos, ho]
          rfl
        obtain ⟨ev, hev⟩ := bestEffortStep_placed ho
        rw [safe_iff_of_ok hnext, ih (by rw [hev.notAllocated]; omega)]
        rfl
    · rw [safe_iff_of_ok (next_bestEffort_done hpos), if_neg hpos]
      simp [pure, Except.pure]

theorem map_some_ne_none (x : Py Plan) : some <$> x ≠ .ok none := by
  cases x <;> simp [Functor.map, Except.map]

/-- The policy ends, and what follows it raises nothing. -/
theorem AppRequest.safe_start_iff {q : AppRequest} {start : Stage} (h : q.start = some start) :
    Safe (Stage.next q.env) start ↔
      ∃ s, planContainers q = .ok (some s) ∧ Safe (Stage.next q.env) (.ended s) := by
  rw [planContainers, applyPolicy]
  rw [AppRequest.start] at h
  split_ifs at h ⊢
  · obtain rfl := Option.some.inj h
    simp only [map_some_eq_ok]
    exact fillUp_safe_iff
  · obtain rfl := Option.some.inj h
    simp only [map_some_eq_ok]
    exact cyclic_safe_iff
  · obtain rfl := Option.some.inj h
    simp only [map_some_eq_ok]
    exact bestEffort_safe_iff le_rfl
  · obtain rfl := Option.some.inj h
    simp only [map_some_eq_ok]
    exact cyclic_safe_iff

theorem AppRequest.start_eq_none_iff {q : AppRequest} :
    q.start = none ↔ planContainers q = .ok none := by
  rw [AppRequest.start, planContainers, applyPolicy]
  split_ifs
  · exact iff_of_false id (map_some_ne_none _)
  · exact iff_of_false id (map_some_ne_none _)
  · exact iff_of_false id (map_some_ne_none _)
  · exact iff_of_false id (map_some_ne_none _)
  · exact iff_of_true rfl rfl

/-- A call whose policy is supported returns iff the policy does and then the report. -/
theorem AppRequest.returns_iff {q : AppRequest} {start : Stage} (h : q.start = some start) :
    (∃ r, getContainerAssignationForApp q = .ok r) ↔
      ∃ s, planContainers q = .ok (some s) ∧
        (0 < containersNotAllocated s.containers_to_allocate → ∃ l, reportHosts q.env s = .ok l) := by
  cases hplan : planContainers q with
  | error err =>
    refine iff_of_false ?_ ?_
    · rintro ⟨r, hr⟩
      rw [getContainerAssignationForApp, hplan] at hr
      cases hr
    · rintro ⟨s, hs, -⟩
      cases hs
  | ok o =>
    cases o with
    | none =>
      rw [AppRequest.start_eq_none_iff.2 hplan] at h
      cases h
    | some s =>
      constructor
      · rintro ⟨r, hr⟩
        refine ⟨s, rfl, fun hpos => ?_⟩
        rw [getContainerAssignationForApp, hplan] at hr
        obtain ⟨o, ho, hr⟩ := bind_eq_ok.1 hr
        obtain rfl := Except.ok.inj ho
        simp only [if_pos hpos] at hr
        obtain ⟨l, hl, -⟩ := bind_eq_ok.1 hr
        exact ⟨l, hl⟩
      · rintro ⟨s', hs', hreport⟩
        obtain rfl : s = s' := Option.some.inj (Except.ok.inj hs')
        by_cases hpos : 0 < containersNotAllocated s.containers_to_allocate
        · obtain ⟨l, hl⟩ := hreport hpos
          refine ⟨⟨.empty, s.disk_assignation,
            some (.couldNotAllocate q.app_name q.container_resources q.key l)⟩, ?_⟩
          refine bind_eq_ok.2 ⟨some s, hplan, ?_⟩
          simp only [if_pos hpos]
          exact bind_eq_ok.2 ⟨l, hl, rfl⟩
        · exact ⟨_, getContainerAssignationForApp_of_plan hplan (not_lt.1 hpos)⟩

/-- **A call returns iff none of its stages raises.** -/
theorem safe_iff_returns (q : AppRequest) : (∃ r, getContainerAssignationForApp q = .ok r) ↔
    ∀ start, q.start = some start → Safe (Stage.next q.env) start := by
  cases hstart : q.start with
  | none =>
    have hnone := AppRequest.start_eq_none_iff.1 hstart
    refine iff_of_true ⟨_, bind_eq_ok.2 ⟨none, hnone, rfl⟩⟩ ?_
    rintro start ⟨⟩
  | some start =>
    simp only [AppRequest.returns_iff hstart, ← Stage.ended_safe_iff]
    rw [← AppRequest.safe_start_iff hstart]
    constructor
    · rintro hsafe _ ⟨⟩
      exact hsafe
    · intro hsafe
      exact hsafe start rfl

end safe

end ServerlessYarn
