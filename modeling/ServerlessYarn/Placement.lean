/-
  ServerlessYARN model — what one placement does.

  Whatever the policy, the state of a placement only changes by putting one
  container of a type on a host, and on a disk if disks are checked.  `Placed`
  says everything such a step does; the policies differ in what they keep up to
  date on the host record besides cpu and mem (`Tracking`): Fill-up nothing,
  Cyclic the disks, Best-effort the disks and, if checked, the energy.

  * `PolicyStep.placed`: an iteration of a policy is such a step;
  * `assignFillUp_run`, `assignCyclic_run`, `assignBestEffort_run`: a policy is a
    run of its iterations, so every invariant of `Placed` holds of its result.
-/
import Mathlib.Logic.Relation
import ServerlessYarn.Policies
import ServerlessYarn.Lib.Run

namespace ServerlessYarn

/-- One container put on a host, and on a disk if disks are checked. -/
structure Placement where
  host : String
  type : ContainerType
  disk : Option String
deriving DecidableEq

/-- What a policy subtracts on the host record besides cpu and mem. -/
structure Tracking where
  energy : Bool
  disks : Bool

def Tracking.fillUp : Tracking := ⟨false, false⟩

def Tracking.cyclic : Tracking := ⟨false, true⟩

def Tracking.bestEffort (e : Env) : Tracking := ⟨e.check_energy, true⟩

/-- The host record after a container was put on it. -/
def Host.place (h : Host) (tr : Tracking) (c : Request) (k : LimitKey) (disk : Option String) :
    Host :=
  let h := (h.charge .cpu (c.get .cpu k)).charge .mem (c.get .mem k)
  let h := if tr.energy then h.charge .energy (c.get .energy k) else h
  match disk with
  | some d => if tr.disks then h.chargeDisk d c k else h
  | none => h

/-- The plan after a container was put on a host. -/
def Plan.place (s : Plan) (tr : Tracking) (c : Request) (k : LimitKey) (ev : Placement) : Plan where
  hosts := s.hosts.modify ev.host fun h => h.place tr c k ev.disk
  containers_to_allocate :=
    Function.update s.containers_to_allocate ev.type (s.containers_to_allocate ev.type - 1)
  assignation := s.assignation.modify ev.host fun a =>
    Function.update a ev.type (some ((a ev.type).getD 0 + 1))
  disk_assignation := match ev.disk with
    | some d => s.disk_assignation.modify ev.host fun ds => ds.modify d fun p => p.charge c k
    | none => s.disk_assignation

/-- Where the disk of a placement comes from: Fill-up takes one that is
    available in `disk_assignation`, the others the freest disk of the host. -/
def DiskChosen (e : Env) (tr : Tracking) (s : Plan) (h : Host) (c : Request) (name disk : String) :
    Prop :=
  ∃ plans p, s.disk_assignation.get? name = some plans ∧ plans.get? disk = some p ∧
    if tr.disks then getFreestDisk h (c.read e.limit_key) (c.write e.limit_key) = some disk
    else checkAvailableDisk p c e.limit_key

/-- **One placement.** -/
structure Placed (e : Env) (tr : Tracking) (s : Plan) (ev : Placement) (s' : Plan) : Prop where
  pos : 0 < s.containers_to_allocate ev.type
  assigned : ev.host ∈ s.assignation.keys
  disk_isSome : ev.disk.isSome = e.needsDisk ev.type
  step : ∃ c h, e.container_resources.get? ev.type = some c ∧ s.hosts.get? ev.host = some h ∧
    h.Accepts c e.check_energy e.limit_key ∧
    (∀ d, ev.disk = some d → DiskChosen e tr s h c ev.host d) ∧ s' = s.place tr c e.limit_key ev

/-! ## Host records -/

theorem Host.charge_comm (h : Host) {r r' : Resource} (a a' : ℚ) (hr : r ≠ r') :
    (h.charge r a).charge r' a' = (h.charge r' a').charge r a := by
  simp only [charge, Function.update_of_ne hr, Function.update_of_ne hr.symm,
    Function.update_comm hr]

theorem Host.place_free (h : Host) (tr : Tracking) (c : Request) (k : LimitKey)
    (disk : Option String) (r : Resource) :
    (h.place tr c k disk).free r =
      if r = .energy ∧ !tr.energy then h.free r else h.free r - c.get r k := by
  have hd : (h.place tr c k disk).free = (h.place tr c k none).free := by
    cases disk with
    | none => rfl
    | some d => simp only [place]; split_ifs <;> rfl
  rw [hd]
  cases r <;> cases he : tr.energy <;> simp [place, he, charge_free]

theorem Host.place_disks_none (h : Host) (tr : Tracking) (c : Request) (k : LimitKey) :
    (h.place tr c k none).disks = h.disks := by
  simp only [place]; split_ifs <;> rfl

theorem Host.place_disks_some (h : Host) (tr : Tracking) (c : Request) (k : LimitKey) (d : String) :
    (h.place tr c k (some d)).disks =
      if tr.disks then h.disks.map fun ds => ds.modify d fun disk => disk.charge c k
      else h.disks := by
  simp only [place]; split_ifs <;> rfl

theorem checkAvailableResources_iff {e : Env} {h : Host} {c : Request} :
    checkAvailableResources h c e.resources_to_check e.limit_key ↔
      h.Accepts c e.check_energy e.limit_key := by
  cases he : e.check_energy <;>
    simp [checkAvailableResources, Env.resources_to_check, Host.Accepts, he]

theorem availableResources_true {e : Env} {s : Plan} {name : String} {h : Host}
    {t : ContainerType} {c : Request} (hav : availableResources e s name h t c = .ok true) :
    h.Accepts c e.check_energy e.limit_key ∧ (e.needsDisk t →
      ∃ plans, s.disk_assignation.get? name = some plans ∧
        ∃ d p, plans.get? d = some p ∧ checkAvailableDisk p c e.limit_key) := by
  unfold availableResources at hav
  split_ifs at hav with hres hdisk
  · refine ⟨checkAvailableResources_iff.1 hres, fun _ => ?_⟩
    simp only [bind_eq_ok, getItem_eq_ok, pure_eq_ok, List.any_eq_true] at hav
    obtain ⟨plans, hplans, ⟨d, p⟩, hmem, hp⟩ := hav
    exact ⟨plans, hplans, d, p, Dict.get?_eq_some_iff.2 hmem, hp⟩
  · exact ⟨checkAvailableResources_iff.1 hres, fun hd => absurd hd hdisk⟩
  · simp at hav

theorem Plan.assign_eq_ok {s s' : Plan} {name : String} {t : ContainerType} :
    s.assign name t = .ok s' ↔ name ∈ s.assignation.keys ∧
      s' = { s with
        containers_to_allocate :=
          Function.update s.containers_to_allocate t (s.containers_to_allocate t - 1)
        assignation := s.assignation.modify name fun a =>
          Function.update a t (some ((a t).getD 0 + 1)) } := by
  simp only [assign, bind_eq_ok, getItem_eq_ok, pure_eq_ok, Dict.mem_keys_iff]
  constructor
  · rintro ⟨a, ha, rfl⟩; exact ⟨⟨a, ha⟩, rfl⟩
  · rintro ⟨⟨a, ha⟩, rfl⟩; exact ⟨a, ha, rfl⟩

/-- A freest disk was found and charged on both records. -/
theorem assignFreestDisk_eq_some {s s' : Plan} {name : String} {c : Request} {k : LimitKey}
    (h : assignFreestDisk s name c k = .ok (some s')) :
    ∃ host disk plans p, s.hosts.get? name = some host ∧
      getFreestDisk host (c.read k) (c.write k) = some disk ∧
      s.disk_assignation.get? name = some plans ∧ plans.get? disk = some p ∧
      s' = { s.chargeDisk name disk c k with
        hosts := s.hosts.modify name fun h => h.chargeDisk disk c k } := by
  simp only [assignFreestDisk, bind_eq_ok, getItem_eq_ok] at h
  obtain ⟨host, hhost, h⟩ := h
  split at h
  · simp at h
  · rename_i disk hdisk
    simp only [bind_eq_ok, getItem_eq_ok, pure_eq_ok, Option.some.injEq] at h
    obtain ⟨plans, hplans, p, hp, rfl⟩ := h
    exact ⟨host, disk, plans, p, hhost, hdisk, hplans, hp, rfl⟩

/-! ## One iteration of each policy -/

theorem fillUpStep_placed {e : Env} {name : String} {t : ContainerType} {s s' : Plan}
    (hpos : 0 < s.containers_to_allocate t) (h : fillUpStep e name t s = .ok (some s')) :
    ∃ d, Placed e .fillUp s ⟨name, t, d⟩ s' := by
  simp only [fillUpStep, bind_eq_ok, ContainerResources.getItem_eq_ok, getItem_eq_ok] at h
  obtain ⟨c, hc, host, hhost, av, hav, h⟩ := h
  split_ifs at h with htrue hdisk
  · -- a disk is needed: the first available one, which exists since one was available
    subst htrue
    obtain ⟨hacc, hav⟩ := availableResources_true hav
    simp only [bind_eq_ok, getItem_eq_ok, Plan.assign_eq_ok] at h
    obtain ⟨s₁, ⟨hkey, rfl⟩, plans, hplans, h⟩ := h
    simp only [Plan.consume] at hplans h
    split at h
    · rename_i disk p hfind
      simp only [pure_eq_ok, Option.some.injEq] at h
      refine ⟨some disk, hpos, hkey, hdisk.symm, c, host, hc, hhost, hacc, ?_, ?_⟩
      · rintro d ⟨⟩
        have hp : checkAvailableDisk p c e.limit_key := by simpa using List.find?_some hfind
        exact ⟨plans, p, hplans, Dict.get?_eq_some_iff.2 (List.mem_of_find?_eq_some hfind),
          by simpa [Tracking.fillUp] using hp⟩
      · rw [← h]
        simp only [Plan.place, Plan.chargeDisk, Dict.modify_modify, Function.comp_def, Host.place,
          Tracking.fillUp, Bool.false_eq_true, if_false]
    · rename_i hfind
      obtain ⟨plans', hplans', d, p, hdp, hok⟩ := hav hdisk
      rw [hplans] at hplans'; cases hplans'
      rw [List.find?_eq_none] at hfind
      exact absurd hok (hfind (d, p) (Dict.get?_eq_some_iff.1 hdp))
  · subst htrue
    obtain ⟨hacc, -⟩ := availableResources_true hav
    simp only [bind_eq_ok, pure_eq_ok, Option.some.injEq, Plan.assign_eq_ok] at h
    obtain ⟨s₁, ⟨hkey, rfl⟩, rfl⟩ := h
    refine ⟨none, hpos, hkey, ?_, c, host, hc, hhost, hacc, by simp, ?_⟩
    · simpa using hdisk
    · simp only [Plan.place, Plan.consume, Dict.modify_modify, Function.comp_def, Host.place,
        Tracking.fillUp, Bool.false_eq_true, if_false]
  · simp at h

theorem cyclicVisit_placed {e : Env} {name : String} : ∀ {ts : List ContainerType} {s s' : Plan},
    cyclicVisit e name ts s = .ok (some s') →
      ∃ t d, Placed e .cyclic s ⟨name, t, d⟩ s'
  | [], s, s', h => by simp [cyclicVisit] at h
  | t :: ts, s, s', h => by
    unfold cyclicVisit at h
    by_cases hpos : 0 < s.containers_to_allocate t
    · simp only [if_pos hpos, bind_eq_ok, ContainerResources.getItem_eq_ok, getItem_eq_ok] at h
      obtain ⟨c, hc, host, hhost, av, hav, h⟩ := h
      cases av with
      | false => exact cyclicVisit_placed h
      | true =>
        obtain ⟨hacc, -⟩ := availableResources_true hav
        simp only [if_true] at h
        by_cases hdisk : e.needsDisk t
        · simp only [if_pos hdisk, bind_eq_ok] at h
          obtain ⟨o, ho, h⟩ := h
          cases o with
          | none => simp at h
          | some s₁ =>
            obtain ⟨host', disk, plans, p, hhost', hfree, hplans, hp, rfl⟩ :=
              assignFreestDisk_eq_some ho
            rw [hhost] at hhost'; cases hhost'
            simp only [bind_eq_ok, pure_eq_ok, Option.some.injEq, Plan.assign_eq_ok] at h
            obtain ⟨s₂, ⟨hkey, rfl⟩, rfl⟩ := h
            refine ⟨t, some disk, hpos, hkey, hdisk.symm, c, host, hc, hhost, hacc, ?_, ?_⟩
            · rintro d ⟨⟩
              exact ⟨plans, p, hplans, hp, hfree⟩
            · simp only [Plan.place, Plan.consume, Plan.chargeDisk, Dict.modify_modify,
                Function.comp_def, Host.place, Tracking.cyclic, Bool.false_eq_true, if_false,
                if_true]
              rfl
        · simp only [if_neg hdisk, bind_eq_ok, pure_eq_ok, Option.some.injEq,
            Plan.assign_eq_ok] at h
          obtain ⟨s₁, ⟨hkey, rfl⟩, rfl⟩ := h
          refine ⟨t, none, hpos, hkey, ?_, c, host, hc, hhost, hacc, by simp, ?_⟩
          · simpa using hdisk
          · simp only [Plan.place, Plan.consume, Dict.modify_modify, Function.comp_def, Host.place,
              Tracking.cyclic, Bool.false_eq_true, if_false]
    · rw [if_neg hpos] at h
      exact cyclicVisit_placed h

/-- The host record after `bestEffortAssign`, whose energy comes first. -/
theorem Host.bestEffort_charges (h : Host) (e : Env) (c : Request) (disk : Option String) :
    (((match disk with
        | some d => h.chargeDisk d c e.limit_key
        | none => h).place ⟨e.check_energy, false⟩ c e.limit_key none) : Host) =
      h.place (.bestEffort e) c e.limit_key disk := by
  cases disk <;> cases he : e.check_energy <;> simp [place, Tracking.bestEffort, he] <;> rfl

theorem bestEffortAssign_eq_ok {e : Env} {name : String} {t : ContainerType} {c : Request}
    {s s' : Plan} (h : bestEffortAssign e name t c s = .ok s') :
    name ∈ s.assignation.keys ∧
      s' = s.place ⟨e.check_energy, false⟩ c e.limit_key ⟨name, t, none⟩ := by
  unfold bestEffortAssign at h
  simp only [Plan.assign_eq_ok] at h
  split_ifs at h with he
  · obtain ⟨hkey, rfl⟩ := h
    refine ⟨hkey, ?_⟩
    simp only [Plan.place, Plan.consume, Dict.modify_modify, Function.comp_def, Host.place, he,
      if_true]
    congr 2
    funext h
    rw [Host.charge_comm h _ _ (by decide), Host.charge_comm _ _ _ (by decide)]
  · obtain ⟨hkey, rfl⟩ := h
    refine ⟨hkey, ?_⟩
    simp only [Plan.place, Plan.consume, Dict.modify_modify, Function.comp_def, Host.place, he,
      if_false, Bool.false_eq_true]

theorem bestEffortStep_placed {e : Env} : ∀ {ts : List ContainerType} {s s' : Plan},
    bestEffortStep e ts s = .ok (some s') → ∃ ev, Placed e (.bestEffort e) s ev s'
  | [], s, s', h => by simp [bestEffortStep] at h
  | t :: ts, s, s', h => by
    unfold bestEffortStep at h
    by_cases hpos : 0 < s.containers_to_allocate t
    · simp only [if_pos hpos, bind_eq_ok, ContainerResources.getItem_eq_ok] at h
      obtain ⟨c, hc, o, ho, h⟩ := h
      cases o with
      | none => simp at h
      | some name =>
        obtain ⟨host, hhost, hacc⟩ := getFreestHost_accepts ho
        simp only at h
        by_cases hdisk : e.needsDisk t
        · simp only [if_pos hdisk, bind_eq_ok] at h
          obtain ⟨o, ho, h⟩ := h
          cases o with
          | none => simp at h
          | some s₁ =>
            obtain ⟨host', disk, plans, p, hhost', hfree, hplans, hp, rfl⟩ :=
              assignFreestDisk_eq_some ho
            rw [hhost] at hhost'; cases hhost'
            simp only [bind_eq_ok, pure_eq_ok, Option.some.injEq] at h
            obtain ⟨s₂, hs₂, rfl⟩ := h
            obtain ⟨hkey, rfl⟩ := bestEffortAssign_eq_ok hs₂
            refine ⟨⟨name, t, some disk⟩, hpos, hkey, hdisk.symm, c, host, hc, hhost, hacc, ?_, ?_⟩
            · rintro d ⟨⟩
              exact ⟨plans, p, hplans, hp, hfree⟩
            · simp only [Plan.place, Plan.chargeDisk, Dict.modify_modify, Function.comp_def]
              congr 2
              funext h
              exact Host.bestEffort_charges h e c (some disk)
        · simp only [if_neg hdisk, bind_eq_ok, pure_eq_ok, Option.some.injEq] at h
          obtain ⟨s₁, hs₁, rfl⟩ := h
          obtain ⟨hkey, rfl⟩ := bestEffortAssign_eq_ok hs₁
          refine ⟨⟨name, t, none⟩, hpos, hkey, ?_, c, host, hc, hhost, hacc, by simp, ?_⟩
          · simpa using hdisk
          · simp only [Plan.place]
            congr 2
    · rw [if_neg hpos] at h
      exact bestEffortStep_placed h

/-! ## The policies as runs of placements -/

/-- An iteration of the innermost loop of a policy that puts a container on a
    host: of `assign_fill_up`, of `assign_best_effort`, or of `assign_cyclic`,
    which also serves the lists of hosts. -/
def PolicyStep (e : Env) (assignation_policy : String) (s s' : Plan) : Prop :=
  if assignation_policy = "Fill-up" then
    ∃ name t, 0 < s.containers_to_allocate t ∧ fillUpStep e name t s = .ok (some s')
  else if assignation_policy = "Best-effort" then
    bestEffortStep e allocationOrder s = .ok (some s')
  else ∃ name, cyclicVisit e name allocationOrder s = .ok (some s')

/-- What the policy keeps up to date on the host records. -/
def policyTracking (e : Env) (assignation_policy : String) : Tracking :=
  if assignation_policy = "Fill-up" then .fillUp
  else if assignation_policy = "Best-effort" then .bestEffort e
  else .cyclic

/-- **Every iteration of a policy is a placement.** -/
theorem PolicyStep.placed {e : Env} {p : String} {s s' : Plan} (h : PolicyStep e p s s') :
    ∃ ev, Placed e (policyTracking e p) s ev s' := by
  unfold PolicyStep at h
  unfold policyTracking
  split_ifs at h ⊢
  · obtain ⟨name, t, hpos, h⟩ := h
    obtain ⟨d, hev⟩ := fillUpStep_placed hpos h
    exact ⟨_, hev⟩
  · exact bestEffortStep_placed h
  · obtain ⟨name, h⟩ := h
    obtain ⟨t, d, hev⟩ := cyclicVisit_placed h
    exact ⟨_, hev⟩

/-- `s'` comes from `s` by iterations of the policy. -/
abbrev PolicyRun (e : Env) (assignation_policy : String) : Plan → Plan → Prop :=
  Relation.ReflTransGen (PolicyStep e assignation_policy)

section fillUp
variable {e : Env}

theorem fillUpWhile_run {name : String} {t : ContainerType} :
    ∀ {fuel : ℕ} {s s' : Plan}, fillUpWhile e name t fuel s = .ok s' → PolicyRun e "Fill-up" s s'
  | 0, s, s', h => by
    simp only [fillUpWhile, pure_eq_ok] at h
    exact h ▸ .refl
  | fuel + 1, s, s', h => by
    unfold fillUpWhile at h
    split_ifs at h with hpos
    · obtain ⟨o, ho, h⟩ := bind_eq_ok.1 h
      cases o with
      | none => exact pure_eq_ok.1 h ▸ .refl
      | some s₁ => exact .head ⟨name, t, hpos, ho⟩ (fillUpWhile_run h)
    · exact pure_eq_ok.1 h ▸ .refl

theorem fillUpTypes_run {name : String} : ∀ {ts : List ContainerType} {s s' : Plan},
    fillUpTypes e name ts s = .ok s' → PolicyRun e "Fill-up" s s'
  | [], s, s', h => pure_eq_ok.1 h ▸ .refl
  | t :: ts, s, s', h => by
    obtain ⟨s₁, hs₁, h⟩ := bind_eq_ok.1 h
    exact (fillUpWhile_run hs₁).trans (fillUpTypes_run h)

theorem fillUpHosts_run : ∀ {names : List String} {s s' : Plan},
    fillUpHosts e names s = .ok s' → PolicyRun e "Fill-up" s s'
  | [], s, s', h => pure_eq_ok.1 h ▸ .refl
  | name :: rest, s, s', h => by
    unfold fillUpHosts at h
    split_ifs at h
    · exact pure_eq_ok.1 h ▸ .refl
    · obtain ⟨s₁, hs₁, h⟩ := bind_eq_ok.1 h
      exact (fillUpTypes_run hs₁).trans (fillUpHosts_run h)

/-- **Fill-up is a run of its iterations.** -/
theorem assignFillUp_run {s s' : Plan} (h : assignFillUp e s = .ok s') :
    PolicyRun e "Fill-up" s s' := fillUpHosts_run h

end fillUp

section cyclic
variable {e : Env} {p : String}

theorem cyclicVisit_step (hf : p ≠ "Fill-up") (hb : p ≠ "Best-effort") {name : String}
    {s s' : Plan} (h : cyclicVisit e name allocationOrder s = .ok (some s')) :
    PolicyStep e p s s' := by
  unfold PolicyStep
  rw [if_neg hf, if_neg hb]
  exact ⟨name, h⟩

theorem cyclicRound_run (hf : p ≠ "Fill-up") (hb : p ≠ "Best-effort") :
    ∀ {names : List String} {s : Plan} {next : List String} {r : Plan × List String},
      cyclicRound e names s next = .ok r → PolicyRun e p s r.1
  | [], s, next, r, h => by
    simp only [cyclicRound, pure_eq_ok] at h
    exact h ▸ .refl
  | name :: rest, s, next, r, h => by
    unfold cyclicRound at h
    split_ifs at h
    · exact pure_eq_ok.1 h ▸ .refl
    · obtain ⟨o, ho, h⟩ := bind_eq_ok.1 h
      cases o with
      | none => exact cyclicRound_run hf hb h
      | some s₁ => exact .head (cyclicVisit_step hf hb ho) (cyclicRound_run hf hb h)

theorem cyclicWhile_run (hf : p ≠ "Fill-up") (hb : p ≠ "Best-effort") :
    ∀ {fuel : ℕ} {names : List String} {s s' : Plan},
      cyclicWhile e fuel names s = .ok s' → PolicyRun e p s s'
  | 0, names, s, s', h => by
    simp only [cyclicWhile, pure_eq_ok] at h
    exact h ▸ .refl
  | fuel + 1, names, s, s', h => by
    unfold cyclicWhile at h
    split_ifs at h
    · obtain ⟨r, hr, h⟩ := bind_eq_ok.1 h
      exact (cyclicRound_run hf hb hr).trans (cyclicWhile_run hf hb h)
    · exact pure_eq_ok.1 h ▸ .refl

/-- **Cyclic, also on a list of hosts, is a run of its iterations.** -/
theorem assignCyclic_run (hf : p ≠ "Fill-up") (hb : p ≠ "Best-effort") {hosts : List String}
    {s s' : Plan} (h : assignCyclic e hosts s = .ok s') : PolicyRun e p s s' :=
  cyclicWhile_run hf hb h

end cyclic

theorem bestEffortWhile_run {e : Env} : ∀ {fuel : ℕ} {s s' : Plan},
    bestEffortWhile e fuel s = .ok s' → PolicyRun e "Best-effort" s s'
  | 0, s, s', h => by
    simp only [bestEffortWhile, pure_eq_ok] at h
    exact h ▸ .refl
  | fuel + 1, s, s', h => by
    unfold bestEffortWhile at h
    split_ifs at h
    · obtain ⟨o, ho, h⟩ := bind_eq_ok.1 h
      cases o with
      | none => exact pure_eq_ok.1 h ▸ .refl
      | some s₁ => exact .head ho (bestEffortWhile_run h)
    · exact pure_eq_ok.1 h ▸ .refl

/-- **Best-effort is a run of its iterations.** -/
theorem assignBestEffort_run {e : Env} {s s' : Plan} (h : assignBestEffort e s = .ok s') :
    PolicyRun e "Best-effort" s s' := bestEffortWhile_run h

/-- `s'` comes from `s` by placements. -/
def Reaches (e : Env) (tr : Tracking) (s s' : Plan) : Prop := ∃ evs, Run (Placed e tr) s evs s'

theorem PolicyRun.reaches {e : Env} {p : String} {s s' : Plan} (h : PolicyRun e p s s') :
    Reaches e (policyTracking e p) s s' := by
  induction h with
  | refl => exact ⟨[], .nil⟩
  | tail _ hst ih =>
    obtain ⟨evs, hrun⟩ := ih
    obtain ⟨ev, hev⟩ := hst.placed
    exact ⟨_, hrun.snoc hev⟩

end ServerlessYarn
