/-
  ServerlessYARN model — when placements succeed.

  The converse of `Placement.lean`: on a host that accepts the container, with
  an available disk if one is needed, an iteration of Fill-up and a visit of
  Cyclic put the container there.
-/
import ServerlessYarn.DiskPlanning

namespace ServerlessYarn

section progress
variable {e : Env} {s : Plan} {name : String} {t : ContainerType} {c : Request} {host : Host}

/-- A disk of the host is available in `disk_assignation`. -/
def Plan.HasDisk (s : Plan) (name : String) (c : Request) (k : LimitKey) : Prop :=
  ∃ plans, s.disk_assignation.get? name = some plans ∧
    ∃ disk p, plans.get? disk = some p ∧ checkAvailableDisk p c k

theorem availableResources_eq_true (hacc : host.Accepts c e.check_energy e.limit_key)
    (hdisk : e.needsDisk t → s.HasDisk name c e.limit_key) :
    availableResources e s name host t c = .ok true := by
  unfold availableResources
  rw [if_pos (checkAvailableResources_iff.2 hacc)]
  split_ifs with hneeds
  · obtain ⟨plans, hplans, disk, p, hp, hok⟩ := hdisk hneeds
    simp only [bind_eq_ok, getItem_eq_ok, pure_eq_ok, List.any_eq_true]
    exact ⟨plans, hplans, (disk, p), Dict.get?_eq_some_iff.1 hp, hok⟩
  · rfl

theorem availableResources_eq_false (hacc : ¬ host.Accepts c e.check_energy e.limit_key) :
    availableResources e s name host t c = .ok false := by
  unfold availableResources
  rw [if_neg (checkAvailableResources_iff.not.2 hacc)]
  rfl

/-- The disk that Cyclic takes. -/
def cyclicDisk (e : Env) (t : ContainerType) (c : Request) (host : Host) : Option String :=
  if e.needsDisk t then getFreestDisk host (c.read e.limit_key) (c.write e.limit_key) else none

/-- **A visit of Cyclic puts a container of the type on the host**, if the host
    accepts it and, with disks, the freest disk is one of `disk_assignation`. -/
theorem cyclicVisit_place {ts : List ContainerType} (hpos : 0 < s.containers_to_allocate t)
    (hc : e.container_resources.get? t = some c) (hhost : s.hosts.get? name = some host)
    (hacc : host.Accepts c e.check_energy e.limit_key) (hkey : name ∈ s.assignation.keys)
    (hdisk : e.needsDisk t → s.HasDisk name c e.limit_key ∧ ∃ disk, cyclicDisk e t c host = some disk ∧
      (s.disk_assignation.disk? (name, disk)).isSome) :
    cyclicVisit e name (t :: ts) s =
      .ok (some (s.place .cyclic c e.limit_key ⟨name, t, cyclicDisk e t c host⟩)) := by
  unfold cyclicVisit
  simp only [if_pos hpos, bind_eq_ok, ContainerResources.getItem_eq_ok, getItem_eq_ok]
  refine ⟨c, hc, host, hhost, true,
    availableResources_eq_true hacc fun hneeds => (hdisk hneeds).1, ?_⟩
  simp only [if_true]
  by_cases hneeds : e.needsDisk t
  · obtain ⟨-, disk, hfreest, hplan⟩ := hdisk hneeds
    obtain ⟨p, hp⟩ := Option.isSome_iff_exists.1 hplan
    obtain ⟨plans, hplans, hp⟩ := Option.bind_eq_some_iff.1 hp
    rw [hfreest]
    rw [cyclicDisk, if_pos hneeds] at hfreest
    have hassign : assignFreestDisk s name c e.limit_key =
        .ok (some { s.chargeDisk name disk c e.limit_key with
          hosts := s.hosts.modify name fun h => h.chargeDisk disk c e.limit_key }) := by
      simp only [assignFreestDisk, bind_eq_ok, getItem_eq_ok]
      refine ⟨host, hhost, ?_⟩
      simp only [hfreest, bind_eq_ok, getItem_eq_ok, pure_eq_ok]
      exact ⟨plans, hplans, p, hp, rfl⟩
    simp only [if_pos hneeds, bind_eq_ok]
    refine ⟨_, hassign, ?_⟩
    simp only [bind_eq_ok, pure_eq_ok, Option.some.injEq, Plan.assign_eq_ok]
    refine ⟨_, ⟨hkey, rfl⟩, ?_⟩
    simp only [Plan.place, Plan.consume, Plan.chargeDisk, Dict.modify_modify, Function.comp_def,
      Host.place, Tracking.cyclic, Bool.false_eq_true, if_false, if_true]
    rfl
  · rw [cyclicDisk, if_neg hneeds]
    simp only [if_neg hneeds, bind_eq_ok, pure_eq_ok, Option.some.injEq, Plan.assign_eq_ok]
    refine ⟨_, ⟨hkey, rfl⟩, ?_⟩
    simp only [Plan.place, Plan.consume, Dict.modify_modify, Function.comp_def, Host.place,
      Tracking.cyclic, Bool.false_eq_true, if_false]

/-- Types with nothing left to allocate are skipped. -/
theorem cyclicVisit_skip {ts : List ContainerType} (hpos : ¬ 0 < s.containers_to_allocate t) :
    cyclicVisit e name (t :: ts) s = cyclicVisit e name ts s := by
  rw [cyclicVisit, if_neg hpos]

/-- A host that accepts no container gets none. -/
theorem cyclicVisit_reject (hhost : s.hosts.get? name = some host)
    (hreq : ∀ t, 0 < s.containers_to_allocate t → (e.container_resources.get? t).isSome)
    (hrej : ∀ t c, e.container_resources.get? t = some c →
      ¬ host.Accepts c e.check_energy e.limit_key) :
    ∀ ts : List ContainerType, cyclicVisit e name ts s = .ok none
  | [] => rfl
  | t :: ts => by
    by_cases hpos : 0 < s.containers_to_allocate t
    · obtain ⟨c, hc⟩ := Option.isSome_iff_exists.1 (hreq t hpos)
      unfold cyclicVisit
      simp only [if_pos hpos, bind_eq_ok, ContainerResources.getItem_eq_ok, getItem_eq_ok]
      refine ⟨c, hc, host, hhost, false, availableResources_eq_false (hrej t c hc), ?_⟩
      simp only [Bool.false_eq_true, if_false]
      exact cyclicVisit_reject hhost hreq hrej ts
    · rw [cyclicVisit_skip hpos]
      exact cyclicVisit_reject hhost hreq hrej ts

/-- **An iteration of Fill-up puts a container on the host**, if the host accepts
    it and has a disk available if one is needed. -/
theorem fillUpStep_succeeds (hc : e.container_resources.get? t = some c)
    (hhost : s.hosts.get? name = some host) (hacc : host.Accepts c e.check_energy e.limit_key)
    (hkey : name ∈ s.assignation.keys) (hdisk : e.needsDisk t → s.HasDisk name c e.limit_key) :
    ∃ s', fillUpStep e name t s = .ok (some s') := by
  obtain ⟨s₁, hs₁⟩ : ∃ s₁, s.assign name t = .ok s₁ := ⟨_, Plan.assign_eq_ok.2 ⟨hkey, rfl⟩⟩
  have hplans₁ : s₁.disk_assignation = s.disk_assignation := by
    obtain ⟨-, rfl⟩ := Plan.assign_eq_ok.1 hs₁
    rfl
  have hav := availableResources_eq_true (t := t) hacc hdisk
  by_cases hneeds : e.needsDisk t
  · obtain ⟨plans, hplans, disk, p, hp, hok⟩ := hdisk hneeds
    obtain ⟨d, hd⟩ : ∃ d, plans.entries.find? (fun d => checkAvailableDisk d.2 c e.limit_key) =
        some d := by
      refine Option.isSome_iff_exists.1 (List.find?_isSome.2 ?_)
      exact ⟨(disk, p), Dict.get?_eq_some_iff.1 hp, hok⟩
    refine ⟨((s₁.consume name .cpu (c.get .cpu e.limit_key)).consume name .mem
      (c.get .mem e.limit_key)).chargeDisk name d.1 c e.limit_key, ?_⟩
    simp only [fillUpStep, bind_eq_ok, ContainerResources.getItem_eq_ok, getItem_eq_ok]
    refine ⟨c, hc, host, hhost, true, hav, ?_⟩
    simp only [if_true, if_pos hneeds, bind_eq_ok, getItem_eq_ok]
    refine ⟨s₁, hs₁, plans, hplans₁ ▸ hplans, ?_⟩
    simp only [hd]
    rfl
  · refine ⟨(s₁.consume name .cpu (c.get .cpu e.limit_key)).consume name .mem
      (c.get .mem e.limit_key), ?_⟩
    simp only [fillUpStep, bind_eq_ok, ContainerResources.getItem_eq_ok, getItem_eq_ok]
    refine ⟨c, hc, host, hhost, true, hav, ?_⟩
    simp only [if_true, if_neg hneeds, bind_eq_ok, pure_eq_ok]
    exact ⟨s₁, hs₁, rfl⟩

end progress

end ServerlessYarn
