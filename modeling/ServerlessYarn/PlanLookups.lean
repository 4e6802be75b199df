/-
  ServerlessYARN model — what the policies look up in a plan
  (`ui/views/apps/utils.py`: `assign_fill_up`, `assign_cyclic`, `assign_best_effort`).

  `disk_assignation` has no entry for a host without disks.  Fill-up and Cyclic look it up
  for every container that needs a disk and passes the other checks, also on such a host.
  With the energy check, Best-effort divides by the maximum of energy.

  * `Placed.tracked`: all other entries are there and stay;
  * `fillUpTypes_ok_iff`, `cyclicVisit_ok_iff`, `bestEffortStep_ok_iff`: when an iteration
    of a policy does not raise.
-/
import ServerlessYarn.FreestHost
import ServerlessYarn.RoomLeft

namespace ServerlessYarn

/-! ## What the policies find in a plan -/

/-- The entries that the policies read are there: the types left to allocate, the
    assignation of every host and, if checked, the disks of every host that has some. -/
structure Plan.Tracked (e : Env) (s : Plan) : Prop where
  requested : ∀ t, 0 < s.containers_to_allocate t → (e.container_resources.get? t).isSome
  assigned : ∀ name ∈ s.hosts.keys, name ∈ s.assignation.keys
  planned : e.check_disks → ∀ name host, s.hosts.get? name = some host →
    (s.disk_assignation.get? name).map Dict.keys = host.disks.map Dict.keys

/-- A container of the type that is left needs a disk and passes the other checks on the
    host, which has no disks. -/
def Plan.Lacks (e : Env) (s : Plan) (name : String) (t : ContainerType) : Prop :=
  0 < s.containers_to_allocate t ∧ e.needsDisk t ∧ ∃ c host,
    e.container_resources.get? t = some c ∧ s.hosts.get? name = some host ∧
      host.disks = none ∧ host.Accepts c e.check_energy e.limit_key

/-- A host that passes the other checks for the type considered has 0 for its maximum of
    energy, and energy is checked. -/
def Plan.DividesByZero (e : Env) (s : Plan) : Prop :=
  e.check_energy ∧ ∃ t c, allocationOrder.find? (fun t => 0 < s.containers_to_allocate t) = some t ∧
    e.container_resources.get? t = some c ∧
      ∃ h ∈ acceptedHosts s.hosts.entries c true e.limit_key, h.2.energy_max = 0

section tracked
variable {e : Env} {tr : Tracking} {s s' : Plan} {ev : Placement} {name : String}
  {t : ContainerType} {c : Request} {host : Host}

theorem Plan.Tracked.isSome (hs : s.Tracked e) (hcd : e.check_disks)
    (hhost : s.hosts.get? name = some host) :
    (s.disk_assignation.get? name).isSome = host.disks.isSome := by
  have hkeys := congrArg Option.isSome (hs.planned hcd name host hhost)
  rwa [Option.isSome_map, Option.isSome_map] at hkeys

/-- A placement changes which disks a host has in neither record. -/
theorem Placed.tracked (h : Placed e tr s ev s') (hs : s.Tracked e) : s'.Tracked e := by
  constructor
  · intro t ht
    exact hs.requested t (ht.trans_le (h.toAllocate_le t))
  · intro name hname
    rw [h.assignation, Dict.keys_modify]
    exact hs.assigned name (h.hosts_keys ▸ hname)
  · intro hcd name host' hhost'
    obtain ⟨c, host, -, -, -, -, rfl⟩ := h.step
    have hplans : ((s.place tr c e.limit_key ev).disk_assignation.get? name).map Dict.keys =
        (s.disk_assignation.get? name).map Dict.keys := by
      rcases hev : ev.disk with _ | d
      · simp only [Plan.place, hev]
      · simp only [Plan.place, hev, Dict.get?_modify]
        split_ifs
        · exact Dict.map_keys_modify _ _ _
        · rfl
    rw [hplans]
    simp only [Plan.place, Dict.get?_modify] at hhost'
    split_ifs at hhost' with hn
    · obtain ⟨host₀, hhost₀, rfl⟩ := Option.map_eq_some_iff.1 hhost'
      rw [hs.planned hcd name host₀ hhost₀]
      rcases ev.disk with _ | d
      · rw [Host.place_disks_none]
      · rw [Host.place_disks_some]
        split_ifs
        · exact (Dict.map_keys_modify _ _ _).symm
        · rfl
    · exact hs.planned hcd name host' hhost'

theorem Reaches.tracked (h : Reaches e tr s s') (hs : s.Tracked e) : s'.Tracked e :=
  h.inv (fun _ _ _ hI hst => hst.tracked hI) hs

/-- A host in `disk_assignation` has disks. -/
theorem Plan.Lacks.not_planned (h : s.Lacks e name t) (hs : s.Tracked e) :
    name ∉ s.disk_assignation.keys := by
  obtain ⟨-, hneeds, c, host, -, hhost, hnone, -⟩ := h
  have hsome := hs.isSome (Env.needsDisk_checks hneeds) hhost
  rw [hnone, Option.isSome_none] at hsome
  rw [← Dict.get?_eq_none_iff]
  exact Option.isNone_iff_eq_none.1 (Option.isSome_eq_false_iff.1 hsome)

theorem Env.not_needsDisk_rm_nn : ¬ e.needsDisk .rm_nn := by
  simp [needsDisk]

theorem Plan.not_lacks_rm_nn : ¬ s.Lacks e name .rm_nn :=
  fun h => Env.not_needsDisk_rm_nn h.2.1

/-- A container that got a disk got one of a host in `disk_assignation`. -/
theorem Placed.host_planned (h : Placed e tr s ev s') (hneeds : e.needsDisk ev.type) :
    ev.host ∈ s.disk_assignation.keys := by
  obtain ⟨d, hd⟩ := Option.isSome_iff_exists.1 (h.disk_isSome.trans hneeds)
  obtain ⟨c, host, -, -, -, hchosen, -⟩ := h.step
  obtain ⟨plans, p, hplans, -⟩ := hchosen d hd
  exact Dict.mem_keys_of_get? hplans

theorem Reaches.disk_assignation_keys (h : Reaches e tr s s') :
    s'.disk_assignation.keys = s.disk_assignation.keys :=
  h.inv (I := fun s₁ => s₁.disk_assignation.keys = s.disk_assignation.keys)
    (fun _ _ _ hI hst => hst.disk_assignation_keys.trans hI) rfl

/-! ## The check of the resources -/

/-- The check returns unless it looks up the disks of a host that has none. -/
theorem Plan.Tracked.availableResources_iff (hs : s.Tracked e) (hpos : 0 < s.containers_to_allocate t)
    (hc : e.container_resources.get? t = some c) (hhost : s.hosts.get? name = some host) :
    (∃ av, availableResources e s name host t c = .ok av) ↔ ¬ s.Lacks e name t := by
  by_cases hacc : host.Accepts c e.check_energy e.limit_key
  · unfold availableResources
    rw [if_pos (checkAvailableResources_iff.2 hacc)]
    by_cases hneeds : e.needsDisk t
    · rw [if_pos hneeds]
      cases hplans : s.disk_assignation.get? name with
      | none =>
        refine iff_of_false ?_ (not_not.2 ?_)
        · rintro ⟨av, hav⟩
          obtain ⟨plans, hget, -⟩ := bind_eq_ok.1 hav
          rw [getItem_eq_ok, hplans] at hget
          cases hget
        · have hsome := hs.isSome (Env.needsDisk_checks hneeds) hhost
          rw [hplans] at hsome
          have hnone : host.disks = none :=
            Option.isNone_iff_eq_none.1 (Option.isSome_eq_false_iff.1 hsome.symm)
          exact ⟨hpos, hneeds, c, host, hc, hhost, hnone, hacc⟩
      | some plans =>
        refine iff_of_true ⟨_, bind_eq_ok.2 ⟨plans, getItem_eq_ok.2 hplans, rfl⟩⟩ ?_
        exact fun hlacks => hlacks.not_planned hs (Dict.mem_keys_of_get? hplans)
    · rw [if_neg hneeds]
      exact iff_of_true ⟨true, rfl⟩ fun hlacks => hneeds hlacks.2.1
  · refine iff_of_true ⟨false, availableResources_eq_false hacc⟩ ?_
    rintro ⟨-, -, c', host', hc', hhost', -, hacc'⟩
    obtain rfl : c = c' := Option.some.inj (hc.symm.trans hc')
    obtain rfl : host = host' := Option.some.inj (hhost.symm.trans hhost')
    exact hacc hacc'

/-- `assign_freest_disk` returns: the disk that it finds is in `disk_assignation`. -/
theorem Plan.Tracked.assignFreestDisk (hs : s.Tracked e) (hcd : e.check_disks)
    (hhost : s.hosts.get? name = some host) :
    ∃ o, assignFreestDisk s name c e.limit_key = .ok o := by
  unfold ServerlessYarn.assignFreestDisk
  simp only [getItem_eq_ok.2 hhost, bind, Except.bind]
  cases hdisk : getFreestDisk host (c.read e.limit_key) (c.write e.limit_key) with
  | none => exact ⟨none, rfl⟩
  | some disk =>
    obtain ⟨disks, d, hdisks, hd, -⟩ := getFreestDisk_fits hdisk
    have hkeys := hs.planned hcd name host hhost
    rw [hdisks, Option.map_some] at hkeys
    obtain ⟨plans, hplans, hkeys⟩ := Option.map_eq_some_iff.1 hkeys
    obtain ⟨p, hp⟩ := Dict.mem_keys_iff.1 (hkeys ▸ Dict.mem_keys_of_get? hd)
    simp only [getItem_eq_ok.2 hplans, getItem_eq_ok.2 hp]
    exact ⟨_, rfl⟩

end tracked

/-! ## Fill-up -/

section fillUp
variable {e : Env} {name : String} {t : ContainerType} {s s' : Plan}

theorem fillUpStep_ok_iff (hs : s.Tracked e) (hname : name ∈ s.hosts.keys)
    (hpos : 0 < s.containers_to_allocate t) :
    (∃ o, fillUpStep e name t s = .ok o) ↔ ¬ s.Lacks e name t := by
  obtain ⟨c, hc⟩ := Option.isSome_iff_exists.1 (hs.requested t hpos)
  obtain ⟨host, hhost⟩ := Dict.mem_keys_iff.1 hname
  rw [← hs.availableResources_iff hpos hc hhost]
  constructor
  · rintro ⟨o, ho⟩
    simp only [fillUpStep, bind_eq_ok, ContainerResources.getItem_eq_ok, getItem_eq_ok] at ho
    obtain ⟨c', hc', host', hhost', av, hav, -⟩ := ho
    obtain rfl : c = c' := Option.some.inj (hc.symm.trans hc')
    obtain rfl : host = host' := Option.some.inj (hhost.symm.trans hhost')
    exact ⟨av, hav⟩
  · rintro ⟨av, hav⟩
    cases av with
    | true =>
      obtain ⟨hacc, hdisk⟩ := availableResources_true hav
      obtain ⟨s', hs'⟩ := fillUpStep_succeeds hc hhost hacc (hs.assigned name hname) hdisk
      exact ⟨some s', hs'⟩
    | false =>
      refine ⟨none, ?_⟩
      simp only [fillUpStep, bind_eq_ok, ContainerResources.getItem_eq_ok, getItem_eq_ok]
      exact ⟨c, hc, host, hhost, false, hav, rfl⟩

/-- Only the first iteration can raise: a container is put on the host after it got a disk. -/
theorem fillUpWhile_ok_iff : ∀ {fuel : ℕ} {s : Plan}, s.Tracked e → name ∈ s.hosts.keys →
    (s.containers_to_allocate t).toNat ≤ fuel →
      ((∃ s', fillUpWhile e name t fuel s = .ok s') ↔ ¬ s.Lacks e name t) := by
  intro fuel
  induction fuel with
  | zero =>
    intro s hs hname hf
    refine iff_of_true ⟨s, rfl⟩ fun hlacks => ?_
    have hpos := hlacks.1
    omega
  | succ fuel ih =>
    intro s hs hname hf
    rw [fillUpWhile]
    by_cases hpos : 0 < s.containers_to_allocate t
    · rw [if_pos hpos, ← fillUpStep_ok_iff hs hname hpos]
      constructor
      · rintro ⟨s', hs'⟩
        obtain ⟨o, ho, -⟩ := bind_eq_ok.1 hs'
        exact ⟨o, ho⟩
      · rintro ⟨_ | s₁, ho⟩
        · exact ⟨s, bind_eq_ok.2 ⟨none, ho, rfl⟩⟩
        · obtain ⟨d, hev⟩ := fillUpStep_placed hpos ho
          have hfuel : (s₁.containers_to_allocate t).toNat ≤ fuel := by
            rw [hev.toAllocate]
            simp only [Function.update_self]
            omega
          have hnot : ¬ s₁.Lacks e name t := by
            intro hlacks
            refine hlacks.not_planned (hev.tracked hs) ?_
            rw [hev.disk_assignation_keys]
            exact hev.host_planned hlacks.2.1
          obtain ⟨s', hs'⟩ := (ih (hev.tracked hs) (hev.hosts_keys ▸ hname) hfuel).2 hnot
          exact ⟨s', bind_eq_ok.2 ⟨some s₁, ho, hs'⟩⟩
    · rw [if_neg hpos]
      exact iff_of_true ⟨s, rfl⟩ fun hlacks => hpos hlacks.1

theorem fillUpWhile_reaches {fuel : ℕ} (h : fillUpWhile e name t fuel s = .ok s') :
    Reaches e .fillUp s s' :=
  (fillUpWhile_run h).reaches

/-- The loop leaves the plan as it is, or the host has a disk if the type needs one. -/
theorem fillUpWhile_eq_or {fuel : ℕ} (h : fillUpWhile e name t fuel s = .ok s') :
    s' = s ∨ (e.needsDisk t → name ∈ s.disk_assignation.keys) := by
  cases fuel with
  | zero => exact Or.inl (pure_eq_ok.1 h).symm
  | succ fuel =>
    rw [fillUpWhile] at h
    split_ifs at h with hpos
    · obtain ⟨_ | s₁, ho, h⟩ := bind_eq_ok.1 h
      · exact Or.inl (pure_eq_ok.1 h).symm
      · obtain ⟨d, hev⟩ := fillUpStep_placed hpos ho
        exact Or.inr fun hneeds => hev.host_planned hneeds
    · exact Or.inl (pure_eq_ok.1 h).symm

/-- What a host lacks for a type is the same after the loop over another one that needs a
    disk. -/
theorem fillUpWhile_lacks_iff (hs : s.Tracked e) {fuel : ℕ}
    (h : fillUpWhile e name t fuel s = .ok s') (ht : t ≠ .rm_nn) (t' : ContainerType) :
    s'.Lacks e name t' ↔ s.Lacks e name t' := by
  rcases fillUpWhile_eq_or h with rfl | hkey
  · rfl
  · have hreach := fillUpWhile_reaches h
    have hneeds : ∀ {t'}, e.needsDisk t' → e.needsDisk t := by
      intro t' hneeds
      simp only [Env.needsDisk, Bool.and_eq_true, decide_eq_true_eq] at hneeds ⊢
      exact ⟨ht, hneeds.2⟩
    refine iff_of_false (fun hlacks => ?_) fun hlacks => ?_
    · refine hlacks.not_planned (hreach.tracked hs) ?_
      rw [hreach.disk_assignation_keys]
      exact hkey (hneeds hlacks.2.1)
    · exact hlacks.not_planned hs (hkey (hneeds hlacks.2.1))

/-- The loop over types that need a disk, and then the master. -/
theorem fillUpTypes_ok_iff : ∀ {ts : List ContainerType} {s : Plan}, s.Tracked e →
    name ∈ s.hosts.keys → .rm_nn ∉ ts →
      ((∃ s', fillUpTypes e name (ts ++ [.rm_nn]) s = .ok s') ↔ ∀ t ∈ ts, ¬ s.Lacks e name t) := by
  intro ts
  induction ts with
  | nil =>
    intro s hs hname _
    obtain ⟨s', hs'⟩ := (fillUpWhile_ok_iff hs hname le_rfl).2 Plan.not_lacks_rm_nn
    exact iff_of_true ⟨s', bind_eq_ok.2 ⟨s', hs', rfl⟩⟩ fun t ht => absurd ht List.not_mem_nil
  | cons t ts ih =>
    intro s hs hname hmem
    obtain ⟨ht, hmem⟩ := List.ne_and_not_mem_of_not_mem_cons hmem
    rw [List.cons_append, fillUpTypes, List.forall_mem_cons,
      ← fillUpWhile_ok_iff hs hname (le_refl (s.containers_to_allocate t).toNat)]
    constructor
    · rintro ⟨s', h⟩
      obtain ⟨s₁, hs₁, h⟩ := bind_eq_ok.1 h
      have hreach := fillUpWhile_reaches hs₁
      refine ⟨⟨s₁, hs₁⟩, fun t' ht' => ?_⟩
      rw [← fillUpWhile_lacks_iff hs hs₁ ht.symm]
      exact (ih (hreach.tracked hs) (hreach.hosts_keys ▸ hname) hmem).1 ⟨s', h⟩ t' ht'
    · rintro ⟨⟨s₁, hs₁⟩, hrest⟩
      have hreach := fillUpWhile_reaches hs₁
      have hrest₁ : ∀ t' ∈ ts, ¬ s₁.Lacks e name t' := by
        intro t' ht'
        rw [fillUpWhile_lacks_iff hs hs₁ ht.symm]
        exact hrest t' ht'
      obtain ⟨s', h⟩ := (ih (hreach.tracked hs) (hreach.hosts_keys ▸ hname) hmem).2 hrest₁
      exact ⟨s', bind_eq_ok.2 ⟨s₁, hs₁, h⟩⟩

end fillUp

/-! ## Cyclic -/

section cyclic
variable {e : Env} {name : String} {s : Plan} {t : ContainerType} {c : Request}

/-- Once the checks pass, the rest of the visit returns. -/
theorem cyclicVisit_available (hs : s.Tracked e) (hname : name ∈ s.hosts.keys) {host : Host}
    {ts : List ContainerType} (hpos : 0 < s.containers_to_allocate t)
    (hc : e.container_resources.get? t = some c) (hhost : s.hosts.get? name = some host)
    (hav : availableResources e s name host t c = .ok true) :
    ∃ o, cyclicVisit e name (t :: ts) s = .ok o := by
  have hassign : ∀ s₁ : Plan, s₁.assignation = s.assignation → ∃ s₂, s₁.assign name t = .ok s₂ :=
    fun s₁ hs₁ => ⟨_, Plan.assign_eq_ok.2 ⟨hs₁ ▸ hs.assigned name hname, rfl⟩⟩
  rw [cyclicVisit, if_pos hpos, ContainerResources.getItem_eq_ok.2 hc]
  simp only [bind, Except.bind, getItem_eq_ok.2 hhost, hav, if_true]
  by_cases hneeds : e.needsDisk t
  · obtain ⟨o, ho⟩ := hs.assignFreestDisk (c := c) (Env.needsDisk_checks hneeds) hhost
    rw [if_pos hneeds, ho]
    cases o with
    | none => exact ⟨none, rfl⟩
    | some s₁ =>
      obtain ⟨host', disk, plans, p, -, -, -, -, rfl⟩ := assignFreestDisk_eq_some ho
      obtain ⟨s₂, hs₂⟩ := hassign (Plan.consume (Plan.consume { s.chargeDisk name disk c e.limit_key with
        hosts := s.hosts.modify name fun h => h.chargeDisk disk c e.limit_key } name .cpu
          (c.get .cpu e.limit_key)) name .mem (c.get .mem e.limit_key)) rfl
      simp only [hs₂]
      exact ⟨some s₂, rfl⟩
  · rw [if_neg hneeds]
    obtain ⟨s₂, hs₂⟩ := hassign ((s.consume name .cpu (c.get .cpu e.limit_key)).consume name .mem
      (c.get .mem e.limit_key)) rfl
    simp only [hs₂]
    exact ⟨some s₂, rfl⟩

/-- The visit of a host, with the types that need a disk before the master. -/
theorem cyclicVisit_ok_iff (hs : s.Tracked e) (hname : name ∈ s.hosts.keys) :
    ∀ {ts : List ContainerType}, .rm_nn ∉ ts →
      ((∃ o, cyclicVisit e name (ts ++ [.rm_nn]) s = .ok o) ↔ ∀ t ∈ ts, ¬ s.Lacks e name t) := by
  obtain ⟨host, hhost⟩ := Dict.mem_keys_iff.1 hname
  -- a type that is considered: what its check gives decides
  have hcheck : ∀ {t : ContainerType} (ts : List ContainerType), 0 < s.containers_to_allocate t →
      ∃ c, e.container_resources.get? t = some c ∧
        (availableResources e s name host t c = .ok false →
          cyclicVisit e name (t :: ts) s = cyclicVisit e name ts s) ∧
        ∀ err, availableResources e s name host t c = .error err →
          cyclicVisit e name (t :: ts) s = .error err := by
    intro t ts hpos
    obtain ⟨c, hc⟩ := Option.isSome_iff_exists.1 (hs.requested t hpos)
    refine ⟨c, hc, ?_⟩
    rw [cyclicVisit, if_pos hpos, ContainerResources.getItem_eq_ok.2 hc]
    simp only [bind, Except.bind, getItem_eq_ok.2 hhost]
    refine ⟨fun hav => ?_, fun err hav => ?_⟩
    · simp only [hav, Bool.false_eq_true, if_false]
    · simp only [hav]
  intro ts
  induction ts with
  | nil =>
    intro _
    refine iff_of_true ?_ fun t ht => absurd ht List.not_mem_nil
    by_cases hpos : 0 < s.containers_to_allocate .rm_nn
    · obtain ⟨c, hc, hfalse, -⟩ := hcheck [] hpos
      obtain ⟨av, hav⟩ := (hs.availableResources_iff hpos hc hhost).2 Plan.not_lacks_rm_nn
      cases av with
      | true => exact cyclicVisit_available hs hname hpos hc hhost hav
      | false => exact ⟨none, hfalse hav⟩
    · exact ⟨none, cyclicVisit_skip hpos⟩
  | cons t ts ih =>
    intro hmem
    obtain ⟨ht, hmem⟩ := List.ne_and_not_mem_of_not_mem_cons hmem
    rw [List.cons_append, List.forall_mem_cons]
    by_cases hpos : 0 < s.containers_to_allocate t
    · obtain ⟨c, hc, hfalse, herror⟩ := hcheck (ts ++ [.rm_nn]) hpos
      have hlacks := hs.availableResources_iff hpos hc hhost
      rcases hav : availableResources e s name host t c with err | _ | _
      · rw [herror err hav]
        refine iff_of_false ?_ fun h => ?_
        · rintro ⟨o, ho⟩
          cases ho
        · obtain ⟨av, hav'⟩ := hlacks.2 h.1
          rw [hav] at hav'
          cases hav'
      · rw [hfalse hav, ih hmem]
        exact (and_iff_right (hlacks.1 ⟨false, hav⟩)).symm
      · -- available: if a disk was needed the host is in `disk_assignation`
        refine iff_of_true (cyclicVisit_available hs hname hpos hc hhost hav) ?_
        refine ⟨hlacks.1 ⟨true, hav⟩, fun t' _ hlacks' => hlacks'.not_planned hs ?_⟩
        have hneeds : e.needsDisk t := by
          have hcd := Env.needsDisk_checks hlacks'.2.1
          simp [Env.needsDisk, ht.symm, hcd]
        obtain ⟨plans, hplans, -⟩ := (availableResources_true hav).2 hneeds
        exact Dict.mem_keys_of_get? hplans
    · rw [cyclicVisit_skip hpos, ih hmem]
      exact (and_iff_right fun hlacks : s.Lacks e name t => hpos hlacks.1).symm

end cyclic

/-! ## Best-effort -/

section bestEffort
variable {e : Env} {s : Plan}

/-- The selection of a host raises only where it divides by the maximum of energy. -/
theorem getFreestHost_ok_iff {hosts : Hosts} {c : Request} (cd : Bool) {ce : Bool} {k : LimitKey} :
    (∃ r, getFreestHost hosts c cd ce k = .ok r) ↔
      ¬ (ce ∧ ∃ h ∈ acceptedHosts hosts.entries c true k, h.2.energy_max = 0) := by
  cases ce with
  | true =>
    by_cases hzero : ∃ h ∈ acceptedHosts hosts.entries c true k, h.2.energy_max = 0
    · refine iff_of_false ?_ fun h => h ⟨rfl, hzero⟩
      obtain ⟨h, hh, hmax⟩ := hzero
      rintro ⟨r, hr⟩
      rw [getFreestHost, freestHostLoop_raises hh hmax] at hr
      cases hr
    · refine iff_of_true ⟨_, getFreestHost_energy fun h hh hmax => hzero ⟨h, hh, hmax⟩⟩ ?_
      rintro ⟨-, h⟩
      exact hzero h
  | false =>
    refine iff_of_true ?_ fun h => Bool.false_ne_true h.1
    cases cd with
    | true => exact ⟨_, getFreestHost_disks⟩
    | false => exact ⟨_, freestHostLoop_eq_plain (-1) hosts.entries⟩

theorem bestEffortAssign_ok {name : String} (h : name ∈ s.assignation.keys) (t : ContainerType)
    (c : Request) : ∃ s', bestEffortAssign e name t c s = .ok s' := by
  refine ⟨_, Plan.assign_eq_ok.2 ⟨?_, rfl⟩⟩
  show name ∈ (if e.check_energy then s.consume name .energy (c.get .energy e.limit_key) else s).assignation.keys
  split_ifs
  · exact h
  · exact h

/-- Once the selection returns, the rest of the step returns. -/
theorem bestEffortStep_selected (hs : s.Tracked e) {t : ContainerType} {ts : List ContainerType} {c : Request}
    {r : Option String} (hpos : 0 < s.containers_to_allocate t) (hc : e.container_resources.get? t = some c)
    (hr : getFreestHost s.hosts c (e.needsDisk t) e.check_energy e.limit_key = .ok r) :
    ∃ o, bestEffortStep e (t :: ts) s = .ok o := by
  rw [bestEffortStep, if_pos hpos, ContainerResources.getItem_eq_ok.2 hc]
  simp only [bind, Except.bind, hr]
  cases r with
  | none => exact ⟨none, rfl⟩
  | some name =>
    obtain ⟨host, hhost, -⟩ := getFreestHost_accepts hr
    have hkey := hs.assigned name (Dict.mem_keys_of_get? hhost)
    by_cases hneeds : e.needsDisk t
    · obtain ⟨o, ho⟩ := hs.assignFreestDisk (c := c) (Env.needsDisk_checks hneeds) hhost
      simp only [if_pos hneeds, ho]
      cases o with
      | none => exact ⟨none, rfl⟩
      | some s₁ =>
        obtain ⟨host', disk, plans, p, -, -, -, -, rfl⟩ := assignFreestDisk_eq_some ho
        obtain ⟨s₂, hs₂⟩ := bestEffortAssign_ok (e := e)
          (s := { s.chargeDisk name disk c e.limit_key with
            hosts := s.hosts.modify name fun h => h.chargeDisk disk c e.limit_key }) hkey t c
        simp only [hs₂]
        exact ⟨some s₂, rfl⟩
    · obtain ⟨s₂, hs₂⟩ := bestEffortAssign_ok (e := e) hkey t c
      simp only [if_neg hneeds, hs₂]
      exact ⟨some s₂, rfl⟩

theorem bestEffortStep_ok_iff (hs : s.Tracked e) : ∀ {ts : List ContainerType},
    (∃ o, bestEffortStep e ts s = .ok o) ↔
      ¬ (e.check_energy ∧ ∃ t c, ts.find? (fun t => 0 < s.containers_to_allocate t) = some t ∧
        e.container_resources.get? t = some c ∧
          ∃ h ∈ acceptedHosts s.hosts.entries c true e.limit_key, h.2.energy_max = 0) := by
  intro ts
  induction ts with
  | nil =>
    refine iff_of_true ⟨none, rfl⟩ ?_
    rintro ⟨-, t, c, hfind, -⟩
    cases hfind
  | cons t ts ih =>
    by_cases hpos : 0 < s.containers_to_allocate t
    · obtain ⟨c, hc⟩ := Option.isSome_iff_exists.1 (hs.requested t hpos)
      have hfind : (t :: ts).find? (fun t => 0 < s.containers_to_allocate t) = some t :=
        List.find?_cons_of_pos (decide_eq_true hpos)
      have hzero : (∃ t' c', (t :: ts).find? (fun t => 0 < s.containers_to_allocate t) = some t' ∧
          e.container_resources.get? t' = some c' ∧
            ∃ h ∈ acceptedHosts s.hosts.entries c' true e.limit_key, h.2.energy_max = 0) ↔
          ∃ h ∈ acceptedHosts s.hosts.entries c true e.limit_key, h.2.energy_max = 0 := by
        constructor
        · rintro ⟨t', c', hfind', hc', h⟩
          obtain rfl : t = t' := Option.some.inj (hfind.symm.trans hfind')
          obtain rfl : c = c' := Option.some.inj (hc.symm.trans hc')
          exact h
        · intro h
          exact ⟨t, c, hfind, hc, h⟩
      rw [hzero, ← getFreestHost_ok_iff (e.needsDisk t)]
      constructor
      · rintro ⟨o, ho⟩
        rw [bestEffortStep, if_pos hpos, ContainerResources.getItem_eq_ok.2 hc] at ho
        simp only [bind, Except.bind] at ho
        cases hr : getFreestHost s.hosts c (e.needsDisk t) e.check_energy e.limit_key with
        | error err =>
          rw [hr] at ho
          cases ho
        | ok r => exact ⟨r, rfl⟩
      · rintro ⟨r, hr⟩
        exact bestEffortStep_selected hs hpos hc hr
    · rw [bestEffortStep, if_neg hpos, List.find?_cons_of_neg (by simpa using hpos)]
      exact ih

end bestEffort

end ServerlessYarn
