/-
  ServerlessYARN model — a host with room for everything.

  If one host has room for all containers left (cpu, mem and a disk), Fill-up
  on that host alone, and Cyclic when the other hosts accept nothing, put all
  containers there.

  * `assignFillUp_ample`, `assignCyclic_ample`;
  * `AppRequest.onRoomyHosts_plan`: hosts on which a request succeeds.
-/
import ServerlessYarn.RoomLeft

namespace ServerlessYarn

/-- The host has cpu, mem and bandwidth for all containers left, if `M` bounds
    what one of them requests, and the energy `E` for each of them. -/
structure Ample (e : Env) (M E : ℚ) (name : String) (s : Plan) : Prop where
  nonneg : ∀ t, 0 ≤ s.containers_to_allocate t
  requested : ∀ t, 0 < s.containers_to_allocate t → ∃ c, e.container_resources.get? t = some c ∧
    c.get .cpu e.limit_key ≤ M ∧ c.get .mem e.limit_key ≤ M ∧
    c.bandwidth e.limit_key ≤ (M, M, M) ∧ c.get .energy e.limit_key ≤ E
  key : name ∈ s.assignation.keys
  host : ∃ h, s.hosts.get? name = some h ∧ h.free .energy = E ∧
    containersNotAllocated s.containers_to_allocate * M ≤ h.free .cpu ∧
    containersNotAllocated s.containers_to_allocate * M ≤ h.free .mem
  disk : e.check_disks → ∃ d p, s.disk_assignation.disk? (name, d) = some p ∧
    (containersNotAllocated s.containers_to_allocate * M,
      containersNotAllocated s.containers_to_allocate * M,
      containersNotAllocated s.containers_to_allocate * M) ≤ p.free

section ample
variable {e : Env} {tr : Tracking} {M E : ℚ} {name : String} {s s' : Plan}

theorem Ample.pos (h : Ample e M E name s) {t : ContainerType}
    (hpos : 0 < s.containers_to_allocate t) :
    1 ≤ containersNotAllocated s.containers_to_allocate := notAllocated_pos h.nonneg hpos

theorem exists_pos_of_notAllocated (hleft : 0 < containersNotAllocated s.containers_to_allocate) :
    ∃ t, 0 < s.containers_to_allocate t := by
  by_contra hnone
  have hzero : ∀ t, s.containers_to_allocate t ≤ 0 := fun t => not_lt.1 fun ht => hnone ⟨t, ht⟩
  have : containersNotAllocated s.containers_to_allocate ≤ 0 :=
    Finset.sum_nonpos fun t _ => hzero t
  omega

/-- **A placement keeps the room for the others.** -/
theorem Ample.placed (hM : 0 ≤ M) (htr : tr.energy = false) {ev : Placement}
    (h : Ample e M E name s) (hev : Placed e tr s ev s') : Ample e M E name s' := by
  have hN := h.pos hev.pos
  obtain ⟨c, hc, hcpu, hmem, hbw, -⟩ := h.requested ev.type hev.pos
  have hleft : (containersNotAllocated s'.containers_to_allocate : ℚ) * M =
      containersNotAllocated s.containers_to_allocate * M - M := by
    rw [hev.notAllocated]
    push_cast
    ring
  refine ⟨hev.toAllocate_nonneg h.nonneg, fun t ht => h.requested t ?_, ?_, ?_, fun hcd => ?_⟩
  · rw [hev.toAllocate, Function.update_apply] at ht
    split_ifs at ht with htt
    · rw [htt]; exact hev.pos
    · exact ht
  · rw [hev.assignation, Dict.keys_modify]
    exact h.key
  · obtain ⟨host, hhost, hen, hfcpu, hfmem⟩ := h.host
    obtain ⟨c', host', hc', hhost', -, -, rfl⟩ := hev.step
    obtain rfl : c = c' := Option.some.inj (hc.symm.trans hc')
    simp only [Plan.place, Dict.get?_modify]
    simp only [Plan.place] at hleft
    rw [hleft]
    by_cases hn : name = ev.host
    · subst hn
      rw [hhost] at hhost'
      cases hhost'
      refine ⟨_, by rw [if_pos rfl, hhost]; rfl, ?_, ?_, ?_⟩
      · simpa [Host.place_free, htr] using hen
      · simp only [Host.place_free, reduceCtorEq, false_and, if_false]
        linarith
      · simp only [Host.place_free, reduceCtorEq, false_and, if_false]
        linarith
    · refine ⟨host, by rw [if_neg hn]; exact hhost, hen, ?_, ?_⟩ <;> linarith
  · obtain ⟨d, p, hp, hfree⟩ := h.disk hcd
    obtain ⟨c', hc', hdisk⟩ := hev.disk? (name, d)
    obtain rfl : c = c' := Option.some.inj (hc.symm.trans hc')
    rw [hleft]
    simp only [Prod.le_def] at hfree hbw
    by_cases hpl : ev.place = some (name, d)
    · refine ⟨d, p.charge c e.limit_key, by rw [hdisk, if_pos hpl, hp]; rfl, ?_⟩
      rw [DiskPlan.free_charge]
      refine ⟨?_, ?_, ?_⟩
      · exact sub_le_sub hfree.1 hbw.1
      · exact sub_le_sub hfree.2.1 hbw.2.1
      · exact sub_le_sub hfree.2.2 hbw.2.2
    · refine ⟨d, p, by rw [hdisk, if_neg hpl, hp], ?_⟩
      refine ⟨?_, ?_, ?_⟩
      · exact (sub_le_self _ hM).trans hfree.1
      · exact (sub_le_self _ hM).trans hfree.2.1
      · exact (sub_le_self _ hM).trans hfree.2.2

/-- The host accepts every container left, and has a disk for it. -/
theorem Ample.accepts (hM : 0 ≤ M) (h : Ample e M E name s) {t : ContainerType}
    (hpos : 0 < s.containers_to_allocate t) :
    ∃ c host, e.container_resources.get? t = some c ∧ s.hosts.get? name = some host ∧
      host.Accepts c e.check_energy e.limit_key ∧
      (e.check_disks → s.HasDisk name c e.limit_key) := by
  have hN : (1 : ℚ) ≤ containersNotAllocated s.containers_to_allocate := by exact_mod_cast h.pos hpos
  have hroom : M ≤ containersNotAllocated s.containers_to_allocate * M := le_mul_of_one_le_left hM hN
  obtain ⟨c, hc, hcpu, hmem, hbw, hen⟩ := h.requested t hpos
  obtain ⟨host, hhost, hE, hfcpu, hfmem⟩ := h.host
  refine ⟨c, host, hc, hhost, ⟨?_, ?_, fun _ => hE ▸ hen⟩, fun hcd => ?_⟩
  · exact hcpu.trans (hroom.trans hfcpu)
  · exact hmem.trans (hroom.trans hfmem)
  · obtain ⟨d, p, hp, hfree⟩ := h.disk hcd
    obtain ⟨plans, hplans, hget⟩ := Option.bind_eq_some_iff.1 hp
    refine ⟨plans, hplans, d, p, hget, checkAvailableDisk_iff.2 (hbw.trans (le_trans ?_ hfree))⟩
    exact ⟨hroom, hroom, hroom⟩

end ample

/-! ## Runs on one host -/

/-- `s'` comes from `s` by placements on the host. -/
def OnHost (e : Env) (tr : Tracking) (name : String) (s s' : Plan) : Prop :=
  ∃ evs, Run (Placed e tr) s evs s' ∧ ∀ ev ∈ evs, ev.host = name

namespace OnHost
variable {e : Env} {tr : Tracking} {M E : ℚ} {name : String} {s s' s'' : Plan}

theorem refl (s : Plan) : OnHost e tr name s s := ⟨[], .nil, by simp⟩

theorem head {ev : Placement} (h : Placed e tr s ev s') (hn : ev.host = name)
    (h' : OnHost e tr name s' s'') : OnHost e tr name s s'' := by
  obtain ⟨evs, hrun, hall⟩ := h'
  refine ⟨ev :: evs, hrun.cons h, fun ev' hev' => ?_⟩
  rcases List.mem_cons.1 hev' with rfl | hev'
  · exact hn
  · exact hall ev' hev'

theorem trans (h : OnHost e tr name s s') (h' : OnHost e tr name s' s'') :
    OnHost e tr name s s'' := by
  obtain ⟨evs, hrun, hall⟩ := h
  obtain ⟨evs', hrun', hall'⟩ := h'
  exact ⟨evs ++ evs', hrun.append hrun', fun ev hev => (List.mem_append.1 hev).elim (hall ev) (hall' ev)⟩

theorem ample (hM : 0 ≤ M) (htr : tr.energy = false) (h : OnHost e tr name s s')
    (hs : Ample e M E name s) : Ample e M E name s' := by
  obtain ⟨evs, hrun, -⟩ := h
  exact hrun.inv (fun _ _ _ hI hst => hI.placed hM htr hst) hs

theorem reaches (h : OnHost e tr name s s') : Reaches e tr s s' := ⟨h.choose, h.choose_spec.1⟩

/-- The number of containers of a type on the host grows by what was allocated. -/
theorem count_add (h : OnHost e tr name s s') (t : ContainerType) :
    s'.count name t + s'.containers_to_allocate t =
      s.count name t + s.containers_to_allocate t := by
  obtain ⟨evs, hrun, hall⟩ := h
  have hinv := hrun.inv_hist (I := fun evs s₁ => (∀ ev ∈ evs, ev.host = name) →
      (s₁.count name t + s₁.containers_to_allocate t : ℤ) =
        s.count name t + s.containers_to_allocate t) (fun _ => rfl) ?_
  · exact hinv hall
  · intro es s₁ ev s₂ _ hI hst hes
    have hn : ev.host = name := hes ev (List.mem_append_right _ List.mem_cons_self)
    rw [← hI fun ev' hev' => hes ev' (List.mem_append_left _ hev'), hst.count, hst.toAllocate,
      Function.update_apply]
    by_cases ht : t = ev.type
    · subst ht; simp only [hn, and_self, if_true]; push_cast; omega
    · simp [ht, Ne.symm ht]

end OnHost

/-! ## Fill-up -/

section fillUp
variable {e : Env} {M E : ℚ} {name : String}

theorem fillUpWhile_ample (hM : 0 ≤ M) (t : ContainerType) : ∀ (fuel : ℕ) {s : Plan},
    Ample e M E name s → (s.containers_to_allocate t).toNat ≤ fuel →
      ∃ s', fillUpWhile e name t fuel s = .ok s' ∧ OnHost e .fillUp name s s' ∧
        s'.containers_to_allocate t ≤ 0
  | 0, s, _, hf => ⟨s, rfl, .refl s, by omega⟩
  | fuel + 1, s, hs, hf => by
    unfold fillUpWhile
    split_ifs with hpos
    · obtain ⟨c, host, hc, hhost, hacc, hdisk⟩ := hs.accepts hM hpos
      obtain ⟨s₁, hs₁⟩ := fillUpStep_succeeds hc hhost hacc hs.key fun hneeds =>
        hdisk (Env.needsDisk_checks hneeds)
      obtain ⟨d, hev⟩ := fillUpStep_placed hpos hs₁
      obtain ⟨s', hs', hon, hzero⟩ := fillUpWhile_ample hM t fuel
        (hs.placed hM rfl hev) (by
        rw [hev.toAllocate]
        simp only [Function.update_self]
        omega)
      refine ⟨s', ?_, .head hev rfl hon, hzero⟩
      simp only [hs₁, bind, Except.bind]
      exact hs'
    · exact ⟨s, rfl, .refl s, by omega⟩

theorem fillUpTypes_ample (hM : 0 ≤ M) : ∀ (ts : List ContainerType) {s : Plan},
    Ample e M E name s → ∃ s', fillUpTypes e name ts s = .ok s' ∧ OnHost e .fillUp name s s' ∧
      ∀ t ∈ ts, s'.containers_to_allocate t ≤ 0
  | [], s, _ => ⟨s, rfl, .refl s, by simp⟩
  | t :: ts, s, hs => by
    obtain ⟨s₁, hs₁, hon₁, hzero₁⟩ := fillUpWhile_ample hM t _ hs le_rfl
    obtain ⟨s', hs', hon, hzero⟩ := fillUpTypes_ample hM ts (hon₁.ample hM rfl hs)
    refine ⟨s', ?_, hon₁.trans hon, fun t' ht' => ?_⟩
    · simp only [fillUpTypes, hs₁, bind, Except.bind]
      exact hs'
    · rcases List.mem_cons.1 ht' with rfl | ht'
      · exact (hon.reaches.toAllocate_le t').trans hzero₁
      · exact hzero t' ht'

/-- **Fill-up puts everything on the host**, if it is the only one. -/
theorem assignFillUp_ample (hM : 0 ≤ M) {s : Plan} (hs : Ample e M E name s)
    (hkeys : s.hosts.keys = [name]) : ∃ s', assignFillUp e s = .ok s' ∧
      OnHost e .fillUp name s s' ∧ containersNotAllocated s'.containers_to_allocate ≤ 0 := by
  unfold assignFillUp
  rw [hkeys]
  unfold fillUpHosts
  split_ifs with hleft
  · exact ⟨s, rfl, .refl s, hleft⟩
  · obtain ⟨s', hs', hon, hzero⟩ := fillUpTypes_ample hM allocationOrder hs
    refine ⟨s', ?_, hon, Finset.sum_nonpos fun t _ => hzero t (by cases t <;> decide)⟩
    simp only [hs', bind, Except.bind]
    rfl

end fillUp

/-! ## Cyclic -/

/-- The other hosts accept nothing. -/
def OthersReject (e : Env) (name : String) (s : Plan) : Prop :=
  ∀ n h, n ≠ name → s.hosts.get? n = some h → ∀ t c, e.container_resources.get? t = some c →
    ¬ h.Accepts c e.check_energy e.limit_key

section cyclic
variable {e : Env} {M E : ℚ} {name : String} {s s' : Plan}

theorem OnHost.othersReject {tr : Tracking} (h : OnHost e tr name s s')
    (hs : OthersReject e name s) : OthersReject e name s' := by
  obtain ⟨evs, hrun, hall⟩ := h
  have hinv := hrun.inv_hist (I := fun evs s₁ => (∀ ev ∈ evs, ev.host = name) →
    ∀ n, n ≠ name → s₁.hosts.get? n = s.hosts.get? n) (fun _ _ _ => rfl) ?_
  · intro n host hn hhost
    exact hs n host hn (by rw [← hinv hall n hn]; exact hhost)
  · intro es s₁ ev s₂ _ hI hst hes n hn
    have hev : ev.host = name := hes ev (List.mem_append_right _ List.mem_cons_self)
    rw [← hI (fun ev' hev' => hes ev' (List.mem_append_left _ hev')) n hn]
    obtain ⟨c, host, -, -, -, -, rfl⟩ := hst.step
    exact Dict.get?_modify_of_ne _ _ (hev ▸ hn)

theorem OnHost.agree (h : OnHost e .cyclic name s s') (hs : s.Agree) : s'.Agree := by
  obtain ⟨evs, hrun, -⟩ := h
  exact hrun.inv (fun _ _ _ hI hst => hst.agree rfl hI) hs

/-- The host has a disk for the container in both records. -/
theorem Ample.cyclicDisk (hM : 0 ≤ M) (hs : Ample e M E name s) (hagree : e.check_disks → s.Agree)
    {t : ContainerType} (hpos : 0 < s.containers_to_allocate t) {c : Request} {host : Host}
    (hc : e.container_resources.get? t = some c) (hhost : s.hosts.get? name = some host)
    (hneeds : e.needsDisk t) : ∃ disk, cyclicDisk e t c host = some disk ∧
      (s.disk_assignation.disk? (name, disk)).isSome := by
  have hcd := Env.needsDisk_checks hneeds
  obtain ⟨c', host', hc', hhost', -, hdisk⟩ := hs.accepts hM hpos
  obtain rfl : c = c' := Option.some.inj (hc.symm.trans hc')
  obtain ⟨disk, hfreest, hplan⟩ := (hagree hcd).freestDisk hhost (hdisk hcd)
  exact ⟨disk, by rw [ServerlessYarn.cyclicDisk, if_pos hneeds]; exact hfreest, hplan⟩

theorem cyclicVisit_ample (hM : 0 ≤ M) (hs : Ample e M E name s) (hagree : e.check_disks → s.Agree) :
    ∀ (ts : List ContainerType), (∃ t ∈ ts, 0 < s.containers_to_allocate t) →
      ∃ s', cyclicVisit e name ts s = .ok (some s')
  | [], h => by simp at h
  | t :: ts, h => by
    by_cases hpos : 0 < s.containers_to_allocate t
    · obtain ⟨c, host, hc, hhost, hacc, hdisk⟩ := hs.accepts hM hpos
      refine ⟨_, cyclicVisit_place hpos hc hhost hacc hs.key fun hneeds =>
        ⟨hdisk (Env.needsDisk_checks hneeds), ?_⟩⟩
      exact hs.cyclicDisk hM hagree hpos hc hhost hneeds
    · rw [cyclicVisit_skip hpos]
      obtain ⟨t', ht', hpos'⟩ := h
      rcases List.mem_cons.1 ht' with rfl | ht'
      · exact absurd hpos' hpos
      · exact cyclicVisit_ample hM hs hagree ts ⟨t', ht', hpos'⟩

theorem OnHost.notAllocated_le {tr : Tracking} (h : OnHost e tr name s s') :
    containersNotAllocated s'.containers_to_allocate ≤
      containersNotAllocated s.containers_to_allocate :=
  Finset.sum_le_sum fun t _ => h.reaches.toAllocate_le t

/-- A round puts at least one container on the host and keeps it for the next. -/
theorem cyclicRound_ample (hM : 0 ≤ M) : ∀ (names : List String) {s : Plan} (next : List String),
    Ample e M E name s → (e.check_disks → s.Agree) → OthersReject e name s →
    (∀ n ∈ names, n ∈ s.hosts.keys) →
      ∃ s' next', cyclicRound e names s next = .ok (s', next') ∧ OnHost e .cyclic name s s' ∧
        next ⊆ next' ∧ (∀ n ∈ next', n ∈ next ∨ n = name) ∧
        (name ∈ names → 0 < containersNotAllocated s.containers_to_allocate → name ∈ next' ∧
          containersNotAllocated s'.containers_to_allocate <
            containersNotAllocated s.containers_to_allocate)
  | [], s, next, _, _, _, _ => ⟨s, next, rfl, .refl s, List.Subset.refl _, fun _ => Or.inl, by simp⟩
  | n :: names, s, next, hs, hagree, hrej, hnames => by
    unfold cyclicRound
    split_ifs with hleft
    · exact ⟨s, next, rfl, .refl s, List.Subset.refl _, fun _ => Or.inl, fun _ h => by omega⟩
    · have hleft : 0 < containersNotAllocated s.containers_to_allocate := by omega
      by_cases hn : name = n
      · subst hn
        obtain ⟨t, ht⟩ := exists_pos_of_notAllocated hleft
        obtain ⟨s₁, hs₁⟩ := cyclicVisit_ample hM hs hagree allocationOrder
          ⟨t, by cases t <;> decide, ht⟩
        obtain ⟨t', d, hev⟩ := cyclicVisit_placed hs₁
        have hon₁ : OnHost e .cyclic name s s₁ := .head hev rfl (.refl s₁)
        obtain ⟨s', next', hs', hon, hsub, hnext, -⟩ := cyclicRound_ample hM names
          (next ++ [name]) (hs.placed hM rfl hev) (fun hcd => hon₁.agree (hagree hcd))
          (hon₁.othersReject hrej) fun m hm => by
            rw [hon₁.reaches.hosts_keys]
            exact hnames m (List.mem_cons_of_mem _ hm)
        refine ⟨s', next', ?_, hon₁.trans hon, ?_, ?_, fun _ _ => ⟨?_, ?_⟩⟩
        · simp only [hs₁, bind, Except.bind]
          exact hs'
        · exact fun m hm => hsub (List.mem_append_left _ hm)
        · intro m hm
          rcases hnext m hm with hm | hm
          · rcases List.mem_append.1 hm with hm | hm
            · exact Or.inl hm
            · exact Or.inr (List.mem_singleton.1 hm)
          · exact Or.inr hm
        · exact hsub (List.mem_append_right _ (List.mem_singleton.2 rfl))
        · have hle := hon.notAllocated_le
          have hone := hev.notAllocated
          omega
      · obtain ⟨host, hhost⟩ := Dict.mem_keys_iff.1 (hnames n List.mem_cons_self)
        have hvisit := cyclicVisit_reject hhost (fun t ht => by
          obtain ⟨c, hc, -⟩ := hs.requested t ht
          rw [hc]; rfl) (hrej n host (Ne.symm hn) hhost) allocationOrder
        obtain ⟨s', next', hs', hon, hsub, hnext, hlt⟩ := cyclicRound_ample hM names next
          hs hagree hrej fun m hm => hnames m (List.mem_cons_of_mem _ hm)
        refine ⟨s', next', ?_, hon, hsub, hnext, fun hmem hpos => ?_⟩
        · simp only [hvisit, bind, Except.bind]
          exact hs'
        · rcases List.mem_cons.1 hmem with hmem | hmem
          · exact absurd hmem hn
          · exact hlt hmem hpos

theorem cyclicWhile_ample (hM : 0 ≤ M) : ∀ (fuel : ℕ) {names : List String} {s : Plan},
    Ample e M E name s → (e.check_disks → s.Agree) → OthersReject e name s →
    (∀ n ∈ names, n ∈ s.hosts.keys) → name ∈ names →
    (containersNotAllocated s.containers_to_allocate).toNat < fuel →
      ∃ s', cyclicWhile e fuel names s = .ok s' ∧ OnHost e .cyclic name s s' ∧
        containersNotAllocated s'.containers_to_allocate ≤ 0
  | fuel + 1, names, s, hs, hagree, hrej, hnames, hmem, hf => by
    unfold cyclicWhile
    split_ifs with hcond
    · obtain ⟨s₁, next, hround, hon₁, -, hnext, hlt⟩ :=
        cyclicRound_ample hM names [] hs hagree hrej hnames
      obtain ⟨hmem', hlt⟩ := hlt hmem hcond.1
      have hsub : ∀ n ∈ next, n ∈ s₁.hosts.keys := by
        intro n hn
        rw [hon₁.reaches.hosts_keys]
        rcases hnext n hn with hn | rfl
        · simp at hn
        · exact hnames n hmem
      obtain ⟨s', hs', hon, hzero⟩ := cyclicWhile_ample hM fuel (hon₁.ample hM rfl hs)
        (fun hcd => hon₁.agree (hagree hcd)) (hon₁.othersReject hrej) hsub hmem' (by omega)
      refine ⟨s', ?_, hon₁.trans hon, hzero⟩
      simp only [hround, bind, Except.bind]
      exact hs'
    · refine ⟨s, rfl, .refl s, ?_⟩
      by_contra hleft
      exact hcond ⟨by omega, List.ne_nil_of_mem hmem⟩

/-- **Cyclic puts everything on the host**, if the others accept nothing. -/
theorem assignCyclic_ample (hM : 0 ≤ M) {names : List String} (hs : Ample e M E name s)
    (hagree : e.check_disks → s.Agree) (hrej : OthersReject e name s)
    (hnames : ∀ n ∈ names, n ∈ s.hosts.keys) (hmem : name ∈ names) :
    ∃ s', assignCyclic e names s = .ok s' ∧ OnHost e .cyclic name s s' ∧
      containersNotAllocated s'.containers_to_allocate ≤ 0 :=
  cyclicWhile_ample hM _ hs hagree hrej hnames hmem (Nat.lt_succ_self _)

end cyclic

/-! ## Hosts for a request -/

/-- A bound on what one container requests. -/
def Env.bound (e : Env) : ℚ := ∑ t, (e.cost .cpu t + e.cost .mem t + (e.bandwidth t).2.2)

/-- A host with `room` cpu and mem, and the free energy `energy`. -/
def roomyHost (room energy : ℚ) (disks : Dict String Disk) : Host where
  free := fun
    | .energy => energy
    | _ => room
  energy_max := energy
  disks := some disks

/-- A host that accepts nothing. -/
def fullHost : Host where
  free := fun
    | .energy => 0
    | _ => -1
  energy_max := 0
  disks := none

/-- One host with room among others without. -/
def roomyHosts (names : List String) (name : String) (room energy : ℚ) (disks : Dict String Disk) :
    Hosts :=
  Dict.empty.setAll (fun n => if n = name then roomyHost room energy disks else fullHost) names

theorem Env.le_bound {e : Env} (hnn : e.container_resources.Nonneg e.limit_key) {t : ContainerType}
    {c : Request} (hc : e.container_resources.get? t = some c) :
    0 ≤ e.bound ∧ c.get .cpu e.limit_key ≤ e.bound ∧ c.get .mem e.limit_key ≤ e.bound ∧
      c.bandwidth e.limit_key ≤ (e.bound, e.bound, e.bound) := by
  have hterm : ∀ t, 0 ≤ e.cost .cpu t ∧ 0 ≤ e.cost .mem t ∧ 0 ≤ (e.bandwidth t).2.2 := by
    intro t
    simp only [Env.cost, Env.bandwidth]
    rcases hct : e.container_resources.get? t with _ | c
    · simp
    · obtain ⟨hres, hread, hwrite⟩ := hnn t c hct
      exact ⟨hres .cpu, hres .mem, add_nonneg hread hwrite⟩
  have hle : e.cost .cpu t + e.cost .mem t + (e.bandwidth t).2.2 ≤ e.bound :=
    Finset.single_le_sum (f := fun t => e.cost .cpu t + e.cost .mem t + (e.bandwidth t).2.2)
      (fun t _ => by obtain ⟨h1, h2, h3⟩ := hterm t; linarith) (Finset.mem_univ t)
  obtain ⟨h1, h2, h3⟩ := hterm t
  obtain ⟨-, hread, hwrite⟩ := hnn t c hc
  have hcpu : e.cost .cpu t = c.get .cpu e.limit_key := by simp [Env.cost, hc]
  have hmem : e.cost .mem t = c.get .mem e.limit_key := by simp [Env.cost, hc]
  have hbw : (e.bandwidth t).2.2 = c.read e.limit_key + c.write e.limit_key := by
    simp [Env.bandwidth, hc, Request.bandwidth]
  refine ⟨by linarith, by linarith, by linarith, ?_, ?_, ?_⟩
  · change c.read e.limit_key ≤ e.bound; linarith
  · change c.write e.limit_key ≤ e.bound; linarith
  · change c.read e.limit_key + c.write e.limit_key ≤ e.bound; linarith

theorem ContainerResources.Nonneg.cost {e : Env} (h : e.container_resources.Nonneg e.limit_key)
    (r : Resource) (t : ContainerType) : 0 ≤ e.cost r t := by
  unfold Env.cost
  rcases hc : e.container_resources.get? t with _ | c
  · exact le_rfl
  · exact (h t c hc).1 r

/-- The hosts that a policy is offered: one, or those it lists. -/
def policyHosts (assignation_policy : String) : List String :=
  if assignation_policy = "Fill-up" ∨ assignation_policy = "Cyclic" then ["host0"]
  else splitComma assignation_policy

theorem policyHosts_ne_nil (p : String) : policyHosts p ≠ [] := by
  unfold policyHosts splitComma
  split_ifs
  · simp
  · simp

section roomy
variable {q : AppRequest} {name : String} {E : ℚ} {disks : Dict String Disk}

/-- Room for all containers of a request. -/
def AppRequest.room (q : AppRequest) : ℚ :=
  containersNotAllocated q.initial.containers_to_allocate * q.env.bound

theorem AppRequest.room_nonneg (hnn : q.container_resources.Nonneg q.key)
    (hn : q.container_resources.special ≤ q.number_of_containers) : 0 ≤ q.room := by
  have hbound : 0 ≤ q.env.bound :=
    (Env.le_bound (e := q.env) (t := .regular) (c := q.container_resources.regular) hnn rfl).1
  have hleft : 0 ≤ containersNotAllocated q.initial.containers_to_allocate :=
    Finset.sum_nonneg fun t _ => AppRequest.initial_nonneg hn t
  exact mul_nonneg (by exact_mod_cast hleft) hbound

/-- The request on hosts of which one has cpu and mem for everything, energy `E`
    and these disks. -/
def AppRequest.onRoomyHosts (q : AppRequest) (name : String) (E : ℚ) (disks : Dict String Disk) :
    AppRequest :=
  { q with hosts := roomyHosts (policyHosts q.assignation_policy) name q.room E disks }

theorem AppRequest.onRoomyHosts_get? (q : AppRequest) (name : String) (E : ℚ)
    (disks : Dict String Disk) (n : String) : (q.onRoomyHosts name E disks).hosts.get? n =
      if n ∈ policyHosts q.assignation_policy then
        some (if n = name then roomyHost q.room E disks else fullHost) else none := by
  simp [onRoomyHosts, roomyHosts, Dict.get?_setAll]

theorem AppRequest.onRoomyHosts_initial (hres : q.reserved = false) (n : String) :
    (q.onRoomyHosts name E disks).initial.hosts.get? n = (q.onRoomyHosts name E disks).hosts.get? n := by
  rw [initial_hosts, if_neg]
  rintro ⟨h, -⟩
  exact Bool.false_ne_true (hres.symm.trans h)

theorem AppRequest.onRoomyHosts_single (hres : q.reserved = false)
    (hhosts : policyHosts q.assignation_policy = ["host0"]) :
    (q.onRoomyHosts name E disks).initial.hosts.keys = ["host0"] := by
  have hres' : ¬ reservesServer q.cfg q.container_resources := by
    intro h
    exact Bool.false_ne_true (hres.symm.trans h)
  simp only [initial, initialPlan, onRoomyHosts, hres', hhosts, if_false, Bool.false_eq_true]
  rfl

theorem AppRequest.onRoomyHosts_ample (hres : q.reserved = false)
    (hnn : q.container_resources.Nonneg q.key)
    (hn : q.container_resources.special ≤ q.number_of_containers)
    (hname : name ∈ policyHosts q.assignation_policy)
    (hE : ∀ t, 0 < q.initial.containers_to_allocate t → q.env.cost .energy t ≤ E)
    (hdisks : ∃ d disk, disks.get? d = some disk ∧ (q.room, q.room, q.room) ≤ disk.free) :
    Ample (q.onRoomyHosts name E disks).env q.env.bound E name (q.onRoomyHosts name E disks).initial := by
  have hhost : (q.onRoomyHosts name E disks).initial.hosts.get? name =
      some (roomyHost q.room E disks) := by
    rw [onRoomyHosts_initial hres, q.onRoomyHosts_get?, if_pos hname, if_pos rfl]
  have hres' : (q.onRoomyHosts name E disks).reserved = false := hres
  refine ⟨AppRequest.initial_nonneg hn, fun t ht => ?_, ?_, ?_, fun hcd => ?_⟩
  · have hpos : 0 < toAllocate q.container_resources q.number_of_containers t := by
      rw [initial_toAllocate, if_neg (by simp [hres'])] at ht
      exact ht
    obtain ⟨c, hc⟩ := Option.isSome_iff_exists.1 (toAllocate_requested hpos)
    obtain ⟨-, hcpu, hmem, hbw⟩ := Env.le_bound (e := q.env) hnn hc
    refine ⟨c, hc, hcpu, hmem, hbw, ?_⟩
    have hcost : q.env.cost .energy t = c.get .energy q.env.limit_key := by
      have hc' : q.env.container_resources.get? t = some c := hc
      simp [Env.cost, hc']
    rw [← show q.env.cost .energy t = c.get .energy (q.onRoomyHosts name E disks).env.limit_key from hcost]
    exact hE t ht
  · rw [Dict.mem_keys_iff]
    exact ⟨.single .regular 0, by rw [initial_assignation, if_pos (Dict.mem_keys_of_get? hhost)]⟩
  · exact ⟨_, hhost, rfl, le_rfl, le_rfl⟩
  · obtain ⟨d, disk, hd, hfree⟩ := hdisks
    have hdisk := AppRequest.initial_disk? (q := q.onRoomyHosts name E disks) hcd name d
    rw [hhost, Option.bind_some, show (roomyHost q.room E disks).disk? d = disks.get? d from rfl,
      hd] at hdisk
    exact ⟨d, disk.plan, hdisk, hfree⟩

/-- All containers are put on the host with room. -/
theorem AppRequest.onRoomyHosts_plan (hres : q.reserved = false)
    (hp : q.assignation_policy ≠ "Best-effort") (hnn : q.container_resources.Nonneg q.key)
    (hn : q.container_resources.special ≤ q.number_of_containers)
    (hname : name ∈ policyHosts q.assignation_policy)
    (hE : ∀ t, 0 < q.initial.containers_to_allocate t → q.env.cost .energy t ≤ E)
    (hdisks : ∃ d disk, disks.get? d = some disk ∧ (q.room, q.room, q.room) ≤ disk.free) :
    ∃ s, planContainers (q.onRoomyHosts name E disks) = .ok (some s) ∧
      containersNotAllocated s.containers_to_allocate ≤ 0 ∧
      OnHost q.env (policyTracking q.env q.assignation_policy) name
        (q.onRoomyHosts name E disks).initial s ∧
      ∀ t, s.count name t = (q.initial.containers_to_allocate t).toNat := by
  have hM : 0 ≤ q.env.bound :=
    (Env.le_bound (e := q.env) (t := .regular) (c := q.container_resources.regular) hnn rfl).1
  have hample := AppRequest.onRoomyHosts_ample hres hnn hn hname hE hdisks
  have hcount : ∀ {tr : Tracking} {s : Plan}, tr.energy = false →
      OnHost (q.onRoomyHosts name E disks).env tr name (q.onRoomyHosts name E disks).initial s →
      containersNotAllocated s.containers_to_allocate ≤ 0 →
      ∀ t, s.count name t = (q.initial.containers_to_allocate t).toNat := by
    intro tr s htr hon hleft t
    have hs := hon.ample hM htr hample
    have hzero : s.containers_to_allocate t ≤ containersNotAllocated s.containers_to_allocate :=
      Finset.single_le_sum (fun t _ => hs.nonneg t) (Finset.mem_univ t)
    have hadd := hon.count_add t
    have h0 : (q.onRoomyHosts name E disks).initial.count name t = 0 := by
      have hres' : (q.onRoomyHosts name E disks).reserved = false := hres
      rw [initial_count]
      simp [hres']
    have hsame : (q.onRoomyHosts name E disks).initial.containers_to_allocate t =
        q.initial.containers_to_allocate t := rfl
    have := hs.nonneg t
    omega
  have hkeys : ∀ n ∈ policyHosts q.assignation_policy,
      n ∈ (q.onRoomyHosts name E disks).initial.hosts.keys := by
    intro n hn
    rw [Dict.mem_keys_iff]
    exact ⟨_, by rw [onRoomyHosts_initial hres, q.onRoomyHosts_get?, if_pos hn]⟩
  have hcyclic : ∃ s, assignCyclic (q.onRoomyHosts name E disks).env (policyHosts q.assignation_policy)
      (q.onRoomyHosts name E disks).initial = .ok s ∧
      OnHost (q.onRoomyHosts name E disks).env .cyclic name (q.onRoomyHosts name E disks).initial s ∧
      containersNotAllocated s.containers_to_allocate ≤ 0 := by
    refine assignCyclic_ample hM hample (fun hcd => AppRequest.initial_agree hcd) ?_ hkeys hname
    intro n h hne hget t c hc hacc
    rw [onRoomyHosts_initial hres, q.onRoomyHosts_get?] at hget
    split_ifs at hget
    cases hget
    have hneg : c.get .cpu q.key ≤ -1 := hacc.1
    have hpos := (hnn t c hc).1 .cpu
    linarith
  by_cases hf : q.assignation_policy = "Fill-up"
  · have hhosts : policyHosts q.assignation_policy = ["host0"] := by simp [policyHosts, hf]
    obtain rfl : name = "host0" := by simpa [hhosts] using hname
    obtain ⟨s, hs, hon, hleft⟩ := assignFillUp_ample hM hample (onRoomyHosts_single hres hhosts)
    have htr : policyTracking q.env q.assignation_policy = .fillUp := if_pos hf
    refine ⟨s, ?_, hleft, htr ▸ hon, hcount rfl hon hleft⟩
    have hpolicy : (q.onRoomyHosts "host0" E disks).assignation_policy = "Fill-up" := hf
    simp only [planContainers, applyPolicy, hpolicy, if_true]
    exact map_some_eq_ok.2 hs
  · obtain ⟨s, hs, hon, hleft⟩ := hcyclic
    have htr : policyTracking q.env q.assignation_policy = .cyclic := by
      rw [policyTracking, if_neg hf, if_neg hp]
    refine ⟨s, ?_, hleft, htr ▸ hon, hcount rfl hon hleft⟩
    have hpolicy : (q.onRoomyHosts name E disks).assignation_policy = q.assignation_policy := rfl
    simp only [planContainers, applyPolicy, hpolicy, if_neg hf, if_neg hp]
    by_cases hc : q.assignation_policy = "Cyclic"
    · have hhosts : policyHosts q.assignation_policy = ["host0"] := by simp [policyHosts, hc]
      rw [if_pos hc, onRoomyHosts_single hres hhosts]
      exact map_some_eq_ok.2 (hhosts ▸ hs)
    · have hhosts : policyHosts q.assignation_policy = splitComma q.assignation_policy := by
        simp [policyHosts, hf, hc]
      rw [if_neg hc, if_pos (hhosts ▸ hkeys)]
      exact map_some_eq_ok.2 (hhosts ▸ hs)

end roomy

end ServerlessYarn
