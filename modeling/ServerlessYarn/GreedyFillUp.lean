/-
  ServerlessYARN model — Fill-up is greedy in the order of the hosts.

  Fill-up leaves a host only when the host rejects every type that is left, and
  placements only take room away: a host that was passed over for a container
  can still not hold one at the end.

  * `fillUpTypes_greedy`: a host that was filled rejects what is left;
  * `assignFillUp_greedy`, `fillUp_greedy`: the policy, on every list of hosts.
-/
import ServerlessYarn.AmpleHost

namespace ServerlessYarn

/-- Placements on one host do not change the others. -/
theorem OnHost.count_of_ne {e : Env} {tr : Tracking} {name : String} {s s' : Plan}
    (h : OnHost e tr name s s') {other : String} (hne : other ≠ name) (t : ContainerType) :
    s'.count other t = s.count other t := by
  obtain ⟨evs, hrun, hall⟩ := h
  have hzero : (evs.countP fun ev => ev.host = other ∧ ev.type = t) = 0 := by
    rw [List.countP_eq_zero]
    intro ev hev
    simp [hall ev hev, Ne.symm hne]
  rw [count_of_run hrun, hzero, Nat.add_zero]

section fillUp
variable {e : Env} {name : String} {s : Plan}

/-- An iteration puts a container on the host or finds that it cannot hold one. -/
theorem fillUpStep_cases (hs : s.Ready e) (hname : name ∈ s.hosts.keys) {t : ContainerType}
    (hpos : 0 < s.containers_to_allocate t) :
    (∃ s', fillUpStep e name t s = .ok (some s')) ∨
      fillUpStep e name t s = .ok none ∧ ¬ s.CanHold e name t := by
  obtain ⟨c, hc⟩ := Option.isSome_iff_exists.1 (hs.requested t hpos)
  obtain ⟨host, hhost⟩ := Dict.mem_keys_iff.1 hname
  obtain ⟨av, hav⟩ := hs.availableResources hname host t c
  cases av with
  | true =>
    obtain ⟨hacc, hdisk⟩ := availableResources_true hav
    exact Or.inl (fillUpStep_succeeds hc hhost hacc (hs.assigned name hname) hdisk)
  | false =>
    refine Or.inr ⟨?_, Plan.not_canHold_of_false hc hhost hav⟩
    simp only [fillUpStep, bind_eq_ok, ContainerResources.getItem_eq_ok, getItem_eq_ok]
    exact ⟨c, hc, host, hhost, false, hav, rfl⟩

/-- **The inner loop ends** with none of the type left or with a host that cannot
    hold one. -/
theorem fillUpWhile_greedy (t : ContainerType) : ∀ (fuel : ℕ) {s : Plan}, s.Ready e →
    name ∈ s.hosts.keys → (s.containers_to_allocate t).toNat ≤ fuel →
      ∃ s', fillUpWhile e name t fuel s = .ok s' ∧ OnHost e .fillUp name s s' ∧
        (0 < s'.containers_to_allocate t → ¬ s'.CanHold e name t)
  | 0, s, _, _, hf => ⟨s, rfl, .refl s, fun hpos => by omega⟩
  | fuel + 1, s, hs, hname, hf => by
    unfold fillUpWhile
    split_ifs with hpos
    · rcases fillUpStep_cases hs hname hpos with ⟨s₁, hs₁⟩ | ⟨hnone, hcannot⟩
      · obtain ⟨d, hev⟩ := fillUpStep_placed hpos hs₁
        have hfuel : (s₁.containers_to_allocate t).toNat ≤ fuel := by
          rw [hev.toAllocate]
          simp only [Function.update_self]
          omega
        obtain ⟨s', hs', hon, hend⟩ :=
          fillUpWhile_greedy t fuel (hev.ready hs) (hev.hosts_keys ▸ hname) hfuel
        refine ⟨s', ?_, .head hev rfl hon, hend⟩
        simp only [hs₁, bind, Except.bind]
        exact hs'
      · refine ⟨s, ?_, .refl s, fun _ => hcannot⟩
        simp only [hnone, bind, Except.bind]
        rfl
    · exact ⟨s, rfl, .refl s, fun hpos' => absurd hpos' hpos⟩

/-- **The types of a host**: after the loop over them the host rejects all that
    are left, since later containers only take room away. -/
theorem fillUpTypes_greedy (hnn : e.container_resources.Nonneg e.limit_key) :
    ∀ (ts : List ContainerType) {s : Plan}, s.Ready e → name ∈ s.hosts.keys →
      ∃ s', fillUpTypes e name ts s = .ok s' ∧ OnHost e .fillUp name s s' ∧
        ∀ t ∈ ts, 0 < s'.containers_to_allocate t → ¬ s'.CanHold e name t
  | [], s, _, _ => ⟨s, rfl, .refl s, by simp⟩
  | t :: ts, s, hs, hname => by
    obtain ⟨s₁, hs₁, hon₁, hend₁⟩ := fillUpWhile_greedy t _ hs hname le_rfl
    obtain ⟨s', hs', hon, hend⟩ := fillUpTypes_greedy hnn ts (hon₁.reaches.ready hs)
      (hon₁.reaches.hosts_keys ▸ hname)
    refine ⟨s', ?_, hon₁.trans hon, ?_⟩
    · simp only [fillUpTypes, hs₁, bind, Except.bind]
      exact hs'
    · intro t' ht' hpos
      rcases List.mem_cons.1 ht' with rfl | ht'
      · exact hon.reaches.not_canHold hnn (hend₁ (hpos.trans_le (hon.reaches.toAllocate_le t')))
      · exact hend t' ht' hpos

/-- **The loop over the hosts**, from any of its iterations on.  When a later host
    gets a container of a type, some were left when the first host was done. -/
theorem fillUpHosts_greedy (hnn : e.container_resources.Nonneg e.limit_key) :
    ∀ (names : List String) {s : Plan}, s.Ready e → (∀ n ∈ names, n ∈ s.hosts.keys) → names.Nodup →
      ∃ s', fillUpHosts e names s = .ok s' ∧ Reaches e .fillUp s s' ∧
        (∀ i j t, [i, j].Sublist names → s.count j t < s'.count j t → ¬ s'.CanHold e i t) ∧
        (0 < containersNotAllocated s'.containers_to_allocate → ∀ i ∈ names, s'.Rejects e i)
  | [], s, _, _, _ => ⟨s, rfl, .refl s, by simp, by simp⟩
  | name :: rest, s, hs, hsub, hnd => by
    obtain ⟨hnotMem, hnd⟩ := List.nodup_cons.1 hnd
    unfold fillUpHosts
    split_ifs with hleft
    · refine ⟨s, rfl, .refl s, ?_, ?_⟩
      · intro i j t _ hlt
        exact absurd hlt (lt_irrefl _)
      · intro hpos
        exact absurd hpos (not_lt.2 hleft)
    · obtain ⟨s₁, hs₁, hon₁, hend₁⟩ :=
        fillUpTypes_greedy hnn allocationOrder hs (hsub name List.mem_cons_self)
      have hrej : s₁.Rejects e name := by
        intro t ht
        exact hend₁ t (mem_allocationOrder t) ht
      obtain ⟨s', hs', hreach, hplaced, hunplaced⟩ := fillUpHosts_greedy hnn rest
        (hon₁.reaches.ready hs)
        (fun n hn => hon₁.reaches.hosts_keys ▸ hsub n (List.mem_cons_of_mem _ hn)) hnd
      refine ⟨s', ?_, hon₁.reaches.trans hreach, ?_, ?_⟩
      · simp only [hs₁, bind, Except.bind]
        exact hs'
      · intro i j t hij hlt
        -- the later host of the pair is not the first one, which does not change it
        have hj : j ∈ rest := by
          rcases List.sublist_cons_iff.1 hij with hij | ⟨l, hl, hij⟩
          · exact hij.subset (by simp)
          · cases hl
            exact hij.subset (by simp)
        have hne : j ≠ name := fun h => hnotMem (h ▸ hj)
        rw [← hon₁.count_of_ne hne t] at hlt
        rcases List.sublist_cons_iff.1 hij with hij | ⟨l, hl, -⟩
        · exact hplaced i j t hij hlt
        · cases hl
          exact hreach.not_canHold hnn (hrej t (hreach.pos_of_count_lt hlt))
      · intro hpos i hi
        rcases List.mem_cons.1 hi with rfl | hi
        · intro t ht
          exact hreach.not_canHold hnn (hrej t (ht.trans_le (hreach.toAllocate_le t)))
        · exact hunplaced hpos i hi

/-- The policy on any plan that has the entries it reads. -/
theorem assignFillUp_greedy (hs : s.Ready e) (hnn : e.container_resources.Nonneg e.limit_key) :
    ∃ s', assignFillUp e s = .ok s' ∧ Reaches e .fillUp s s' ∧
      (∀ i j t, [i, j].Sublist s.hosts.keys → s.count j t < s'.count j t → ¬ s'.CanHold e i t) ∧
      (0 < containersNotAllocated s'.containers_to_allocate →
        ∀ i ∈ s.hosts.keys, s'.Rejects e i) :=
  fillUpHosts_greedy hnn s.hosts.keys hs (fun _ hn => hn) s.hosts.nodup_keys

end fillUp

/-- **Fill-up is greedy in the order of the hosts.**  Whatever the hosts and the
    number of containers, the policy ends; a host before one that got a container
    of a type can hold no further one of it; and if containers are left, no host
    can hold one of a type that is.  (With a number for all special types,
    containers are left as soon as one of some type is.) -/
theorem fillUp_greedy (q : AppRequest) (hnn : q.container_resources.Nonneg q.key)
    (hdisks : q.cfg.check_disks →
      ∀ name host, q.hosts.get? name = some host → host.disks.isSome) :
    ∃ s, assignFillUp q.env q.initial = .ok s ∧
      (∀ i j t, [i, j].Sublist q.initial.hosts.keys → 0 < s.count j t → ¬ s.CanHold q.env i t) ∧
      (0 < containersNotAllocated s.containers_to_allocate →
        ∀ t, 0 < s.containers_to_allocate t → ∀ i ∈ q.initial.hosts.keys, ¬ s.CanHold q.env i t) ∧
      (q.container_resources.special ≤ q.number_of_containers →
        ∀ t, 0 < s.containers_to_allocate t → 0 < containersNotAllocated s.containers_to_allocate) := by
  obtain ⟨s, hs, hreach, hplaced, hunplaced⟩ :=
    assignFillUp_greedy (AppRequest.initial_ready hdisks) hnn
  refine ⟨s, hs, ?_, fun hpos t ht i hi => hunplaced hpos i hi t ht, ?_⟩
  · intro i j t hij hcount
    refine hplaced i j t hij ?_
    have hj : j ∈ q.initial.hosts.keys := hij.subset (by simp)
    rw [q.initial_count, if_neg]
    · exact hcount
    · rintro ⟨⟨hres, rfl⟩, -⟩
      exact AppRequest.initial_server hres hj
  · intro hn t ht
    exact notAllocated_pos (hreach.toAllocate_nonneg (AppRequest.initial_nonneg hn)) ht

/-- Two containers that each take most of a host and its disk: the second goes to
    the second host, and the first host cannot hold another one. -/
theorem fillUp_greedy_twoHosts : ∃ (q : AppRequest) (s : Plan), assignFillUp q.env q.initial = .ok s ∧
    s.count "host1" .regular = 1 ∧ ¬ s.CanHold q.env "host0" .regular := by
  let host : Host := ⟨fun _ => 4, 10, some (Dict.empty.set "ssd0" ⟨"/ssd0", 20, 20, 20, 20⟩)⟩
  let q : AppRequest :=
    { cfg := ⟨true, true, false, false, false⟩
      server_name := "server"
      assignation_policy := "Fill-up"
      allow_oversubscription := false
      hosts := (Dict.empty.set "host0" host).set "host1" host
      number_of_containers := 2
      container_resources := ⟨.of 3 1 0 8 8, none, none, none, .inl rfl⟩
      app_name := "app" }
  have hnn : q.container_resources.Nonneg q.key := by
    rintro (_ | _ | _ | _) c hc <;> cases hc
    exact ⟨by decide +kernel, by decide +kernel, by decide +kernel⟩
  have hdisks : q.cfg.check_disks → ∀ name h, q.hosts.get? name = some h → h.disks.isSome :=
    fun _ => Dict.forall_get?_iff.2 (by decide +kernel)
  obtain ⟨s, hs, hplaced, -⟩ := fillUp_greedy q hnn hdisks
  have hcount : (assignFillUp q.env q.initial).toOption.map (·.count "host1" .regular) = some 1 := by
    decide +kernel
  rw [hs] at hcount
  have hone : s.count "host1" .regular = 1 := Option.some.inj hcount
  exact ⟨q, s, hs, hone,
    hplaced "host0" "host1" .regular (List.Sublist.refl _) (hone ▸ Nat.zero_lt_one)⟩

end ServerlessYarn
