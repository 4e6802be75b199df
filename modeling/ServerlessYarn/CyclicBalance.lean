/-
  ServerlessYARN model — Cyclic is balanced and does not give up early.

  A host that gets no container in a round rejects every type that is left, and
  is dropped.  The rounds are those of `Lib/RoundRobin.lean`, whose rules carry
  the rejection to the end of the policy.

  * `assignCyclic_rounds`: the policy ends, as such rounds;
  * `cyclic_balanced`: who it leaves behind, on every pool of hosts.
-/
import ServerlessYarn.AmpleHost
import ServerlessYarn.Lib.RoundRobin

namespace ServerlessYarn

/-! ## The rounds of Cyclic -/

/-- A visit of Cyclic that puts a container on its host. -/
def CyclicTakes (e : Env) (s : Plan) (ev : Placement) (s' : Plan) : Prop :=
  Placed e .cyclic s ev s' ∧ cyclicVisit e ev.host allocationOrder s = .ok (some s')

/-- A visit of Cyclic that puts no container on its host. -/
def CyclicDeclines (e : Env) (s : Plan) (name : String) : Prop :=
  cyclicVisit e name allocationOrder s = .ok none

/-- Nothing is left to allocate. -/
def Plan.AllAllocated (s : Plan) : Prop := containersNotAllocated s.containers_to_allocate ≤ 0

/-- The visits of a round that put a container, the hosts saved for the next round. -/
abbrev CyclicRound (e : Env) :
    List String → Plan → List Placement → List String → Plan → Prop :=
  RoundRobin.Round Placement.host (CyclicTakes e) (CyclicDeclines e) Plan.AllAllocated

/-- The visits of `assign_cyclic` that put a container, in order. -/
abbrev CyclicRounds (e : Env) : List String → Plan → List Placement → Plan → Prop :=
  RoundRobin.Rounds Placement.host (CyclicTakes e) (CyclicDeclines e) Plan.AllAllocated

/-- What the visits rely on: the entries that they read, and the two records of
    the disks. -/
structure Plan.Mirrored (e : Env) (s : Plan) : Prop where
  ready : s.Ready e
  agree : e.check_disks → s.Agree

section visit
variable {e : Env} {name : String} {s s' : Plan}

theorem CyclicTakes.mirrored {ev : Placement} (hs : s.Mirrored e) (h : CyclicTakes e s ev s') :
    s'.Mirrored e where
  ready := h.1.ready hs.ready
  agree hcd := h.1.agree rfl (hs.agree hcd)

theorem CyclicTakes.rejects (hnn : e.container_resources.Nonneg e.limit_key) {ev : Placement}
    (hr : s.Rejects e name) (h : CyclicTakes e s ev s') : s'.Rejects e name :=
  h.1.rejects hnn hr

theorem CyclicTakes.reaches {evs : List Placement} (h : Run (CyclicTakes e) s evs s') :
    Reaches e .cyclic s s' :=
  ⟨evs, h.mono fun _ _ _ hst => hst.1⟩

/-- **A visit** puts a container on the host or finds that it can hold none of the
    types left: a disk that passes the check is also found as the freest one or
    has a freer one beside it. -/
theorem cyclicVisit_cases (hs : s.Mirrored e) (hname : name ∈ s.hosts.keys) :
    ∀ ts : List ContainerType, (∃ s', cyclicVisit e name ts s = .ok (some s')) ∨
      cyclicVisit e name ts s = .ok none ∧
        ∀ t ∈ ts, 0 < s.containers_to_allocate t → ¬ s.CanHold e name t
  | [] => Or.inr ⟨rfl, by simp⟩
  | t :: ts => by
    by_cases hpos : 0 < s.containers_to_allocate t
    · obtain ⟨c, hc⟩ := Option.isSome_iff_exists.1 (hs.ready.requested t hpos)
      obtain ⟨host, hhost⟩ := Dict.mem_keys_iff.1 hname
      obtain ⟨av, hav⟩ := hs.ready.availableResources hname host t c
      cases av with
      | true =>
        obtain ⟨hacc, hdisk⟩ := availableResources_true hav
        refine Or.inl ⟨_, cyclicVisit_place hpos hc hhost hacc (hs.ready.assigned name hname)
          fun hneeds => ⟨hdisk hneeds, ?_⟩⟩
        obtain ⟨disk, hfreest, hplan⟩ :=
          (hs.agree (Env.needsDisk_checks hneeds)).freestDisk hhost (hdisk hneeds)
        exact ⟨disk, by rw [cyclicDisk, if_pos hneeds]; exact hfreest, hplan⟩
      | false =>
        have hnext : cyclicVisit e name (t :: ts) s = cyclicVisit e name ts s := by
          rw [cyclicVisit, if_pos hpos, ContainerResources.getItem_eq_ok.2 hc]
          simp only [bind, Except.bind, getItem_eq_ok.2 hhost, hav, Bool.false_eq_true, if_false]
        rw [hnext]
        refine (cyclicVisit_cases hs hname ts).imp_right fun hrest => ⟨hrest.1, ?_⟩
        intro t' ht' hpos'
        rcases List.mem_cons.1 ht' with rfl | ht'
        · exact Plan.not_canHold_of_false hc hhost hav
        · exact hrest.2 t' ht' hpos'
    · rw [cyclicVisit_skip hpos]
      refine (cyclicVisit_cases hs hname ts).imp_right fun hrest => ⟨hrest.1, ?_⟩
      intro t' ht' hpos'
      rcases List.mem_cons.1 ht' with rfl | ht'
      · exact absurd hpos' hpos
      · exact hrest.2 t' ht' hpos'

/-- **Who is dropped rejects what is left.** -/
theorem CyclicDeclines.rejects (hs : s.Mirrored e) (h : CyclicDeclines e s name) :
    s.Rejects e name := by
  intro t ht hcan
  obtain ⟨c, host, hc, hhost, hav⟩ := hcan
  rcases cyclicVisit_cases hs (Dict.mem_keys_of_get? hhost) allocationOrder with
    ⟨s', hs'⟩ | ⟨-, hrest⟩
  · rw [CyclicDeclines, hs'] at h
    cases h
  · exact hrest t (mem_allocationOrder t) ht ⟨c, host, hc, hhost, hav⟩

end visit

/-! ## The policy as rounds -/

section rounds
variable {e : Env}

/-- **A round**, with the hosts that it adds to those saved before. -/
theorem cyclicRound_round : ∀ (names : List String) {s : Plan} (next : List String),
    s.Mirrored e → (∀ n ∈ names, n ∈ s.hosts.keys) →
      ∃ s' evs kept, cyclicRound e names s next = .ok (s', next ++ kept) ∧
        CyclicRound e names s evs kept s'
  | [], s, next, _, _ => ⟨s, [], [], by rw [List.append_nil]; rfl, .nil s⟩
  | name :: rest, s, next, hs, hsub => by
    unfold cyclicRound
    split_ifs with hdone
    · exact ⟨s, [], [], by rw [List.append_nil]; rfl, .stop hdone⟩
    · rcases cyclicVisit_cases hs (hsub name List.mem_cons_self) allocationOrder with
        ⟨s₁, hs₁⟩ | ⟨hnone, -⟩
      · obtain ⟨t, d, hev⟩ := cyclicVisit_placed hs₁
        have htakes : CyclicTakes e s ⟨name, t, d⟩ s₁ := ⟨hev, hs₁⟩
        obtain ⟨s', evs, kept, hround, hr⟩ := cyclicRound_round rest (next ++ [name])
          (htakes.mirrored hs) fun n hn => hev.hosts_keys ▸ hsub n (List.mem_cons_of_mem _ hn)
        refine ⟨s', ⟨name, t, d⟩ :: evs, name :: kept, ?_, .keep hdone rfl htakes hr⟩
        simp only [hs₁, bind, Except.bind]
        rw [hround, List.append_assoc, List.singleton_append]
      · obtain ⟨s', evs, kept, hround, hr⟩ :=
          cyclicRound_round rest next hs fun n hn => hsub n (List.mem_cons_of_mem _ hn)
        refine ⟨s', evs, kept, ?_, .drop hdone hnone hr⟩
        simp only [hnone, bind, Except.bind]
        exact hround

theorem cyclicWhile_rounds : ∀ (fuel : ℕ) {names : List String} {s : Plan}, s.Mirrored e →
    (∀ n ∈ names, n ∈ s.hosts.keys) →
    (containersNotAllocated s.containers_to_allocate).toNat < fuel →
      ∃ s' evs, cyclicWhile e fuel names s = .ok s' ∧ CyclicRounds e names s evs s'
  | fuel + 1, names, s, hs, hsub, hf => by
    unfold cyclicWhile
    split_ifs with hcond
    · obtain ⟨s₁, evs, kept, hround, hr⟩ := cyclicRound_round names [] hs hsub
      rw [List.nil_append] at hround
      have hnot : ¬ s.AllAllocated := not_le.2 hcond.1
      have hsum := cyclicRound_notAllocated hround
      rw [List.length_nil] at hsum
      -- a round that saves no host ends the loop, any other one allocates a container
      by_cases hkept : kept = []
      · refine ⟨s₁, evs ++ [], ?_, .round hnot hcond.2 hr (.finish (Or.inr hkept))⟩
        simp only [hround, bind, Except.bind]
        rw [hkept, cyclicWhile_nil]
      · have hlen := List.length_pos_iff.2 hkept
        have hreach := CyclicTakes.reaches hr.run
        obtain ⟨s', evs', hs', hrest⟩ := cyclicWhile_rounds fuel
          (hr.run.inv (fun _ _ _ hI hst => hst.mirrored hI) hs)
          (fun n hn => hreach.hosts_keys ▸ hsub n (hr.sublist.subset hn)) (by omega)
        refine ⟨s', evs ++ evs', ?_, .round hnot hcond.2 hr hrest⟩
        simp only [hround, bind, Except.bind]
        exact hs'
    · refine ⟨s, [], rfl, .finish ?_⟩
      by_cases hdone : s.AllAllocated
      · exact Or.inl hdone
      · exact Or.inr (by_contra fun hne => hcond ⟨not_le.1 hdone, hne⟩)

/-- **Cyclic ends, as rounds over its pool of hosts.** -/
theorem assignCyclic_rounds {names : List String} {s : Plan} (hs : s.Mirrored e)
    (hsub : ∀ n ∈ names, n ∈ s.hosts.keys) :
    ∃ s' evs, assignCyclic e names s = .ok s' ∧ CyclicRounds e names s evs s' :=
  cyclicWhile_rounds _ hs hsub (Nat.lt_succ_self _)

end rounds

/-! ## Balance -/

/-- The containers of all types on a host. -/
def Plan.countAll (s : Plan) (name : String) : ℕ := ∑ t, s.count name t

theorem countAll_of_run {e : Env} {tr : Tracking} {s s' : Plan} {evs : List Placement}
    (h : Run (Placed e tr) s evs s') (name : String) :
    s'.countAll name = s.countAll name + (evs.map Placement.host).count name := by
  refine h.inv_hist (I := fun evs s' =>
    s'.countAll name = s.countAll name + (evs.map Placement.host).count name) (by simp) ?_
  intro es s₁ ev s₂ _ hI hst
  have hstep : s₂.countAll name = s₁.countAll name + if ev.host = name then 1 else 0 := by
    simp only [Plan.countAll, hst.count, Finset.sum_add_distrib]
    by_cases hn : ev.host = name
    · simp [hn]
    · simp [hn]
  rw [hstep, hI, List.map_append, List.count_append, List.map_singleton, List.count_singleton,
    Nat.add_assoc]
  simp only [beq_iff_eq]

/-- The hosts start without containers. -/
theorem AppRequest.initial_countAll {q : AppRequest} {name : String}
    (hname : name ∈ q.initial.hosts.keys) : q.initial.countAll name = 0 := by
  refine Finset.sum_eq_zero fun t _ => ?_
  rw [q.initial_count, if_neg]
  rintro ⟨⟨hres, rfl⟩, -⟩
  exact AppRequest.initial_server hres hname

section balance
variable {e : Env} {names : List String} {s s' : Plan} {evs : List Placement}

/-- **If containers are left, no host of the pool can hold one of them.** -/
theorem CyclicRounds.complete (hnn : e.container_resources.Nonneg e.limit_key)
    (h : CyclicRounds e names s evs s') (hs : s.Mirrored e)
    (hleft : 0 < containersNotAllocated s'.containers_to_allocate) {name : String}
    (hname : name ∈ names) : s'.Rejects e name :=
  RoundRobin.Rounds.complete (I := Plan.Mirrored e) (P := Plan.Rejects e)
    (fun _ _ _ hI hst => hst.mirrored hI) (fun _ _ hI hdec => hdec.rejects hI)
    (fun _ _ _ _ hP hst => hst.rejects hnn hP) h hs (not_le.2 hleft) hname

/-- **Who is two containers behind another host rejected the type that it got
    last**, before it got it. -/
theorem CyclicRounds.fair (hnn : e.container_resources.Nonneg e.limit_key)
    (h : CyclicRounds e names s evs s') (hs : s.Mirrored e) (hnd : names.Nodup) {A : String}
    (hA : A ∈ names) {pre post : List Placement} {ev : Placement} (hevs : evs = pre ++ ev :: post)
    (hlast : ∀ ev' ∈ post, ev'.host ≠ ev.host)
    (hcount : (evs.map Placement.host).count A + 2 ≤ (evs.map Placement.host).count ev.host) :
    ¬ s'.CanHold e A ev.type := by
  have hnot : ev.host ∉ post.map Placement.host := by
    rw [List.mem_map]
    rintro ⟨ev', hev', heq⟩
    exact hlast ev' hev' heq
  obtain ⟨s₁, s₂, -, hst, hpost, hrej⟩ :=
    RoundRobin.Rounds.fair (I := Plan.Mirrored e) (P := Plan.Rejects e)
      (fun _ _ _ hI hst => hst.mirrored hI) (fun _ _ hI hdec => hdec.rejects hI)
      (fun _ _ _ _ hP hst => hst.rejects hnn hP) h hnd hs hA hevs hnot hcount
  have hlater : Reaches e .cyclic s₁ s' := .head hst.1 (CyclicTakes.reaches hpost)
  exact hlater.not_canHold hnn (hrej ev.type hst.1.pos)

end balance

end ServerlessYarn
