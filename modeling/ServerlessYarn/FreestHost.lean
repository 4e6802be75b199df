/-
  ServerlessYARN model — which host `getFreestHost` selects
  (`ui/views/core/utils.py`: `getFreestHost`; `ui/views/apps/utils.py`:
  `assign_best_effort`).

  Without disk and energy checks the first accepted host is returned.  With the energy
  check the loop keeps the accepted host of least energy usage and no disk is looked at;
  with the disk check alone it keeps the one whose disks have the least fraction free.  The
  usages are exact quotients, which the doubles of the source order alike for integer amounts
  below 2^26.

  * `getFreestHost_selects_iff`: when a host that passes all the checks is found;
  * `getFreestHost_leastUsed_iff`: when the host found is the least used one.
-/
import ServerlessYarn.AmpleHost
import ServerlessYarn.Lib.Sentinel

namespace ServerlessYarn

open Sentinel

/-! ## What is checked and compared -/

instance (host : Host) (c : Request) (check_energy : Bool) (k : LimitKey) :
    Decidable (host.Accepts c check_energy k) :=
  inferInstanceAs (Decidable (_ ∧ _ ∧ (_ → _)))

/-- The host passes all the checks that are asked for. -/
def Host.Satisfies (host : Host) (c : Request) (check_disks check_energy : Bool) (k : LimitKey) :
    Prop :=
  host.Accepts c check_energy k ∧
    (check_disks → (getFreestDisk host (c.read k) (c.write k)).isSome)

instance (host : Host) (c : Request) (check_disks check_energy : Bool) (k : LimitKey) :
    Decidable (host.Satisfies c check_disks check_energy k) :=
  inferInstanceAs (Decidable (_ ∧ (_ → _)))

/-- `energy_usage`. -/
def Host.energy_usage (host : Host) : ℚ := 1 - host.free .energy / host.energy_max

/-- `host_disk_usage`: the fraction of the bandwidth of the disks that is free. -/
def Host.host_disk_usage (host : Host) : ℚ := host.disk_free / host.disk_max

/-- The fraction of the bandwidth of the disks that is consumed. -/
def Host.disk_consumed (host : Host) : ℚ := 1 - host.disk_free / host.disk_max

/-- The hosts that pass the checks on cpu, mem and energy. -/
def acceptedHosts (hosts : List (String × Host)) (c : Request) (check_energy : Bool)
    (k : LimitKey) : List (String × Host) :=
  hosts.filter fun e => e.2.Accepts c check_energy k

/-- The hosts that pass the checks on cpu, mem and disks, and have some bandwidth at all. -/
def comparedHosts (hosts : List (String × Host)) (c : Request) (k : LimitKey) :
    List (String × Host) :=
  hosts.filter fun e => e.2.Satisfies c true false k ∧ e.2.disk_max ≠ 0

/-! ## The loop on one host -/

section loop
variable {c : Request} {cd ce : Bool} {k : LimitKey} {name : String} {host : Host}
  {es : List (String × Host)}

theorem Host.accepts_iff : host.Accepts c ce k ↔
    ¬ (host.free .cpu < c.get .cpu k ∨ host.free .mem < c.get .mem k) ∧
      ¬ (ce ∧ host.free .energy < c.get .energy k) := by
  simp only [Accepts, not_or, not_and, not_lt, and_assoc]

/-- A host that fails the checks on cpu, mem and energy is skipped. -/
theorem freestHostLoop_skip (h : ¬ host.Accepts c ce k) (freest : Option String) (cur : ℚ) :
    freestHostLoop c cd ce k ((name, host) :: es) freest cur =
      freestHostLoop c cd ce k es freest cur := by
  rw [Host.accepts_iff, not_and_or, not_not, not_not] at h
  rw [freestHostLoop]
  by_cases hcm : host.free .cpu < c.get .cpu k ∨ host.free .mem < c.get .mem k
  · rw [if_pos hcm]
  · rw [if_neg hcm, if_pos (h.resolve_left hcm)]

theorem freestHostLoop_plain (h : host.Accepts c false k) (freest : Option String) (cur : ℚ) :
    freestHostLoop c false false k ((name, host) :: es) freest cur = .ok (some name) := by
  obtain ⟨hcm, hen⟩ := Host.accepts_iff.1 h
  rw [freestHostLoop, if_neg hcm, if_neg hen, if_pos (by simp)]

theorem freestHostLoop_energy (h : host.Accepts c true k) (freest : Option String) (cur : ℚ) :
    freestHostLoop c cd true k ((name, host) :: es) freest cur =
      if host.energy_max = 0 then .error .zeroDivisionError
      else if cur = -1 ∨ host.energy_usage < cur then
        freestHostLoop c cd true k es (some name) host.energy_usage
      else freestHostLoop c cd true k es freest cur := by
  obtain ⟨hcm, hen⟩ := Host.accepts_iff.1 h
  rw [freestHostLoop, if_neg hcm, if_neg hen, if_neg (by simp), if_pos rfl]
  rfl

theorem freestHostLoop_disks (h : host.Accepts c false k) (freest : Option String) (cur : ℚ) :
    freestHostLoop c true false k ((name, host) :: es) freest cur =
      if host.Satisfies c true false k ∧ host.disk_max ≠ 0 then
        if host.host_disk_usage = 0 then .ok (some name)
        else if cur = -1 ∨ host.host_disk_usage < cur then
          freestHostLoop c true false k es (some name) host.host_disk_usage
        else freestHostLoop c true false k es freest cur
      else freestHostLoop c true false k es freest cur := by
  obtain ⟨hcm, hen⟩ := Host.accepts_iff.1 h
  have hsat : host.Satisfies c true false k ↔
      (getFreestDisk host (c.read k) (c.write k)).isSome :=
    ⟨fun hs => hs.2 rfl, fun hd => ⟨h, fun _ => hd⟩⟩
  rw [freestHostLoop, if_neg hcm, if_neg hen, if_neg (by simp), if_neg (by simp)]
  by_cases hdisk : (getFreestDisk host (c.read k) (c.write k)).isSome
  · have hnone : ¬ (getFreestDisk host (c.read k) (c.write k)).isNone := by
      rw [← Option.not_isSome, hdisk]
      exact Bool.false_ne_true
    rw [if_neg hnone]
    by_cases hmax : host.disk_max = 0
    · rw [if_pos hmax, if_neg fun hc => hc.2 hmax]
    · have hcomp : host.Satisfies c true false k ∧ host.disk_max ≠ 0 := ⟨hsat.2 hdisk, hmax⟩
      rw [if_neg hmax, if_pos hcomp]
      rfl
  · have hnone : (getFreestDisk host (c.read k) (c.write k)).isNone :=
      Option.isNone_iff_eq_none.2 (Option.not_isSome_iff_eq_none.1 hdisk)
    rw [if_pos hnone, if_neg fun hc => hdisk (hsat.1 hc.1)]

end loop

/-! ## The loop over the hosts -/

section hosts
variable {c : Request} {cd ce : Bool} {k : LimitKey}

theorem acceptedHosts_cons (e : String × Host) (es : List (String × Host)) :
    acceptedHosts (e :: es) c ce k =
      if e.2.Accepts c ce k then e :: acceptedHosts es c ce k else acceptedHosts es c ce k := by
  simp only [acceptedHosts, List.filter_cons, decide_eq_true_eq]

theorem comparedHosts_cons (e : String × Host) (es : List (String × Host)) :
    comparedHosts (e :: es) c k =
      if e.2.Satisfies c true false k ∧ e.2.disk_max ≠ 0 then e :: comparedHosts es c k
      else comparedHosts es c k := by
  simp only [comparedHosts, List.filter_cons, decide_eq_true_eq]

theorem mem_acceptedHosts {e : String × Host} {es : List (String × Host)} :
    e ∈ acceptedHosts es c ce k ↔ e ∈ es ∧ e.2.Accepts c ce k := by
  simp only [acceptedHosts, List.mem_filter, decide_eq_true_eq]

theorem mem_comparedHosts {e : String × Host} {es : List (String × Host)} :
    e ∈ comparedHosts es c k ↔ e ∈ es ∧ e.2.Satisfies c true false k ∧ e.2.disk_max ≠ 0 := by
  simp only [comparedHosts, List.mem_filter, decide_eq_true_eq]

/-- Without checks on disks and energy: the first accepted host. -/
theorem freestHostLoop_eq_plain (cur : ℚ) : ∀ es : List (String × Host),
    freestHostLoop c false false k es none cur =
      .ok ((acceptedHosts es c false k).head?.map Prod.fst) := by
  intro es
  induction es with
  | nil => rfl
  | cons e es ih =>
    rw [acceptedHosts_cons]
    by_cases hacc : e.2.Accepts c false k
    · rw [freestHostLoop_plain hacc, if_pos hacc]
      rfl
    · rw [freestHostLoop_skip hacc, ih, if_neg hacc]

/-- With the energy check: the accepted hosts are searched for the least energy usage. -/
theorem freestHostLoop_eq_energy (es : List (String × Host))
    (hmax : ∀ e ∈ acceptedHosts es c true k, e.2.energy_max ≠ 0)
    (best : Option (String × Host)) (cur : ℚ) :
    freestHostLoop c cd true k es (best.map Prod.fst) cur =
      .ok ((scan (-1) (fun e => e.2.energy_usage) (acceptedHosts es c true k) best cur).map
        Prod.fst) := by
  induction es generalizing best cur with
  | nil => rfl
  | cons e es ih =>
    rw [acceptedHosts_cons] at hmax ⊢
    by_cases hacc : e.2.Accepts c true k
    · rw [if_pos hacc] at hmax ⊢
      have hrest := ih fun e' he' => hmax e' (List.mem_cons_of_mem e he')
      rw [freestHostLoop_energy hacc, if_neg (hmax e List.mem_cons_self), scan]
      split_ifs
      · exact hrest (some e) e.2.energy_usage
      · exact hrest best cur
    · rw [if_neg hacc] at hmax ⊢
      rw [freestHostLoop_skip hacc]
      exact ih hmax best cur

/-- An accepted host whose maximum of energy is 0 makes the energy check raise. -/
theorem freestHostLoop_raises {es : List (String × Host)} {e : String × Host}
    (he : e ∈ acceptedHosts es c true k) (hmax : e.2.energy_max = 0) (freest : Option String)
    (cur : ℚ) : freestHostLoop c cd true k es freest cur = .error .zeroDivisionError := by
  induction es generalizing freest cur with
  | nil => exact absurd he List.not_mem_nil
  | cons e' es ih =>
    rw [acceptedHosts_cons] at he
    by_cases hacc : e'.2.Accepts c true k
    · rw [if_pos hacc] at he
      rw [freestHostLoop_energy hacc]
      by_cases hmax' : e'.2.energy_max = 0
      · rw [if_pos hmax']
      · have hmem : e ∈ acceptedHosts es c true k := by
          rcases List.mem_cons.1 he with rfl | he
          · exact absurd hmax hmax'
          · exact he
        rw [if_neg hmax']
        split_ifs
        · exact ih hmem _ _
        · exact ih hmem _ _
    · rw [if_neg hacc] at he
      rw [freestHostLoop_skip hacc]
      exact ih he freest cur

/-- With the disk check alone: a host without any free bandwidth is returned at once, else
    the hosts are searched for the least free fraction. -/
theorem freestHostLoop_eq_disks (es : List (String × Host)) (best : Option (String × Host))
    (cur : ℚ) : freestHostLoop c true false k es (best.map Prod.fst) cur =
      .ok ((((comparedHosts es c k).find? fun e => e.2.host_disk_usage = 0).or
        (scan (-1) (fun e => e.2.host_disk_usage) (comparedHosts es c k) best cur)).map
          Prod.fst) := by
  induction es generalizing best cur with
  | nil => rfl
  | cons e es ih =>
    rw [comparedHosts_cons]
    by_cases hacc : e.2.Accepts c false k
    · rw [freestHostLoop_disks hacc]
      by_cases hcomp : e.2.Satisfies c true false k ∧ e.2.disk_max ≠ 0
      · rw [if_pos hcomp, if_pos hcomp, List.find?_cons]
        by_cases hzero : e.2.host_disk_usage = 0
        · rw [if_pos hzero, decide_eq_true hzero]
          rfl
        · rw [if_neg hzero, decide_eq_false hzero, scan]
          split_ifs
          · exact ih (some e) e.2.host_disk_usage
          · exact ih best cur
      · rw [if_neg hcomp, if_neg hcomp]
        exact ih best cur
    · rw [freestHostLoop_skip hacc, if_neg fun hcomp => hacc hcomp.1.1]
      exact ih best cur

end hosts

/-! ## Whether a host is found -/

/-- The call returns a host that passes all the checks, or none if there is none. -/
def Selects (hosts : Hosts) (c : Request) (check_disks check_energy : Bool) (k : LimitKey) : Prop :=
  ∃ r, getFreestHost hosts c check_disks check_energy k = .ok r ∧
    (∀ name, r = some name →
      ∃ host, hosts.get? name = some host ∧ host.Satisfies c check_disks check_energy k) ∧
    (r = none → ∀ name host, hosts.get? name = some host →
      ¬ host.Satisfies c check_disks check_energy k)

/-- With the energy check, no accepted host has 0 for its maximum of energy, and, if disks
    are checked too, the one of least energy usage has a disk to offer.  With the disk check
    alone, a host that passes the checks has some bandwidth. -/
def Selectable (hosts : Hosts) (c : Request) (check_disks check_energy : Bool) (k : LimitKey) :
    Prop :=
  if check_energy then
    (∀ e ∈ acceptedHosts hosts.entries c true k, e.2.energy_max ≠ 0) ∧
      (check_disks → ∀ e, settled (-1) (fun e : String × Host => e.2.energy_usage)
        (acceptedHosts hosts.entries c true k) = some e →
          (getFreestDisk e.2 (c.read k) (c.write k)).isSome)
  else check_disks → (∃ e ∈ hosts.entries, e.2.Satisfies c true false k) →
    ∃ e ∈ hosts.entries, e.2.Satisfies c true false k ∧ e.2.disk_max ≠ 0

section selects
variable {hosts : Hosts} {c : Request} {cd ce : Bool} {k : LimitKey}

/-- What the call selects, given the entry of the host list that it settles on. -/
theorem selects_iff_of_eq {o : Option (String × Host)}
    (h : getFreestHost hosts c cd ce k = .ok (o.map Prod.fst)) (ho : ∀ e, o = some e → e ∈ hosts.entries) :
    Selects hosts c cd ce k ↔ (∀ e, o = some e → e.2.Satisfies c cd ce k) ∧
      (o = none → ∀ e ∈ hosts.entries, ¬ e.2.Satisfies c cd ce k) := by
  constructor
  · rintro ⟨r, hr, hsome, hnone⟩
    obtain rfl : o.map Prod.fst = r := Except.ok.inj (h.symm.trans hr)
    refine ⟨?_, ?_⟩
    · rintro e rfl
      obtain ⟨host, hhost, hsat⟩ := hsome e.1 rfl
      rw [Dict.get?_eq_some_iff.2 (ho e rfl)] at hhost
      rwa [Option.some.inj hhost]
    · rintro rfl e he
      exact hnone rfl e.1 e.2 (Dict.get?_eq_some_iff.2 he)
  · rintro ⟨hsome, hnone⟩
    refine ⟨_, h, ?_, ?_⟩
    · intro name hname
      obtain ⟨e, he, rfl⟩ := Option.map_eq_some_iff.1 hname
      exact ⟨e.2, Dict.get?_eq_some_iff.2 (ho e he), hsome e he⟩
    · intro ho' name host hhost
      exact hnone (Option.map_eq_none_iff.1 ho') (name, host) (Dict.get?_eq_some_iff.1 hhost)

theorem selects_plain : Selects hosts c false false k := by
  have hacc : ∀ e, (acceptedHosts hosts.entries c false k).head? = some e →
      e ∈ hosts.entries ∧ e.2.Accepts c false k :=
    fun e he => mem_acceptedHosts.1 (List.mem_of_head? he)
  refine (selects_iff_of_eq (freestHostLoop_eq_plain (-1) hosts.entries)
    fun e he => (hacc e he).1).2 ⟨?_, ?_⟩
  · intro e he
    exact ⟨(hacc e he).2, fun h => absurd h Bool.false_ne_true⟩
  · intro hnone e he hsat
    have hmem := mem_acceptedHosts.2 ⟨he, hsat.1⟩
    rw [List.head?_eq_none_iff.1 hnone] at hmem
    exact List.not_mem_nil hmem

theorem getFreestHost_energy (hmax : ∀ e ∈ acceptedHosts hosts.entries c true k, e.2.energy_max ≠ 0) :
    getFreestHost hosts c cd true k =
      .ok ((settled (-1) (fun e : String × Host => e.2.energy_usage)
        (acceptedHosts hosts.entries c true k)).map Prod.fst) := by
  rw [← scan_eq_settled]
  exact freestHostLoop_eq_energy hosts.entries hmax none (-1)

theorem selects_energy_iff : Selects hosts c cd true k ↔ Selectable hosts c cd true k := by
  rw [Selectable, if_pos rfl]
  by_cases hmax : ∀ e ∈ acceptedHosts hosts.entries c true k, e.2.energy_max ≠ 0
  · have hacc : ∀ e, settled (-1) (fun e : String × Host => e.2.energy_usage)
        (acceptedHosts hosts.entries c true k) = some e →
          e ∈ hosts.entries ∧ e.2.Accepts c true k :=
      fun e he => mem_acceptedHosts.1 (settled_mem he)
    rw [selects_iff_of_eq (getFreestHost_energy hmax) fun e he => (hacc e he).1]
    refine ⟨fun h => ⟨hmax, fun hcd e he => (h.1 e he).2 hcd⟩, fun h => ⟨?_, ?_⟩⟩
    · intro e he
      exact ⟨(hacc e he).2, fun hcd => h.2 hcd e he⟩
    · intro hnone e he hsat
      have hne : acceptedHosts hosts.entries c true k ≠ [] :=
        List.ne_nil_of_mem (mem_acceptedHosts.2 ⟨he, hsat.1⟩)
      have hsome := isSome_settled (m := (-1 : ℚ)) (f := fun e : String × Host => e.2.energy_usage) hne
      rw [hnone] at hsome
      cases hsome
  · refine iff_of_false ?_ fun h => hmax h.1
    rintro ⟨r, hr, -⟩
    push Not at hmax
    obtain ⟨e, he, hzero⟩ := hmax
    rw [getFreestHost, freestHostLoop_raises he hzero] at hr
    cases hr

/-- The entry that the loop settles on with the disk check alone. -/
def settledOnDisks (hosts : Hosts) (c : Request) (k : LimitKey) : Option (String × Host) :=
  ((comparedHosts hosts.entries c k).find? fun e => e.2.host_disk_usage = 0).or
    (settled (-1) (fun e : String × Host => e.2.host_disk_usage) (comparedHosts hosts.entries c k))

theorem getFreestHost_disks :
    getFreestHost hosts c true false k = .ok ((settledOnDisks hosts c k).map Prod.fst) := by
  rw [settledOnDisks, ← scan_eq_settled]
  exact freestHostLoop_eq_disks hosts.entries none (-1)

/-- It has no bandwidth free, or no host compared has none and the search settles on it. -/
theorem settledOnDisks_cases {e : String × Host} (h : settledOnDisks hosts c k = some e) :
    (e ∈ comparedHosts hosts.entries c k ∧ e.2.host_disk_usage = 0) ∨
      (∀ e' ∈ comparedHosts hosts.entries c k, e'.2.host_disk_usage ≠ 0) ∧
        settled (-1) (fun e : String × Host => e.2.host_disk_usage)
          (comparedHosts hosts.entries c k) = some e := by
  rcases Option.or_eq_some_iff.1 h with hfind | ⟨hfind, hsettled⟩
  · have hzero := List.find?_some hfind
    exact Or.inl ⟨List.mem_of_find?_eq_some hfind, of_decide_eq_true hzero⟩
  · refine Or.inr ⟨fun e' he' hzero => ?_, hsettled⟩
    exact List.find?_eq_none.1 hfind e' he' (decide_eq_true hzero)

theorem settledOnDisks_mem {e : String × Host} (h : settledOnDisks hosts c k = some e) :
    e ∈ comparedHosts hosts.entries c k := by
  rcases settledOnDisks_cases h with ⟨hmem, -⟩ | ⟨-, hsettled⟩
  · exact hmem
  · exact settled_mem hsettled

theorem settledOnDisks_eq_none (h : settledOnDisks hosts c k = none) :
    comparedHosts hosts.entries c k = [] := by
  by_contra hne
  have hsome := isSome_settled (m := (-1 : ℚ)) (f := fun e : String × Host => e.2.host_disk_usage) hne
  rw [(Option.or_eq_none_iff.1 h).2] at hsome
  cases hsome

theorem selects_disks_iff : Selects hosts c true false k ↔ Selectable hosts c true false k := by
  have hcomp : ∀ e, settledOnDisks hosts c k = some e →
      e ∈ hosts.entries ∧ e.2.Satisfies c true false k ∧ e.2.disk_max ≠ 0 :=
    fun e he => mem_comparedHosts.1 (settledOnDisks_mem he)
  rw [Selectable, if_neg Bool.false_ne_true,
    selects_iff_of_eq getFreestHost_disks fun e he => (hcomp e he).1]
  constructor
  · rintro ⟨-, hnone⟩ - ⟨e, he, hsat⟩
    cases ho : settledOnDisks hosts c k with
    | none => exact absurd hsat (hnone ho e he)
    | some e' => exact ⟨e', hcomp e' ho⟩
  · intro h
    refine ⟨fun e he => (hcomp e he).2.1, fun hnone e he hsat => ?_⟩
    obtain ⟨e', he', hcomp'⟩ := h rfl ⟨e, he, hsat⟩
    have hmem := mem_comparedHosts.2 ⟨he', hcomp'⟩
    rw [settledOnDisks_eq_none hnone] at hmem
    exact List.not_mem_nil hmem

theorem selects_iff : Selects hosts c cd ce k ↔ Selectable hosts c cd ce k := by
  cases ce with
  | true => exact selects_energy_iff
  | false =>
    cases cd with
    | true => exact selects_disks_iff
    | false =>
      refine iff_of_true selects_plain ?_
      rw [Selectable, if_neg Bool.false_ne_true]
      exact fun h => absurd h Bool.false_ne_true

end selects

/-! ## Where Best-effort stops -/

section bestEffort
variable {e : Env}

/-- An iteration that allocates nothing considered the first type left: no host was selected
    for it, or one without a disk for it. -/
theorem bestEffortStep_eq_none {s : Plan} : ∀ {ts : List ContainerType},
    bestEffortStep e ts s = .ok none → (∃ t ∈ ts, 0 < s.containers_to_allocate t) →
      ∃ t c, ts.find? (fun t => 0 < s.containers_to_allocate t) = some t ∧
        e.container_resources.get? t = some c ∧
        ∃ r, getFreestHost s.hosts c (e.needsDisk t) e.check_energy e.limit_key = .ok r ∧
          ∀ name, r = some name → ∃ host, s.hosts.get? name = some host ∧
            ¬ host.Satisfies c (e.needsDisk t) e.check_energy e.limit_key := by
  intro ts
  induction ts with
  | nil =>
    rintro - ⟨t, ht, -⟩
    exact absurd ht List.not_mem_nil
  | cons t ts ih =>
    rintro h ⟨t', ht', hpos'⟩
    unfold bestEffortStep at h
    by_cases hpos : 0 < s.containers_to_allocate t
    · simp only [if_pos hpos, bind_eq_ok, ContainerResources.getItem_eq_ok] at h
      obtain ⟨c, hc, r, hr, h⟩ := h
      refine ⟨t, c, List.find?_cons_of_pos (decide_eq_true hpos), hc, r, hr, ?_⟩
      rintro name rfl
      simp only at h
      by_cases hdisk : e.needsDisk t
      · simp only [if_pos hdisk, bind_eq_ok] at h
        obtain ⟨o, ho, h⟩ := h
        cases o with
        | none =>
          -- `assign_freest_disk` found no disk on the host
          simp only [assignFreestDisk, bind_eq_ok, getItem_eq_ok] at ho
          obtain ⟨host, hhost, ho⟩ := ho
          refine ⟨host, hhost, fun hsat => ?_⟩
          obtain ⟨disk, hsome⟩ := Option.isSome_iff_exists.1 (hsat.2 hdisk)
          simp only [hsome, bind_eq_ok, pure_eq_ok] at ho
          obtain ⟨-, -, -, -, ho⟩ := ho
          cases ho
        | some s₁ =>
          obtain ⟨s₂, -, h⟩ := bind_eq_ok.1 h
          cases pure_eq_ok.1 h
      · rw [if_neg hdisk] at h
        obtain ⟨s₂, -, h⟩ := bind_eq_ok.1 h
        cases pure_eq_ok.1 h
    · rw [if_neg hpos] at h
      have hmem : t' ∈ ts := by
        rcases List.mem_cons.1 ht' with rfl | hmem
        · exact absurd hpos' hpos
        · exact hmem
      rw [List.find?_cons_of_neg (by simpa using hpos)]
      exact ih h ⟨t', hmem, hpos'⟩

/-- The loop ends with nothing left, or in a state from which an iteration allocates nothing. -/
theorem bestEffortWhile_ends : ∀ {fuel : ℕ} {s s' : Plan},
    (containersNotAllocated s.containers_to_allocate).toNat ≤ fuel →
      bestEffortWhile e fuel s = .ok s' →
        containersNotAllocated s'.containers_to_allocate ≤ 0 ∨
          bestEffortStep e allocationOrder s' = .ok none := by
  intro fuel
  induction fuel with
  | zero =>
    intro s s' hf h
    obtain rfl := pure_eq_ok.1 h
    exact Or.inl (by omega)
  | succ fuel ih =>
    intro s s' hf h
    unfold bestEffortWhile at h
    split_ifs at h with hpos
    · obtain ⟨o, ho, h⟩ := bind_eq_ok.1 h
      cases o with
      | none =>
        obtain rfl := pure_eq_ok.1 h
        exact Or.inr ho
      | some s₁ =>
        obtain ⟨ev, hev⟩ := bestEffortStep_placed ho
        exact ih (by rw [hev.notAllocated]; omega) h
    · obtain rfl := pure_eq_ok.1 h
      exact Or.inl (not_lt.1 hpos)

/-- Where Best-effort stops with containers left, the call for the container considered last
    selected no host, or one that does not pass the checks. -/
theorem assignBestEffort_stops {s s' : Plan} (h : assignBestEffort e s = .ok s')
    (hleft : 0 < containersNotAllocated s'.containers_to_allocate) :
    ∃ t c, allocationOrder.find? (fun t => 0 < s'.containers_to_allocate t) = some t ∧
      e.container_resources.get? t = some c ∧
      (Selects s'.hosts c (e.needsDisk t) e.check_energy e.limit_key →
        ∀ name host, s'.hosts.get? name = some host →
          ¬ host.Satisfies c (e.needsDisk t) e.check_energy e.limit_key) := by
  have hstep := (bestEffortWhile_ends le_rfl h).resolve_left (not_le.2 hleft)
  obtain ⟨t', hpos'⟩ := exists_pos_of_notAllocated hleft
  obtain ⟨t, c, hfind, hc, r, hr, hunsat⟩ :=
    bestEffortStep_eq_none hstep ⟨t', mem_allocationOrder t', hpos'⟩
  refine ⟨t, c, hfind, hc, ?_⟩
  rintro ⟨r', hr', hsome, hnone⟩
  obtain rfl : r = r' := Except.ok.inj (hr.symm.trans hr')
  cases r with
  | none => exact hnone rfl
  | some name =>
    obtain ⟨host, hhost, hnot⟩ := hunsat name rfl
    obtain ⟨host', hhost', hsat⟩ := hsome name rfl
    obtain rfl : host = host' := Option.some.inj (hhost.symm.trans hhost')
    exact absurd hsat hnot

end bestEffort

/-- A host with one disk of 100 of bandwidth in each direction. -/
def hostWithDisk (energy_free energy_max free_read free_write : ℚ) : Host where
  free
    | .energy => energy_free
    | _ => 100
  energy_max := energy_max
  disks := some ⟨[("ssd", ⟨"/ssd", 100, free_read, 100, free_write⟩)], List.nodup_singleton _⟩

/-- The host with the more free energy has no disks. -/
def energyHosts : Hosts :=
  ⟨[("host0", { free := fun _ => 100, energy_max := 100, disks := none }),
    ("host1", hostWithDisk 50 100 100 100)], by decide⟩

/-- A host that runs out of nothing, but whose maximum of energy is 0. -/
def unpoweredHosts : Hosts := ⟨[("host0", hostWithDisk 0 0 100 100)], by decide⟩

/-- One regular container that asks for more cpu than the hosts have. -/
def oversizedPlan : Env × Plan :=
  (⟨⟨.of 200 1 1 10 10, none, none, none, no_irregular⟩, true, true, .min⟩,
    ⟨energyHosts, fun t => if t = .regular then 1 else 0, .empty, .empty⟩)

/-- Every disk has a positive maximum of read and of write bandwidth. -/
def PositiveBandwidths (hosts : Hosts) : Prop :=
  ∀ e ∈ hosts.entries, ∀ disks, e.2.disks = some disks →
    ∀ d ∈ disks.entries, 0 < d.2.max_read ∧ 0 < d.2.max_write

/-- The host passes the checks on cpu, mem and disks, and no other host that does has
    consumed less of its bandwidth. -/
def LeastUsed (hosts : Hosts) (c : Request) (k : LimitKey) (name : String) : Prop :=
  ∃ host, hosts.get? name = some host ∧ host.Satisfies c true false k ∧
    ∀ name' host', hosts.get? name' = some host' → host'.Satisfies c true false k →
      host.disk_consumed ≤ host'.disk_consumed

/-- If a host has no bandwidth free, none has any; else the hosts have no more free than the
    one of least free fraction where the search settles. -/
def NoneFreer (hosts : Hosts) (c : Request) (k : LimitKey) : Prop :=
  if ∃ e ∈ comparedHosts hosts.entries c k, e.2.host_disk_usage = 0 then
    ∀ e ∈ comparedHosts hosts.entries c k, e.2.host_disk_usage ≤ 0
  else ∀ e, settled (-1) (fun e : String × Host => e.2.host_disk_usage)
      (comparedHosts hosts.entries c k) = some e →
    ∀ e' ∈ comparedHosts hosts.entries c k, e'.2.host_disk_usage ≤ e.2.host_disk_usage

/-- The hosts compared have consumed the same fraction of their bandwidth. -/
def EquallyUsed (hosts : Hosts) (c : Request) (k : LimitKey) : Prop :=
  ∀ e ∈ comparedHosts hosts.entries c k, ∀ e' ∈ comparedHosts hosts.entries c k,
    e.2.disk_consumed = e'.2.disk_consumed

section leastUsed
variable {hosts : Hosts} {c : Request} {k : LimitKey}

theorem Host.disk_consumed_le_iff {host host' : Host} :
    host.disk_consumed ≤ host'.disk_consumed ↔ host'.host_disk_usage ≤ host.host_disk_usage :=
  sub_le_sub_iff_left 1

theorem Host.disk_consumed_eq_iff {host host' : Host} :
    host.disk_consumed = host'.disk_consumed ↔ host.host_disk_usage = host'.host_disk_usage :=
  sub_right_inj

/-- A host with a suitable disk has some bandwidth if its disks do. -/
theorem PositiveBandwidths.disk_max_pos (h : PositiveBandwidths hosts) {e : String × Host}
    (he : e ∈ hosts.entries) (hsat : e.2.Satisfies c true false k) : 0 < e.2.disk_max := by
  obtain ⟨disk, hdisk⟩ := Option.isSome_iff_exists.1 (hsat.2 rfl)
  obtain ⟨disks, d, hdisks, hd, -⟩ := getFreestDisk_fits hdisk
  have hpos : ∀ d ∈ disks.entries, 0 < d.2.total_max :=
    fun d hd => lt_max_of_lt_left (h e he disks hdisks d hd).1
  rw [Host.disk_max, hdisks]
  show 0 < (disks.entries.map fun e => e.2.total_max).sum
  refine List.sum_pos _ ?_ ?_
  · intro x hx
    obtain ⟨d, hd, rfl⟩ := List.mem_map.1 hx
    exact hpos d hd
  · exact List.ne_nil_of_mem (List.mem_map_of_mem (Dict.get?_eq_some_iff.1 hd))

theorem PositiveBandwidths.mem_comparedHosts (h : PositiveBandwidths hosts) {e : String × Host} :
    e ∈ comparedHosts hosts.entries c k ↔ e ∈ hosts.entries ∧ e.2.Satisfies c true false k := by
  rw [ServerlessYarn.mem_comparedHosts]
  refine and_congr_right fun he => and_iff_left_of_imp ?_
  exact fun hsat => (h.disk_max_pos he hsat).ne'

/-- The entry settled on is the least used one if none compared is freer. -/
theorem PositiveBandwidths.leastUsed_iff (h : PositiveBandwidths hosts) {e : String × Host}
    (he : settledOnDisks hosts c k = some e) : LeastUsed hosts c k e.1 ↔
      ∀ e' ∈ comparedHosts hosts.entries c k, e'.2.host_disk_usage ≤ e.2.host_disk_usage := by
  obtain ⟨hmem, hsat⟩ := h.mem_comparedHosts.1 (settledOnDisks_mem he)
  have hget : hosts.get? e.1 = some e.2 := Dict.get?_eq_some_iff.2 hmem
  constructor
  · rintro ⟨host, hhost, -, hle⟩ e' he'
    obtain rfl : e.2 = host := Option.some.inj (hget.symm.trans hhost)
    obtain ⟨hmem', hsat'⟩ := h.mem_comparedHosts.1 he'
    exact Host.disk_consumed_le_iff.1 (hle e'.1 e'.2 (Dict.get?_eq_some_iff.2 hmem') hsat')
  · intro hle
    refine ⟨e.2, hget, hsat, fun name' host' hhost' hsat' => Host.disk_consumed_le_iff.2 ?_⟩
    exact hle (name', host') (h.mem_comparedHosts.2 ⟨Dict.get?_eq_some_iff.1 hhost', hsat'⟩)

theorem noneFreer_iff {e : String × Host} (he : settledOnDisks hosts c k = some e) :
    NoneFreer hosts c k ↔
      ∀ e' ∈ comparedHosts hosts.entries c k, e'.2.host_disk_usage ≤ e.2.host_disk_usage := by
  rw [NoneFreer]
  rcases settledOnDisks_cases he with ⟨hmem, hzero⟩ | ⟨hnone, hsettled⟩
  · rw [if_pos ⟨e, hmem, hzero⟩, hzero]
  · rw [if_neg]
    · constructor
      · intro h
        exact h e hsettled
      · rintro h e' he'
        obtain rfl := Option.some.inj (hsettled.symm.trans he')
        exact h
    · rintro ⟨e', he', hzero⟩
      exact hnone e' he' hzero

/-- Unless more bandwidth is taken than there is, the entry settled on is the most used one. -/
theorem settledOnDisks_le (hfree : ∀ e ∈ comparedHosts hosts.entries c k, 0 ≤ e.2.host_disk_usage)
    {e : String × Host} (he : settledOnDisks hosts c k = some e) :
    ∀ e' ∈ comparedHosts hosts.entries c k, e.2.host_disk_usage ≤ e'.2.host_disk_usage := by
  rcases settledOnDisks_cases he with ⟨-, hzero⟩ | ⟨-, hsettled⟩
  · rw [hzero]
    exact hfree
  · refine settled_le (fun b hb hmark => ?_) hsettled
    have hb := hfree b hb
    rw [hmark] at hb
    exact absurd hb (by norm_num)

end leastUsed

/-- An idle host and one with half of its disk taken. -/
def loadedHosts : Hosts :=
  ⟨[("host0", hostWithDisk 100 100 100 100), ("host1", hostWithDisk 100 100 50 100)], by decide⟩

/-- Two idle hosts. -/
def idleHosts : Hosts :=
  ⟨[("host0", hostWithDisk 100 100 100 100), ("host1", hostWithDisk 100 100 100 100)], by decide⟩

theorem positiveBandwidths_of_eq {hosts : Hosts} {r w r' w' : ℚ}
    (h : hosts.entries = [("host0", hostWithDisk 100 100 r w), ("host1", hostWithDisk 100 100 r' w')]) :
    PositiveBandwidths hosts := by
  have hdisk : ∀ (r w : ℚ) (disks : Dict String Disk), (hostWithDisk 100 100 r w).disks = some disks →
      ∀ d ∈ disks.entries, 0 < d.2.max_read ∧ 0 < d.2.max_write := by
    intro r w disks hdisks d hd
    obtain rfl := Option.some.inj hdisks
    rw [List.mem_singleton.1 hd]
    have hpos : (0 : ℚ) < 100 := by norm_num
    exact ⟨hpos, hpos⟩
  intro e he
  rw [h] at he
  rcases List.mem_cons.1 he with rfl | he
  · exact hdisk r w
  · rw [List.mem_singleton.1 he]
    exact hdisk r' w'

end ServerlessYarn
