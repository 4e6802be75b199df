/-
  ServerlessYARN model — which containers are initialised on the node rescaler
  (`scripts/hosts/init_host_node_rescaler.py`, called with the names of the hosts joined
  by commas).

  The script does not take its first argument apart: a container is visited once for
  every character of the text that is the name of its host.

  * `requests_of_container`: the requests for a container are the visits at which it is
    reported as not initialised;
  * `initialisesEach_iff`: exactly the uninitialised containers of the listed hosts get
    one request, iff their hosts have names of one character and no other visit finds a
    container that is not initialised.
-/
import ServerlessYarn.CoreOverlap
import ServerlessYarn.Lib.Traversal

namespace ServerlessYarn

open Traversal

/-! ## The requests of a run -/

/-- One turn of the two loops: the request, with the position of the container. -/
def turnRequest (containers : List RescaledContainer) (resources : List String) (db : StructuresDb)
    (answers : ℕ → ℕ → RequestedData) (turn : (Char × ℕ) × (RescaledContainer × ℕ)) :
    Py (Option (ℕ × RescalerPut)) :=
  if String.singleton turn.1.1 ≠ turn.2.1.host then .ok none
  else (visit resources db containers (answers turn.1.2 turn.2.2) turn.2.1).map
    (Option.map fun put => (turn.2.2, put))

/-- What the script sends, with the positions of the containers. -/
def rescalerRequests (hosts : String) (containers : List RescaledContainer) (resources : List String)
    (db : StructuresDb) (answers : ℕ → ℕ → RequestedData) : Py (List (ℕ × RescalerPut)) := do
  let requests ← (turns hosts containers).mapM (turnRequest containers resources db answers)
  return requests.reduceOption

/-- `nodes | join(',')`. -/
def joinedNodes (nodes : List String) : String := String.intercalate "," nodes

/-- The answers by the number of the visit to the container. -/
def answersByVisit (hosts : String) (get : ℕ → ℕ → RequestedData) (i j : ℕ) : RequestedData :=
  get ((hosts.toList.take i).countP fun ch => some ch = hosts.toList[i]?) j

/-- How often the loop over the characters visits the containers of a host. -/
def visits (hosts host : String) : ℕ :=
  hosts.toList.countP fun ch => String.singleton ch = host

/-- A limit of the container is reported as `-1`. -/
def NeedsInit (resources : List String) (requested : RequestedData) (c : RescaledContainer) : Prop :=
  0 < notInitializedResources resources requested c

instance (resources : List String) (requested : RequestedData) (c : RescaledContainer) :
    Decidable (NeedsInit resources requested c) :=
  inferInstanceAs (Decidable (0 < _))

/-! ## Lists -/

theorem countP_zipIdx_of_getElem? {α : Type} {l : List α} {j : ℕ} {a : α} (h : l[j]? = some a)
    (p : α → ℕ → Prop) [∀ b i, Decidable (p b i)] :
    l.zipIdx.countP (fun x => x.2 = j ∧ p x.1 x.2) = if p a j then 1 else 0 := by
  induction l using List.reverseRecOn with
  | nil => cases h
  | append_singleton l b ih =>
    rw [List.zipIdx_append, List.countP_append, List.zipIdx_singleton, Nat.zero_add,
      List.countP_singleton]
    rcases Nat.lt_trichotomy j l.length with hlt | rfl | hgt
    · rw [List.getElem?_append_left hlt] at h
      rw [ih h]
      simp [hlt.ne']
    · -- the last one
      have hb : b = a := by simpa using h
      have hnone : l.zipIdx.countP (fun x => x.2 = l.length ∧ p x.1 x.2) = 0 := by
        refine List.countP_eq_zero.2 fun x hx => ?_
        have hlt := List.snd_lt_of_mem_zipIdx hx
        simp only [decide_eq_true_eq, not_and]
        omega
      rw [hnone, hb, Nat.zero_add]
      simp
    · rw [List.getElem?_eq_none (by simp; omega)] at h
      cases h

theorem sum_map_one_ite {α : Type} (p : α → Prop) [DecidablePred p] (l : List α) :
    (l.map fun a => if p a then 1 else 0).sum = l.countP fun a => p a := by
  induction l with
  | nil => rfl
  | cons a l ih =>
    rw [List.map_cons, List.sum_cons, ih, List.countP_cons, Nat.add_comm]
    simp

/-- The occurrences of what satisfies `p`, each with the number of the earlier ones. -/
theorem countP_zipIdx_take {α : Type} (p : α → Bool) (q : ℕ → Bool) (l : List α) :
    (l.zipIdx.countP fun x => p x.1 && q ((l.take x.2).countP p)) =
      (List.range (l.countP p)).countP q := by
  induction l using List.reverseRecOn with
  | nil => rfl
  | append_singleton l a ih =>
    rw [List.zipIdx_append, List.countP_append, List.countP_append]
    have hsame : (l.zipIdx.countP fun x => p x.1 && q (((l ++ [a]).take x.2).countP p)) =
        l.zipIdx.countP fun x => p x.1 && q ((l.take x.2).countP p) := by
      refine List.countP_congr fun x hx => ?_
      have hlt : x.2 < l.length := List.snd_lt_of_mem_zipIdx hx
      rw [List.take_append_of_le_length hlt.le]
    rw [hsame, ih]
    by_cases ha : p a = true
    · simp [ha, List.range_succ, List.countP_append]
    · simp [ha]

theorem forall_zipIdx_take {α : Type} (p : α → Bool) (Q : ℕ → Prop) (l : List α) :
    (∀ x ∈ l.zipIdx, p x.1 = true → Q ((l.take x.2).countP p)) ↔ ∀ k < l.countP p, Q k := by
  classical
  have h := countP_zipIdx_take p (fun k => decide ¬ Q k) l
  constructor
  · intro hQ k hk
    by_contra hnot
    have hpos : 0 < (List.range (l.countP p)).countP fun k => decide ¬ Q k :=
      List.countP_pos_iff.2 ⟨k, List.mem_range.2 hk, decide_eq_true hnot⟩
    rw [← h, List.countP_pos_iff] at hpos
    obtain ⟨x, hx, hpx⟩ := hpos
    rw [Bool.and_eq_true, decide_eq_true_eq] at hpx
    exact hpx.2 (hQ x hx hpx.1)
  · intro hQ x hx hp
    by_contra hnot
    have hpos : 0 < l.zipIdx.countP fun x => p x.1 && decide ¬ Q ((l.take x.2).countP p) :=
      List.countP_pos_iff.2 ⟨x, hx, by rw [hp, decide_eq_true hnot]; rfl⟩
    rw [h, List.countP_pos_iff] at hpos
    obtain ⟨k, hk, hnotk⟩ := hpos
    exact of_decide_eq_true hnotk (hQ k (List.mem_range.1 hk))

/-! ## The requests for one container -/

section
variable {containers : List RescaledContainer} {resources : List String} {db : StructuresDb}

/-- The earlier visits are those for the same character. -/
theorem answersByVisit_eq {hosts host : String} (get : ℕ → ℕ → RequestedData) (j : ℕ) {x : Char × ℕ}
    (hx : x ∈ hosts.toList.zipIdx) (hhost : String.singleton x.1 = host) :
    answersByVisit hosts get x.2 j =
      get ((hosts.toList.take x.2).countP fun ch => String.singleton ch = host) j := by
  rw [answersByVisit, List.mem_zipIdx_iff_getElem?.1 hx]
  refine congrArg (fun k => get k j) (List.countP_congr fun ch _ => ?_)
  rw [decide_eq_true_eq, decide_eq_true_eq, Option.some_inj, ← hhost]
  exact ⟨fun h => h ▸ rfl, fun h => String.singleton_inj.1 h⟩

/-- What a run sends, without the positions, is what `initHostNodeRescaler` sends. -/
theorem initHostNodeRescaler_eq (hosts : String) (containers : List RescaledContainer)
    (resources : List String) (db : StructuresDb) (answers : ℕ → ℕ → RequestedData) :
    initHostNodeRescaler hosts containers resources db answers =
      (rescalerRequests hosts containers resources db answers).map (List.map Prod.snd) := by
  have hturn : (fun turn => (turnRequest containers resources db answers turn).map
      (Option.map Prod.snd)) = fun turn : (Char × ℕ) × (RescaledContainer × ℕ) =>
        if String.singleton turn.1.1 ≠ turn.2.1.host then .ok none
        else visit resources db containers (answers turn.1.2 turn.2.2) turn.2.1 := by
    funext turn
    unfold turnRequest
    split_ifs
    · rfl
    · cases visit resources db containers (answers turn.1.2 turn.2.2) turn.2.1 with
      | error e => rfl
      | ok put => cases put <;> rfl
  unfold initHostNodeRescaler rescalerRequests
  rw [← hturn, mapM_map]
  cases (turns hosts containers).mapM (turnRequest containers resources db answers) with
  | error e => rfl
  | ok requests =>
    refine congrArg Except.ok ?_
    exact List.reduceOption_map

/-- A visit sends something exactly when the container needs it. -/
theorem visit_isSome {requested : RequestedData} {c : RescaledContainer} {put : Option RescalerPut}
    (h : visit resources db containers requested c = .ok put) :
    put.isSome = true ↔ NeedsInit resources requested c := by
  unfold visit at h
  simp only [bind_eq_ok] at h
  obtain ⟨cpu, -, mem, -, disks, -, h⟩ := h
  rw [pure_eq_ok] at h
  subst h
  unfold NeedsInit
  split_ifs with hpos <;> simp [hpos]

theorem requests_length {answers : ℕ → ℕ → RequestedData} (j : ℕ)
    {l : List ((Char × ℕ) × (RescaledContainer × ℕ))} {results : List (Option (ℕ × RescalerPut))}
    (h : List.Forall₂ (fun turn r => turnRequest containers resources db answers turn = .ok r) l results) :
    (results.reduceOption.filter fun r => r.1 = j).length =
      l.countP fun turn => turn.2.2 = j ∧ String.singleton turn.1.1 = turn.2.1.host ∧
        NeedsInit resources (answers turn.1.2 turn.2.2) turn.2.1 := by
  induction h with
  | nil => rfl
  | @cons turn r l results hturn _ ih =>
    rw [List.countP_cons, ← ih]
    unfold turnRequest at hturn
    split_ifs at hturn with hhost
    · cases hturn
      simp [hhost]
    · cases hv : visit resources db containers (answers turn.1.2 turn.2.2) turn.2.1 with
      | error e =>
        rw [hv] at hturn
        cases hturn
      | ok put =>
        rw [hv] at hturn
        cases hturn
        have hsome := visit_isSome hv
        rw [not_not] at hhost
        cases put with
        | none =>
          have hnot : ¬ (turn.2.2 = j ∧ String.singleton turn.1.1 = turn.2.1.host ∧
              NeedsInit resources (answers turn.1.2 turn.2.2) turn.2.1) :=
            fun hneeds => absurd (hsome.2 hneeds.2.2) (by decide)
          rw [Option.map_none, List.reduceOption_cons_of_none, if_neg (by simpa using hnot)]
          rfl
        | some put =>
          have hneeds := hsome.1 rfl
          rw [Option.map_some, List.reduceOption_cons_of_some, List.filter_cons]
          by_cases hj : turn.2.2 = j
          · rw [if_pos (decide_eq_true hj), if_pos (decide_eq_true ⟨hj, hhost, hneeds⟩),
              List.length_cons]
          · rw [if_neg (by simpa using hj), if_neg (by simp [hj]), Nat.add_zero]

/-- The visits at which the container needs it, by their numbers. -/
theorem countP_turns {hosts : String} (get : ℕ → ℕ → RequestedData) {j : ℕ} {c : RescaledContainer}
    (hc : containers[j]? = some c) :
    ((turns hosts containers).countP fun turn => turn.2.2 = j ∧
        String.singleton turn.1.1 = turn.2.1.host ∧
        NeedsInit resources (answersByVisit hosts get turn.1.2 turn.2.2) turn.2.1) =
      (List.range (visits hosts c.host)).countP fun k => NeedsInit resources (get k j) c := by
  have hinner (x : Char × ℕ) : (containers.zipIdx.map (Prod.mk x)).countP (fun turn => turn.2.2 = j ∧
        String.singleton turn.1.1 = turn.2.1.host ∧
        NeedsInit resources (answersByVisit hosts get turn.1.2 turn.2.2) turn.2.1) =
      if String.singleton x.1 = c.host ∧ NeedsInit resources (answersByVisit hosts get x.2 j) c
        then 1 else 0 := by
    rw [List.countP_map]
    exact countP_zipIdx_of_getElem? hc fun b i => String.singleton x.1 = b.host ∧
      NeedsInit resources (answersByVisit hosts get x.2 i) b
  have hvisit : ∀ x ∈ hosts.toList.zipIdx,
      (String.singleton x.1 = c.host ∧ NeedsInit resources (answersByVisit hosts get x.2 j) c ↔
        String.singleton x.1 = c.host ∧ NeedsInit resources (get ((hosts.toList.take x.2).countP
          fun ch => String.singleton ch = c.host) j) c) := by
    intro x hx
    refine and_congr_right fun hhost => ?_
    rw [answersByVisit_eq get j hx hhost]
  rw [turns, List.product, List.countP_flatMap, Function.comp_def,
    List.map_congr_left (fun x _ => hinner x), sum_map_one_ite]
  have htake := countP_zipIdx_take (fun ch => decide (String.singleton ch = c.host))
    (fun k => decide (NeedsInit resources (get k j) c)) hosts.toList
  refine (List.countP_congr fun x hx => ?_).trans htake
  rw [Bool.and_eq_true, decide_eq_true_eq, decide_eq_true_eq, decide_eq_true_eq]
  exact hvisit x hx

/-- **The requests for a container** are the visits at which it needs them. -/
theorem requests_of_container {hosts : String} {get : ℕ → ℕ → RequestedData}
    {requests : List (ℕ × RescalerPut)}
    (h : rescalerRequests hosts containers resources db (answersByVisit hosts get) = .ok requests)
    {j : ℕ} {c : RescaledContainer} (hc : containers[j]? = some c) :
    (requests.filter fun r => r.1 = j).length =
      (List.range (visits hosts c.host)).countP fun k => NeedsInit resources (get k j) c := by
  unfold rescalerRequests at h
  obtain ⟨results, hresults, h⟩ := bind_eq_ok.1 h
  rw [pure_eq_ok] at h
  rw [← h, requests_length j (mapM_eq_ok_iff.1 hresults), countP_turns get hc]

/-- A run returns exactly when no visit raises. -/
theorem rescalerRequests_returns_iff (hosts : String) (get : ℕ → ℕ → RequestedData) :
    (∃ requests, rescalerRequests hosts containers resources db (answersByVisit hosts get) =
        .ok requests) ↔
      ∀ j c, containers[j]? = some c → ∀ k < visits hosts c.host,
        ∃ put, visit resources db containers (get k j) c = .ok put := by
  have hvisits (j : ℕ) (c : RescaledContainer) :
      (∀ k < visits hosts c.host, ∃ put, visit resources db containers (get k j) c = .ok put) ↔
        ∀ x ∈ hosts.toList.zipIdx, String.singleton x.1 = c.host →
          ∃ put, visit resources db containers (answersByVisit hosts get x.2 j) c = .ok put := by
    have htake := forall_zipIdx_take (fun ch => decide (String.singleton ch = c.host))
      (fun k => ∃ put, visit resources db containers (get k j) c = .ok put) hosts.toList
    refine htake.symm.trans (forall₂_congr fun x hx => ?_)
    rw [decide_eq_true_eq]
    refine forall_congr' fun hhost => ?_
    rw [answersByVisit_eq get j hx hhost]
  constructor
  · rintro ⟨requests, h⟩ j c hc
    unfold rescalerRequests at h
    obtain ⟨results, hresults, -⟩ := bind_eq_ok.1 h
    rw [hvisits]
    intro x hx hhost
    have hmem : (x, (c, j)) ∈ turns hosts containers :=
      List.mem_product.2 ⟨hx, List.mem_zipIdx_iff_getElem?.2 hc⟩
    obtain ⟨r, -, hr⟩ := mem_of_mapM hresults hmem
    unfold turnRequest at hr
    rw [if_neg (not_not.2 hhost)] at hr
    cases hv : visit resources db containers (answersByVisit hosts get x.2 j) c with
    | ok put => exact ⟨put, rfl⟩
    | error e =>
      simp only [hv] at hr
      cases hr
  · intro h
    obtain ⟨results, hresults⟩ := mapM_ok (f := turnRequest containers resources db
        (answersByVisit hosts get)) (l := turns hosts containers) fun turn hturn => by
      obtain ⟨hx, hc⟩ := List.mem_product.1 hturn
      unfold turnRequest
      split_ifs with hhost
      · exact ⟨none, rfl⟩
      · obtain ⟨put, hput⟩ := (hvisits turn.2.2 turn.2.1).1
          (h turn.2.2 turn.2.1 (List.mem_zipIdx_iff_getElem?.1 hc)) turn.1 hx (not_not.1 hhost)
        rw [hput]
        exact ⟨_, rfl⟩
    refine ⟨results.reduceOption, ?_⟩
    unfold rescalerRequests
    rw [hresults]
    rfl

/-- A request comes from one of the visits. -/
theorem visit_of_mem {hosts : String} {get : ℕ → ℕ → RequestedData} {requests : List (ℕ × RescalerPut)}
    (h : rescalerRequests hosts containers resources db (answersByVisit hosts get) = .ok requests)
    {r : ℕ × RescalerPut} (hr : r ∈ requests) {c : RescaledContainer}
    (hc : containers[r.1]? = some c) :
    ∃ k < visits hosts c.host, visit resources db containers (get k r.1) c = .ok (some r.2) := by
  unfold rescalerRequests at h
  obtain ⟨results, hresults, h⟩ := bind_eq_ok.1 h
  rw [pure_eq_ok] at h
  subst h
  have hsome : some r ∈ results := List.reduceOption_mem_iff.1 hr
  obtain ⟨turn, hturn, hres⟩ := exists_of_mem_forall₂ (mapM_eq_ok_iff.1 hresults) hsome
  obtain ⟨hx, hcj⟩ := List.mem_product.1 hturn
  unfold turnRequest at hres
  split_ifs at hres with hhost
  · cases hres
  rw [not_not] at hhost
  cases hv : visit resources db containers (answersByVisit hosts get turn.1.2 turn.2.2) turn.2.1 with
  | error e =>
    rw [hv] at hres
    cases hres
  | ok put =>
    rw [hv] at hres
    cases put with
    | none => cases hres
    | some put =>
      cases hres
      have hcc : turn.2.1 = c := by
        have hget := List.mem_zipIdx_iff_getElem?.1 hcj
        rw [hc] at hget
        exact (Option.some.inj hget).symm
      subst hcc
      refine ⟨_, ?_, by rw [answersByVisit_eq get _ hx hhost] at hv; exact hv⟩
      exact (forall_zipIdx_take (fun ch => decide (String.singleton ch = turn.2.1.host))
        (fun k => k < visits hosts turn.2.1.host) hosts.toList).2 (fun k hk => hk) turn.1 hx
          (decide_eq_true hhost)

/-! ## Which containers are initialised -/

/-- The limits of a request, for what the node rescaler reports of the container. -/
structure CarriesLimits (containers : List RescaledContainer) (resources : List String)
    (db : StructuresDb) (requested : RequestedData) (c : RescaledContainer) (p : RescalerPut) : Prop where
  container : p.container = c
  cpu : "cpu" ∈ resources → requested.cpu_allowance_limit = -1 → p.put_field_data.cpu.isSome
  mem : "mem" ∈ resources → requested.mem_limit = -1 → p.put_field_data.mem.isSome
  new_cpu : c ∈ newContainers db containers →
    ∀ f ∈ p.put_field_data.cpu, f.cpu_allowance_limit = c.cpu_max
  new_mem : c ∈ newContainers db containers → ∀ m ∈ p.put_field_data.mem, m = c.mem_max

theorem cpuPart_limits {host_mapping : Option CoreMapping} {is_new not_initialized : Bool}
    {c : RescaledContainer} {cpu : Option (CpuField × CoreShares)}
    (h : cpuPart host_mapping is_new not_initialized c = .ok cpu) :
    (not_initialized = true → cpu.isSome) ∧
      (is_new = true → ∀ f ∈ cpu, f.1.cpu_allowance_limit = c.cpu_max) := by
  unfold cpuPart at h
  cases host_mapping with
  | none =>
    cases h
    refine ⟨fun _ => rfl, fun _ f hf => ?_⟩
    cases hf
    rfl
  | some core_mapping =>
    cases not_initialized with
    | false =>
      cases h
      exact ⟨fun h => (by cases h), fun _ f hf => by cases hf⟩
    | true =>
      cases is_new with
      | true =>
        obtain ⟨s, -, h⟩ := bind_eq_ok.1 h
        cases h
        refine ⟨fun _ => rfl, fun _ f hf => ?_⟩
        cases hf
        rfl
      | false =>
        obtain ⟨free, -, h⟩ := bind_eq_ok.1 h
        obtain ⟨stored, -, h⟩ := bind_eq_ok.1 h
        cases h
        exact ⟨fun _ => rfl, fun h => by cases h⟩

theorem limitPart_limits {is_new not_initialized : Bool} {container_name resource : String}
    {limit_max : ℤ} {stored : StructureInfo → Option StoredResource} {limit : Option ℤ}
    (h : limitPart db is_new not_initialized container_name resource limit_max stored = .ok limit) :
    (not_initialized = true → limit.isSome) ∧ (is_new = true → ∀ m ∈ limit, m = limit_max) := by
  unfold limitPart at h
  cases not_initialized with
  | false =>
    cases h
    exact ⟨fun h => (by cases h), fun _ f hf => by cases hf⟩
  | true =>
    cases is_new with
    | true =>
      cases h
      refine ⟨fun _ => rfl, fun _ m hm => ?_⟩
      cases hm
      rfl
    | false =>
      obtain ⟨info, -, h⟩ := bind_eq_ok.1 h
      cases hs : stored info with
      | none =>
        rw [hs] at h
        cases h
      | some r =>
        rw [hs] at h
        cases h
        exact ⟨fun _ => rfl, fun h => by cases h⟩

theorem visit_carries {requested : RequestedData} {c : RescaledContainer} {p : RescalerPut}
    (h : visit resources db containers requested c = .ok (some p)) :
    CarriesLimits containers resources db requested c p := by
  unfold visit at h
  simp only [bind_eq_ok] at h
  obtain ⟨cpu, hcpu, mem, hmem, disks, -, h⟩ := h
  rw [pure_eq_ok] at h
  split_ifs at h
  cases h
  have hnone {α : Type} {resource : String} {part : Py (Option α)} {x : Option α}
      (hx : resourcePart resources resource part = .ok x) :
      (resource ∈ resources ∧ part = .ok x) ∨ (resource ∉ resources ∧ x = none) := by
    unfold resourcePart at hx
    split_ifs at hx with hres
    · exact .inl ⟨hres, hx⟩
    · exact .inr ⟨hres, (Except.ok.inj hx).symm⟩
  refine ⟨rfl, fun hres hlimit => ?_, fun hres hlimit => ?_, fun hnew f hf => ?_, fun hnew m hm => ?_⟩
  · rcases hnone hcpu with ⟨-, hpart⟩ | ⟨hnot, -⟩
    · rw [Option.isSome_map]
      exact (cpuPart_limits hpart).1 (decide_eq_true hlimit)
    · exact absurd hres hnot
  · rcases hnone hmem with ⟨-, hpart⟩ | ⟨hnot, -⟩
    · exact (limitPart_limits hpart).1 (decide_eq_true hlimit)
    · exact absurd hres hnot
  · rcases hnone hcpu with ⟨-, hpart⟩ | ⟨-, rfl⟩
    · obtain ⟨x, hx, rfl⟩ := Option.map_eq_some_iff.1 hf
      exact (cpuPart_limits hpart).2 (decide_eq_true hnew) x hx
    · cases hf
  · rcases hnone hmem with ⟨-, hpart⟩ | ⟨-, rfl⟩
    · exact (limitPart_limits hpart).2 (decide_eq_true hnew) m hm
    · cases hm

/-- Exactly the containers of the listed hosts that are reported as not initialised get a
    request, and get one. -/
def InitialisesEach (hosts : List String) (containers : List RescaledContainer)
    (resources : List String) (db : StructuresDb) (get : ℕ → ℕ → RequestedData) : Prop :=
  ∃ requests, rescalerRequests (joinedNodes hosts) containers resources db
      (answersByVisit (joinedNodes hosts) get) = .ok requests ∧
    ∀ j c, containers[j]? = some c →
      (requests.filter fun r => r.1 = j).length =
        (if c.host ∈ hosts ∧ NeedsInit resources (get 0 j) c then 1 else 0) ∧
      ∀ r ∈ requests, r.1 = j → CarriesLimits containers resources db (get 0 j) c r.2

theorem length_of_visits_pos {hosts host : String} (h : 0 < visits hosts host) : host.length = 1 := by
  obtain ⟨ch, -, hch⟩ := List.countP_pos_iff.1 h
  rw [← of_decide_eq_true hch]
  exact String.length_singleton

theorem mem_intercalate {α : Type} {sep : List α} {ls : List (List α)} {l : List α} {a : α}
    (hl : l ∈ ls) (ha : a ∈ l) : a ∈ sep.intercalate ls := by
  induction ls with
  | nil => cases hl
  | cons l' ls ih =>
    cases ls with
    | nil =>
      rw [List.mem_singleton.1 hl] at ha
      rwa [List.intercalate_singleton]
    | cons l'' ls =>
      rw [List.intercalate_cons_cons, List.append_assoc, List.mem_append, List.mem_append]
      rcases List.mem_cons.1 hl with rfl | hl
      · exact .inl ha
      · exact .inr (.inr (ih hl))

/-- The name of a listed host is met if it is a character. -/
theorem visits_pos {hosts : List String} {host : String} (hmem : host ∈ hosts)
    (hlength : host.length = 1) : 0 < visits (joinedNodes hosts) host := by
  rw [← String.length_toList] at hlength
  obtain ⟨ch, hch⟩ := List.length_eq_one_iff.1 hlength
  refine List.countP_pos_iff.2 ⟨ch, ?_, decide_eq_true ?_⟩
  · rw [joinedNodes, String.toList_intercalate]
    exact mem_intercalate (List.mem_map.2 ⟨host, hmem, hch⟩) (List.mem_singleton_self ch)
  · rw [← String.toList_inj, String.toList_singleton, hch]

theorem countP_range_eq_ite (n : ℕ) (p : ℕ → Prop) [DecidablePred p] (q : Prop) [Decidable q] :
    ((List.range n).countP fun k => p k) = (if q ∧ p 0 then 1 else 0) ↔
      (q → p 0 → 0 < n) ∧ ∀ k < n, p k → k = 0 ∧ q := by
  have hzero (m : ℕ) : ((List.range m).countP fun k => p (k + 1)) = 0 ↔ ∀ k < m, ¬ p (k + 1) := by
    rw [List.countP_eq_zero]
    simp
  cases n with
  | zero =>
    by_cases hq : q ∧ p 0
    · simp [hq]
    · simp only [List.range_zero, List.countP_nil, if_neg hq, true_iff]
      exact ⟨fun h h' => absurd ⟨h, h'⟩ hq, fun k hk => absurd hk k.not_lt_zero⟩
  | succ n =>
    rw [List.range_succ_eq_map, List.countP_cons, List.countP_map]
    have hlater := hzero n
    simp only [Function.comp_def, decide_eq_true_eq, Nat.succ_eq_add_one] at hlater ⊢
    constructor
    · intro h
      refine ⟨fun _ _ => n.succ_pos, fun k hk hpk => ?_⟩
      cases k with
      | zero =>
        by_contra hnot
        rw [if_pos hpk, if_neg fun hq => hnot ⟨rfl, hq.1⟩] at h
        exact absurd h (Nat.succ_ne_zero _)
      | succ k =>
        -- a later visit would be a second one, or one too many
        have hpos : ¬ (List.range n).countP (fun k => p (k + 1)) = 0 := by
          rw [hlater]
          exact fun hnot => hnot k (Nat.lt_of_succ_lt_succ hk) hpk
        have hle : (if q ∧ p 0 then 1 else 0) ≤ if p 0 then 1 else 0 := by
          by_cases hp : p 0
          · simp only [hp, and_true, if_true]
            split_ifs <;> omega
          · simp [hp]
        omega
    · rintro ⟨-, h⟩
      rw [hlater.2 fun k hk hpk => absurd (h (k + 1) (Nat.succ_lt_succ hk) hpk).1 k.succ_ne_zero]
      by_cases hp : p 0
      · rw [if_pos hp, if_pos ⟨(h 0 n.succ_pos hp).2, hp⟩]
      · rw [if_neg hp, if_neg fun hq => hp hq.2]

/-- **Which containers are initialised.**  Exactly those of the listed hosts that are
    reported as not initialised, once each, iff no visit raises, the hosts of these
    containers have names of one character, and no visit but the first one to a container
    of a listed host finds it not initialised. -/
theorem initialisesEach_iff (hosts : List String) (containers : List RescaledContainer)
    (resources : List String) (db : StructuresDb) (get : ℕ → ℕ → RequestedData) :
    InitialisesEach hosts containers resources db get ↔
      ∀ j c, containers[j]? = some c →
        (∀ k < visits (joinedNodes hosts) c.host,
          ∃ put, visit resources db containers (get k j) c = .ok put) ∧
        (c.host ∈ hosts → NeedsInit resources (get 0 j) c → c.host.length = 1) ∧
        ∀ k < visits (joinedNodes hosts) c.host, NeedsInit resources (get k j) c →
          k = 0 ∧ c.host ∈ hosts := by
  have hcount (c : RescaledContainer) (j : ℕ) :=
    countP_range_eq_ite (visits (joinedNodes hosts) c.host)
      (fun k => NeedsInit resources (get k j) c) (c.host ∈ hosts)
  constructor
  · rintro ⟨requests, hrequests, hall⟩ j c hc
    refine ⟨(rescalerRequests_returns_iff _ get).1 ⟨requests, hrequests⟩ j c hc, ?_⟩
    have hlength := (hall j c hc).1
    rw [requests_of_container hrequests hc, hcount] at hlength
    exact ⟨fun hmem hneeds => length_of_visits_pos (hlength.1 hmem hneeds), hlength.2⟩
  · intro h
    obtain ⟨requests, hrequests⟩ := (rescalerRequests_returns_iff (joinedNodes hosts) get).2
      fun j c hc => (h j c hc).1
    refine ⟨requests, hrequests, fun j c hc => ⟨?_, fun r hr hj => ?_⟩⟩
    · rw [requests_of_container hrequests hc, hcount]
      exact ⟨fun hmem hneeds => visits_pos hmem ((h j c hc).2.1 hmem hneeds), (h j c hc).2.2⟩
    · subst hj
      obtain ⟨k, hk, hvisit⟩ := visit_of_mem hrequests hr hc
      have hzero := ((h r.1 c hc).2.2 k hk ((visit_isSome hvisit).1 rfl)).1
      rw [hzero] at hvisit
      exact visit_carries hvisit

end

/-- A new container of `host0` gets no request when the script is called for `host0`. -/
theorem host0_never_initialised :
    ¬ ∀ (hosts : List String) (containers : List RescaledContainer) (resources : List String)
      (db : StructuresDb) (get : ℕ → ℕ → RequestedData), hosts ≠ [] →
        InitialisesEach hosts containers resources db get := by
  intro h
  obtain ⟨requests, hrequests, hall⟩ := h ["host0"] [⟨"host0-cont0", "host0", 100, 1024, none⟩]
    ["cpu", "mem"] none (fun _ _ => notInitialized) (List.cons_ne_nil _ _)
  have hlength := (hall 0 _ rfl).1
  rw [requests_of_container hrequests rfl] at hlength
  exact absurd hlength (by decide +kernel)

end ServerlessYarn
