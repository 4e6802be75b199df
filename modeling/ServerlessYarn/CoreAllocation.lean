/-
  ServerlessYARN model — the allocation of cores to a new container
  (`scripts/hosts/init_host_node_rescaler.py`).

  The loop goes through the cores of a host in order.  Beside the mapping it keeps the
  free shares of the current core, and takes whole cores as long as a whole core is
  left to allocate.

  * `takeShare_shared`: one assignment;
  * `allocateLoop_shared`: the loop fills the container's limit into the cores;
  * `allocateCores_exact`: what the allocation does to the mapping.
-/
import ServerlessYarn.Lib.Filling
import ServerlessYarn.Resources

namespace ServerlessYarn

open Finset Filling

/-! ## Data -/

/-- `core_usage_mapping`: for every core its free shares and those of each container. -/
abbrev CoreMapping := Dict String (Dict String ℤ)

/-- The shares under a name on a core, if there is an entry. -/
def coreEntry (core_mapping : CoreMapping) (core : ℕ) (name : String) : Option ℤ :=
  (core_mapping.get? (toString core)).bind (·.get? name)

/-- The shares of a container on a core, none without an entry. -/
def coreShare (core_mapping : CoreMapping) (core : ℕ) (container_name : String) : ℤ :=
  (coreEntry core_mapping core container_name).getD 0

/-- The free shares of a core. -/
def freeShares (core_mapping : CoreMapping) (core : ℕ) : ℤ := coreShare core_mapping core "free"

/-- The cores are numbered from 0, and each has between 0 and 100 free shares. -/
structure NumberedCores (core_mapping : CoreMapping) (m : ℕ) : Prop where
  keys : ∀ k, k ∈ core_mapping.keys ↔ ∃ i < m, k = toString i
  free : ∀ i < m, ∃ x, coreEntry core_mapping i "free" = some x ∧ 0 ≤ x ∧ x ≤ 100

/-! ## The loop -/

/-- The variables of the loop. -/
structure CoreAllocation where
  core_mapping : CoreMapping
  current_core : ℕ
  current_free : ℤ
  to_allocate : ℤ
  cpu_core_list : List ℕ

/-- `core_mapping[str(core)][container_name] = share`, taken from `free`. -/
def takeShare (core_mapping : CoreMapping) (core : ℕ) (container_name : String) (share : ℤ) :
    Py CoreMapping := do
  let usage ← getItem core_mapping (toString core)
  let usage := usage.set container_name share
  let free ← getItem usage "free"
  return core_mapping.set (toString core) (usage.set "free" (free - share))

/-- `core_mapping[str(core)]['free']` -/
def readFree (core_mapping : CoreMapping) (core : ℕ) : Py ℤ := do
  let usage ← getItem core_mapping (toString core)
  getItem usage "free"

/-- `current_free` after a switch to the next core, which may not exist. -/
def nextFree (number_of_cores : ℕ) (core_mapping : CoreMapping) (core : ℕ) (current_free : ℤ) : Py ℤ :=
  if core < number_of_cores then readFree core_mapping core else .ok current_free

/-- The current core goes to `cpu_core_list` if it has free shares. -/
def CoreAllocation.noteCore (s : CoreAllocation) : List ℕ :=
  if 0 < s.current_free then s.cpu_core_list ++ [s.current_core] else s.cpu_core_list

/-- The body of the loop. -/
def allocateStep (number_of_cores : ℕ) (container_name : String) (s : CoreAllocation) :
    Py CoreAllocation :=
  if 100 ≤ s.to_allocate then do
    let core_mapping ← takeShare s.core_mapping s.current_core container_name s.current_free
    let current_free ← nextFree number_of_cores core_mapping (s.current_core + 1) s.current_free
    return { core_mapping
             current_core := s.current_core + 1
             current_free
             to_allocate := s.to_allocate - s.current_free
             cpu_core_list := s.noteCore }
  else do
    let min_usage := min s.current_free s.to_allocate
    let core_mapping ← takeShare s.core_mapping s.current_core container_name min_usage
    if min_usage = s.to_allocate then
      -- we continue in current core
      return { core_mapping
               current_core := s.current_core
               current_free := s.current_free - s.to_allocate
               to_allocate := 0
               cpu_core_list := s.noteCore }
    else
      -- we switch to next core
      let current_free ← nextFree number_of_cores core_mapping (s.current_core + 1) s.current_free
      return { core_mapping
               current_core := s.current_core + 1
               current_free
               to_allocate := s.to_allocate - s.current_free
               cpu_core_list := s.noteCore }

/-- What decreases: the cores ahead, and then whether there is anything to allocate. -/
def CoreAllocation.ahead (number_of_cores : ℕ) (s : CoreAllocation) : ℕ :=
  2 * (number_of_cores - s.current_core) + if 0 < s.to_allocate then 1 else 0

theorem ahead_lt_of_next {number_of_cores : ℕ} {s s' : CoreAllocation}
    (hcore : s.current_core < number_of_cores) (hnext : s'.current_core = s.current_core + 1) :
    s'.ahead number_of_cores < s.ahead number_of_cores := by
  rw [CoreAllocation.ahead, CoreAllocation.ahead, hnext]
  split_ifs <;> omega

/-- Every turn goes on to the next core or ends the allocation. -/
theorem allocateStep_ahead {number_of_cores : ℕ} {container_name : String} {s s' : CoreAllocation}
    (hguard : 0 < s.to_allocate ∧ s.current_core < number_of_cores)
    (h : allocateStep number_of_cores container_name s = .ok s') :
    s'.ahead number_of_cores < s.ahead number_of_cores := by
  rw [allocateStep] at h
  split_ifs at h
  · simp only [bind_eq_ok, pure_eq_ok] at h
    obtain ⟨mapping, -, free, -, rfl⟩ := h
    exact ahead_lt_of_next hguard.2 rfl
  · obtain ⟨mapping, -, h⟩ := bind_eq_ok.1 h
    split_ifs at h
    · rw [pure_eq_ok] at h
      subst h
      rw [CoreAllocation.ahead, CoreAllocation.ahead, if_pos hguard.1, if_neg (lt_irrefl 0)]
      exact Nat.lt_succ_self _
    · simp only [bind_eq_ok, pure_eq_ok] at h
      obtain ⟨free, -, rfl⟩ := h
      exact ahead_lt_of_next hguard.2 rfl

/-- `while (to_allocate > 0 and current_core < number_of_cores)` -/
def allocateLoop (number_of_cores : ℕ) (container_name : String) (s : CoreAllocation) :
    Py CoreAllocation :=
  if _hguard : 0 < s.to_allocate ∧ s.current_core < number_of_cores then
    match _h : allocateStep number_of_cores container_name s with
    | .error e => .error e
    | .ok s' => allocateLoop number_of_cores container_name s'
  else .ok s
termination_by s.ahead number_of_cores
decreasing_by exact allocateStep_ahead _hguard _h

/-- The allocation for a new container: the mapping and `cpu_core_list` afterwards. -/
def allocateCores (core_mapping : CoreMapping) (container_name : String) (cpu_max : ℤ) :
    Py (CoreMapping × List ℕ) := do
  let number_of_cores := core_mapping.entries.length
  let current_free ← readFree core_mapping 0
  let s ← allocateLoop number_of_cores container_name ⟨core_mapping, 0, current_free, cpu_max, []⟩
  return (s.core_mapping, s.cpu_core_list)

theorem allocateLoop_done {n : ℕ} {container_name : String} {s : CoreAllocation}
    (h : ¬ (0 < s.to_allocate ∧ s.current_core < n)) : allocateLoop n container_name s = .ok s := by
  rw [allocateLoop, dif_neg h]

theorem allocateLoop_turn {n : ℕ} {container_name : String} {s s' : CoreAllocation}
    (hguard : 0 < s.to_allocate ∧ s.current_core < n)
    (h : allocateStep n container_name s = .ok s') :
    allocateLoop n container_name s = allocateLoop n container_name s' := by
  rw [allocateLoop, dif_pos hguard]
  split
  · next e he =>
    rw [h] at he
    cases he
  · next s₁ hs₁ =>
    rw [h] at hs₁
    cases hs₁
    rfl

/-! ## One assignment -/

theorem toString_injective : Function.Injective fun i : ℕ => toString i := by
  intro i j h
  have hread := congrArg (fun s : String => pyInt s.toList) h
  have hdigits : ∀ n : ℕ, pyInt (toString n).toList = .ok n := by
    intro n
    rw [show toString n = n.repr from rfl, Nat.toList_repr, pyInt_toDigits]
  simp only [hdigits] at hread
  exact Except.ok.inj hread

section
variable {base core_mapping : CoreMapping} {m : ℕ} {container_name : String} {f g : ℕ → ℤ}

/-- The mapping is the first one with the container's shares taken from the free ones. -/
structure Shared (base : CoreMapping) (m : ℕ) (container_name : String) (f g : ℕ → ℤ)
    (core_mapping : CoreMapping) : Prop where
  free : ∀ i < m, coreEntry core_mapping i "free" = some (f i - g i)
  share : ∀ i < m, coreShare core_mapping i container_name = g i
  others : ∀ i < m, ∀ name, name ≠ container_name → name ≠ "free" →
    coreEntry core_mapping i name = coreEntry base i name

theorem coreEntry_eq_some {i : ℕ} {name : String} {x : ℤ} :
    coreEntry core_mapping i name = some x ↔
      ∃ usage, core_mapping.get? (toString i) = some usage ∧ usage.get? name = some x :=
  Option.bind_eq_some_iff

theorem readFree_eq_ok {i : ℕ} {x : ℤ} (h : coreEntry core_mapping i "free" = some x) :
    readFree core_mapping i = .ok x := by
  obtain ⟨usage, husage, hx⟩ := coreEntry_eq_some.1 h
  exact bind_eq_ok.2 ⟨usage, getItem_eq_ok.2 husage, getItem_eq_ok.2 hx⟩

/-- **One assignment** adds the container's shares on one core. -/
theorem takeShare_shared (hname : container_name ≠ "free") (h : Shared base m container_name f g core_mapping)
    {k : ℕ} (hk : k < m) (hzero : g k = 0) (v : ℤ) :
    ∃ core_mapping', takeShare core_mapping k container_name v = .ok core_mapping' ∧
      Shared base m container_name f (Function.update g k v) core_mapping' := by
  have hfree := h.free k hk
  rw [hzero, sub_zero] at hfree
  obtain ⟨usage, husage, hx⟩ := coreEntry_eq_some.1 hfree
  have hfree' : (usage.set container_name v).get? "free" = some (f k) := by
    rw [Dict.get?_set_of_ne _ _ hname.symm, hx]
  refine ⟨core_mapping.set (toString k) ((usage.set container_name v).set "free" (f k - v)), ?_, ?_⟩
  · simp only [takeShare, bind_eq_ok, pure_eq_ok, getItem_eq_ok]
    exact ⟨usage, husage, f k, hfree', rfl⟩
  · have hsame : ∀ name, coreEntry (core_mapping.set (toString k)
        ((usage.set container_name v).set "free" (f k - v))) k name =
        ((usage.set container_name v).set "free" (f k - v)).get? name := by
      intro name
      rw [coreEntry, Dict.get?_set_self]
      rfl
    have hother : ∀ i, i ≠ k → ∀ name, coreEntry (core_mapping.set (toString k)
        ((usage.set container_name v).set "free" (f k - v))) i name =
        coreEntry core_mapping i name := by
      intro i hik name
      rw [coreEntry, Dict.get?_set_of_ne _ _ fun heq => hik (toString_injective heq)]
      rfl
    constructor
    · intro i hi
      by_cases hik : i = k
      · rw [hik, hsame, Dict.get?_set_self, Function.update_self]
      · rw [hother i hik, h.free i hi, Function.update_of_ne hik]
    · intro i hi
      by_cases hik : i = k
      · rw [hik, coreShare, hsame, Dict.get?_set_of_ne _ _ hname, Dict.get?_set_self,
          Function.update_self]
        rfl
      · rw [coreShare, hother i hik, Function.update_of_ne hik]
        exact h.share i hi
    · intro i hi name hne hnf
      by_cases hik : i = k
      · rw [hik, hsame, Dict.get?_set_of_ne _ _ hnf, Dict.get?_set_of_ne _ _ hne,
          ← h.others k hk name hne hnf, coreEntry, husage]
        rfl
      · rw [hother i hik, h.others i hi name hne hnf]

/-! ## The loop fills the cores -/

/-- What the container has of the cores when the loop has come to core `k`. -/
def takenBefore (f : ℕ → ℤ) (k i : ℕ) : ℤ := if i < k then f i else 0

theorem Shared.congr (h : Shared base m container_name f g core_mapping) {g' : ℕ → ℤ}
    (hg : ∀ i < m, g i = g' i) : Shared base m container_name f g' core_mapping := by
  constructor
  · intro i hi
    rw [h.free i hi, hg i hi]
  · intro i hi
    rw [h.share i hi, hg i hi]
  · exact h.others

/-- The invariant of the loop: the cores before the current one are taken whole. -/
structure AllocatesTo (base : CoreMapping) (m : ℕ) (container_name : String) (f : ℕ → ℤ) (a : ℤ)
    (s : CoreAllocation) : Prop where
  le : s.current_core ≤ m
  shared : Shared base m container_name f (takenBefore f s.current_core) s.core_mapping
  current_free : s.current_core < m → s.current_free = f s.current_core
  to_allocate : s.to_allocate = a - ∑ i ∈ range s.current_core, f i
  nonneg : 0 ≤ s.to_allocate
  list : s.cpu_core_list = (List.range s.current_core).filter fun i => 0 < f i

/-- The end of the allocation: the container's limit is filled into the cores. -/
structure Allocated (base : CoreMapping) (m : ℕ) (container_name : String) (f : ℕ → ℤ) (a : ℤ)
    (s : CoreAllocation) : Prop where
  shared : Shared base m container_name f (filled f a) s.core_mapping
  list : s.cpu_core_list = (List.range m).filter fun i => 0 < filled f a i

theorem filter_range_eq {p q : ℕ → Prop} [DecidablePred p] [DecidablePred q] {k : ℕ} (hk : k ≤ m)
    (hpq : ∀ i < k, p i ↔ q i) (hq : ∀ i, k ≤ i → i < m → ¬ q i) :
    ((List.range k).filter fun i => p i) = (List.range m).filter fun i => q i := by
  obtain ⟨d, rfl⟩ := Nat.exists_eq_add_of_le hk
  rw [List.range_add, List.filter_append]
  have hbelow : ((List.range k).filter fun i => p i) = (List.range k).filter fun i => q i :=
    List.filter_congr fun i hi => decide_eq_decide.2 (hpq i (List.mem_range.1 hi))
  have habove : (((List.range d).map (k + ·)).filter fun i => q i) = [] := by
    refine List.filter_eq_nil_iff.2 fun i hi => ?_
    obtain ⟨j, hj, rfl⟩ := List.mem_map.1 hi
    rw [decide_eq_true_eq]
    exact hq (k + j) (Nat.le_add_right k j) (Nat.add_lt_add_left (List.mem_range.1 hj) k)
  rw [hbelow, habove, List.append_nil]

/-- When nothing is left to allocate, or no core, the limit is filled in. -/
theorem AllocatesTo.done {a : ℤ} {s : CoreAllocation} (hf : ∀ i, 0 ≤ f i)
    (h : AllocatesTo base m container_name f a s)
    (hdone : ¬ (0 < s.to_allocate ∧ s.current_core < m)) :
    Allocated base m container_name f a s := by
  have hnonneg := h.nonneg
  rw [h.to_allocate] at hnonneg
  have hbelow : ∀ i < s.current_core, filled f a i = f i := by
    intro i hi
    refine filled_full (hf i) ?_
    have := sum_range_mono hf (show i + 1 ≤ s.current_core from hi)
    omega
  have habove : ∀ i, s.current_core ≤ i → i < m → filled f a i = 0 := by
    intro i hki hi
    have hnone : ¬ 0 < s.to_allocate := fun hpos => hdone ⟨hpos, hki.trans_lt hi⟩
    rw [h.to_allocate] at hnone
    refine filled_empty ?_
    have := sum_range_mono hf hki
    omega
  constructor
  · refine h.shared.congr fun i hi => ?_
    rw [takenBefore]
    split_ifs with hik
    · exact (hbelow i hik).symm
    · exact (habove i (not_lt.1 hik) hi).symm
  · rw [h.list]
    refine filter_range_eq h.le (fun i hi => ?_) fun i hki hi => ?_
    · rw [hbelow i hi]
    · rw [habove i hki hi]
      exact lt_irrefl 0

theorem noteCore_eq {a : ℤ} {s : CoreAllocation} (h : AllocatesTo base m container_name f a s)
    (hcore : s.current_core < m) :
    s.noteCore = (List.range (s.current_core + 1)).filter fun i => 0 < f i := by
  rw [CoreAllocation.noteCore, h.current_free hcore, List.range_succ, List.filter_append, ← h.list]
  split_ifs with hpos
  · rw [List.filter_cons_of_pos (by simpa using hpos), List.filter_nil]
  · rw [List.filter_cons_of_neg (by simpa using hpos), List.filter_nil, List.append_nil]

/-- A core taken whole: the invariant holds at the next one. -/
theorem AllocatesTo.next {a : ℤ} {s : CoreAllocation} (hname : container_name ≠ "free")
    (h : AllocatesTo base m container_name f a s) (hcore : s.current_core < m)
    (hle : f s.current_core ≤ s.to_allocate) :
    ∃ mapping free, takeShare s.core_mapping s.current_core container_name (f s.current_core) =
        .ok mapping ∧ nextFree m mapping (s.current_core + 1) s.current_free = .ok free ∧
      AllocatesTo base m container_name f a
        ⟨mapping, s.current_core + 1, free, s.to_allocate - f s.current_core, s.noteCore⟩ := by
  have hzero : takenBefore f s.current_core s.current_core = 0 := if_neg (lt_irrefl _)
  obtain ⟨mapping, hmapping, hshared⟩ := takeShare_shared hname h.shared hcore hzero (f s.current_core)
  have htaken : ∀ i < m, Function.update (takenBefore f s.current_core) s.current_core
      (f s.current_core) i = takenBefore f (s.current_core + 1) i := by
    intro i _
    simp only [Function.update_apply, takenBefore]
    split_ifs with h₁ h₂ h₃ h₄ h₅
    · rw [h₁]
    · omega
    · rfl
    · omega
    · omega
    · rfl
  have hshared' := hshared.congr htaken
  have hnonneg := h.nonneg
  by_cases hnext : s.current_core + 1 < m
  · have hentry := hshared'.free (s.current_core + 1) hnext
    rw [takenBefore, if_neg (lt_irrefl _), sub_zero] at hentry
    refine ⟨mapping, f (s.current_core + 1), hmapping, ?_, ?_⟩
    · rw [nextFree, if_pos hnext, readFree_eq_ok hentry]
    · refine ⟨hcore, hshared', fun _ => rfl, ?_, by simp only; omega, noteCore_eq h hcore⟩
      simp only [sum_range_succ, h.to_allocate]
      ring
  · refine ⟨mapping, s.current_free, hmapping, if_neg hnext, ?_⟩
    refine ⟨hcore, hshared', fun hlt => absurd hlt hnext, ?_, by simp only; omega, noteCore_eq h hcore⟩
    simp only [sum_range_succ, h.to_allocate]
    ring

/-- The core in which the limit ends. -/
theorem AllocatesTo.last {a : ℤ} {s : CoreAllocation} (hf : ∀ i, 0 ≤ f i)
    (hname : container_name ≠ "free") (h : AllocatesTo base m container_name f a s)
    (hcore : s.current_core < m) (hpos : 0 < s.to_allocate) (hle : s.to_allocate ≤ f s.current_core) :
    ∃ mapping, takeShare s.core_mapping s.current_core container_name s.to_allocate = .ok mapping ∧
      ∀ free, Allocated base m container_name f a ⟨mapping, s.current_core, free, 0, s.noteCore⟩ := by
  have hzero : takenBefore f s.current_core s.current_core = 0 := if_neg (lt_irrefl _)
  obtain ⟨mapping, hmapping, hshared⟩ := takeShare_shared hname h.shared hcore hzero s.to_allocate
  have hto := h.to_allocate
  have hsucc : ∑ i ∈ range (s.current_core + 1), f i =
      ∑ i ∈ range s.current_core, f i + f s.current_core := sum_range_succ _ _
  have hlast : filled f a s.current_core = s.to_allocate := by
    rw [filled_last (by omega) (by omega), hto]
  have hbelow : ∀ i < s.current_core, filled f a i = f i := by
    intro i hi
    refine filled_full (hf i) ?_
    have := sum_range_mono hf (show i + 1 ≤ s.current_core from hi)
    omega
  have habove : ∀ i, s.current_core + 1 ≤ i → filled f a i = 0 := by
    intro i hi
    refine filled_empty ?_
    have := sum_range_mono hf hi
    omega
  refine ⟨mapping, hmapping, fun free => ⟨hshared.congr fun i _ => ?_, ?_⟩⟩
  · simp only [Function.update_apply, takenBefore]
    split_ifs with h₁ h₂
    · rw [h₁, hlast]
    · exact (hbelow i h₂).symm
    · exact (habove i (by omega)).symm
  · show s.noteCore = _
    rw [noteCore_eq h hcore]
    refine filter_range_eq hcore (fun i hi => ?_) fun i hki _ => ?_
    · rcases Nat.lt_succ_iff_lt_or_eq.1 hi with hlt | rfl
      · rw [hbelow i hlt]
      · rw [hlast]
        exact iff_of_true (hpos.trans_le hle) hpos
    · rw [habove i hki]
      exact lt_irrefl 0

/-- **The loop fills the container's limit into the cores.** -/
theorem allocateLoop_shared {a : ℤ} (hf : ∀ i, 0 ≤ f i) (hf' : ∀ i, f i ≤ 100)
    (hname : container_name ≠ "free") {d : ℕ} : ∀ {s : CoreAllocation}, m - s.current_core = d →
    AllocatesTo base m container_name f a s →
    ∃ s', allocateLoop m container_name s = .ok s' ∧ Allocated base m container_name f a s' := by
  induction d with
  | zero =>
    intro s hd h
    have hdone : ¬ (0 < s.to_allocate ∧ s.current_core < m) := by
      rintro ⟨-, hlt⟩
      omega
    exact ⟨s, allocateLoop_done hdone, h.done hf hdone⟩
  | succ d ih =>
    intro s hd h
    by_cases hguard : 0 < s.to_allocate ∧ s.current_core < m
    · have hcore := hguard.2
      have hcurrent := h.current_free hcore
      have hfull := hf' s.current_core
      by_cases hlast : s.to_allocate < 100 ∧ s.to_allocate ≤ f s.current_core
      · -- the rest fits in the current core
        obtain ⟨mapping, hmapping, hallocated⟩ := h.last hf hname hcore hguard.1 hlast.2
        have hmin : min s.current_free s.to_allocate = s.to_allocate := by
          rw [hcurrent, min_eq_right hlast.2]
        have hstep : allocateStep m container_name s = .ok ⟨mapping, s.current_core,
            s.current_free - s.to_allocate, 0, s.noteCore⟩ := by
          rw [allocateStep, if_neg (by omega)]
          simp only [hmin, hmapping, bind, Except.bind, if_true]
          rfl
        refine ⟨_, ?_, hallocated (s.current_free - s.to_allocate)⟩
        rw [allocateLoop_turn hguard hstep]
        exact allocateLoop_done fun h' => lt_irrefl 0 h'.1
      · -- the core is taken whole
        have hle : f s.current_core ≤ s.to_allocate := by omega
        obtain ⟨mapping, free, hmapping, hfree, hnext⟩ := h.next hname hcore hle
        have hstep : allocateStep m container_name s = .ok ⟨mapping, s.current_core + 1, free,
            s.to_allocate - f s.current_core, s.noteCore⟩ := by
          rw [allocateStep]
          split_ifs with hwhole
          · simp only [hcurrent, hmapping, bind, Except.bind] at hfree ⊢
            rw [hfree]
            rfl
          · have hmin : min s.current_free s.to_allocate = f s.current_core := by
              rw [hcurrent, min_eq_left hle]
            have hne : f s.current_core ≠ s.to_allocate := by omega
            simp only [hmin, hmapping, bind, Except.bind, if_neg hne, hfree]
            rw [hcurrent]
            rfl
        rw [allocateLoop_turn hguard hstep]
        exact ih (by simp only; omega) hnext
    · exact ⟨s, allocateLoop_done hguard, h.done hf hguard⟩

/-! ## The allocation -/

theorem NumberedCores.length (h : NumberedCores core_mapping m) : core_mapping.entries.length = m := by
  have hperm : core_mapping.keys.Perm ((List.range m).map fun i : ℕ => toString i) := by
    refine (List.perm_ext_iff_of_nodup core_mapping.nodup_keys
      (List.nodup_range.map toString_injective)).2 fun k => ?_
    rw [h.keys, List.mem_map]
    constructor
    · rintro ⟨i, hi, rfl⟩
      exact ⟨i, List.mem_range.2 hi, rfl⟩
    · rintro ⟨i, hi, rfl⟩
      exact ⟨i, List.mem_range.1 hi, rfl⟩
  have hlength := hperm.length_eq
  rwa [Dict.keys, List.length_map, List.length_map, List.length_range] at hlength

/-- The free shares of a core that exists. -/
theorem NumberedCores.freeShares_eq (h : NumberedCores core_mapping m) {i : ℕ} (hi : i < m) :
    coreEntry core_mapping i "free" = some (freeShares core_mapping i) := by
  obtain ⟨x, hx, -⟩ := h.free i hi
  rw [freeShares, coreShare, hx]
  rfl

theorem NumberedCores.freeShares_bounds (h : NumberedCores core_mapping m) (i : ℕ) :
    0 ≤ freeShares core_mapping i ∧ freeShares core_mapping i ≤ 100 := by
  by_cases hi : i < m
  · obtain ⟨x, hx, h0, h100⟩ := h.free i hi
    rw [freeShares, coreShare, hx]
    exact ⟨h0, h100⟩
  · have hnone : core_mapping.get? (toString i) = none := by
      rw [Dict.get?_eq_none_iff, h.keys]
      rintro ⟨j, hj, heq⟩
      exact hi (toString_injective heq ▸ hj)
    rw [freeShares, coreShare, coreEntry, hnone]
    exact ⟨le_rfl, by norm_num⟩

/-- **The allocation** fills the container's limit into the free shares. -/
theorem allocateCores_allocated (hm : 1 ≤ m) (h : NumberedCores core_mapping m)
    (hnew : ∀ i < m, coreEntry core_mapping i container_name = none) {cpu_max : ℤ}
    (hcpu : 0 ≤ cpu_max) :
    ∃ s : CoreAllocation, allocateCores core_mapping container_name cpu_max =
        .ok (s.core_mapping, s.cpu_core_list) ∧
      Allocated core_mapping m container_name (freeShares core_mapping) cpu_max s := by
  have hname : container_name ≠ "free" := by
    rintro rfl
    have hfree := h.freeShares_eq hm
    rw [hnew 0 hm] at hfree
    cases hfree
  have hstart : AllocatesTo core_mapping m container_name (freeShares core_mapping) cpu_max
      ⟨core_mapping, 0, freeShares core_mapping 0, cpu_max, []⟩ := by
    refine ⟨Nat.zero_le m, ⟨?_, ?_, fun i _ name _ _ => rfl⟩, fun _ => rfl, ?_, hcpu, rfl⟩
    · intro i hi
      rw [takenBefore, if_neg (Nat.not_lt_zero i), sub_zero, h.freeShares_eq hi]
    · intro i hi
      rw [takenBefore, if_neg (Nat.not_lt_zero i), coreShare, hnew i hi]
      rfl
    · rw [sum_range_zero, sub_zero]
  obtain ⟨s, hs, hallocated⟩ := allocateLoop_shared (fun i => (h.freeShares_bounds i).1)
    (fun i => (h.freeShares_bounds i).2) hname rfl hstart
  refine ⟨s, ?_, hallocated⟩
  simp only [allocateCores, readFree_eq_ok (h.freeShares_eq hm), h.length, hs, bind, Except.bind]
  rfl

/-- **The allocation is exact**: the container gets its limit or all that is free, from
    the free shares alone, and `cpu_core_list` is the list of its cores. -/
theorem allocateCores_exact (hm : 1 ≤ m) (h : NumberedCores core_mapping m)
    (hnew : ∀ i < m, coreEntry core_mapping i container_name = none) {cpu_max : ℤ}
    (hcpu : 0 ≤ cpu_max) :
    ∃ core_mapping' cpu_core_list,
      allocateCores core_mapping container_name cpu_max = .ok (core_mapping', cpu_core_list) ∧
      ∑ i ∈ range m, coreShare core_mapping' i container_name =
        min cpu_max (∑ i ∈ range m, freeShares core_mapping i) ∧
      (∀ i < m, 0 ≤ freeShares core_mapping' i) ∧
      (∀ i < m, freeShares core_mapping' i + coreShare core_mapping' i container_name =
        freeShares core_mapping i) ∧
      (∀ i < m, ∀ name, name ≠ container_name → name ≠ "free" →
        coreEntry core_mapping' i name = coreEntry core_mapping i name) ∧
      cpu_core_list =
        (List.range m).filter fun i => 0 < coreShare core_mapping' i container_name := by
  obtain ⟨s, hs, hshared, hlist⟩ := allocateCores_allocated hm h hnew hcpu
  have hnonneg : ∀ i, 0 ≤ freeShares core_mapping i := fun i => (h.freeShares_bounds i).1
  have hfree : ∀ i < m, freeShares s.core_mapping i =
      freeShares core_mapping i - filled (freeShares core_mapping) cpu_max i := by
    intro i hi
    rw [freeShares, coreShare, hshared.free i hi]
    rfl
  refine ⟨s.core_mapping, s.cpu_core_list, hs, ?_, ?_, ?_, hshared.others, ?_⟩
  · rw [sum_congr rfl fun i hi => hshared.share i (mem_range.1 hi)]
    exact sum_filled hcpu fun i _ => hnonneg i
  · intro i hi
    rw [hfree i hi]
    exact sub_nonneg.2 (filled_le (hnonneg i))
  · intro i hi
    rw [hfree i hi, hshared.share i hi, sub_add_cancel]
  · rw [hlist]
    refine List.filter_congr fun i hi => ?_
    rw [hshared.share i (List.mem_range.1 hi)]

end

/-- Two cores, the first half taken. -/
def halfTaken : CoreMapping :=
  ⟨[("0", ⟨[("free", 50), ("cont0", 50)], by decide⟩), ("1", ⟨[("free", 100)], by decide⟩)], by decide⟩

theorem numberedCores_halfTaken : NumberedCores halfTaken 2 := by
  constructor
  · intro k
    have hkeys : halfTaken.keys = ["0", "1"] := rfl
    rw [hkeys]
    constructor
    · intro hk
      rcases List.mem_cons.1 hk with rfl | hk
      · exact ⟨0, by decide, rfl⟩
      · exact ⟨1, by decide, List.mem_singleton.1 hk⟩
    · rintro ⟨i, hi, rfl⟩
      obtain rfl | rfl : i = 0 ∨ i = 1 := by omega
      · exact List.mem_cons_self
      · exact List.mem_cons_of_mem _ List.mem_cons_self
  · intro i hi
    obtain rfl | rfl : i = 0 ∨ i = 1 := by omega
    · exact ⟨50, rfl, by decide, by decide⟩
    · exact ⟨100, rfl, by decide, by decide⟩

/-- 150 for a new container: the other half and a core. -/
theorem allocateCores_exact_example : ∃ core_mapping' cpu_core_list,
    allocateCores halfTaken "cont1" 150 = .ok (core_mapping', cpu_core_list) ∧
      ∑ i ∈ range 2, coreShare core_mapping' i "cont1" = 150 := by
  have hnew : ∀ i < 2, coreEntry halfTaken i "cont1" = none := by
    intro i hi
    obtain rfl | rfl : i = 0 ∨ i = 1 := by omega
    · rfl
    · rfl
  obtain ⟨core_mapping', cpu_core_list, hok, hsum, -⟩ := allocateCores_exact (by decide)
    numberedCores_halfTaken hnew (show (0 : ℤ) ≤ 150 by decide)
  have hfree : ∑ i ∈ range 2, freeShares halfTaken i = 150 := by
    rw [sum_range_succ, sum_range_one]
    rfl
  rw [hfree, min_self] at hsum
  exact ⟨core_mapping', cpu_core_list, hok, hsum⟩

end ServerlessYarn
