/-
  ServerlessYARN model — the CPU wait of the processes over a run of samples.

  Each sample compares the delay of a thread with the previous sample, where it is
  found by binary search among the threads of all processes.

  * `findThread_iff`, `findProc_iff`: the search finds what the previous sample saw;
  * `waitOf_eq`: the wait of one sample, thread by thread;
  * `gained_sum`: over the samples, what a thread gained telescopes;
  * `wait_adds_up`: the waits of a process add up to what its threads waited.
-/
import ServerlessYarn.FeederProcs
import Mathlib.Algebra.BigOperators.Group.Finset.Basic
import Mathlib.Algebra.Order.BigOperators.Group.Finset
import Mathlib.Data.List.Flatten

namespace ServerlessYarn

/-! ## Runs of samples -/

/-- A listing of `/proc`: a process and a thread are listed once. -/
structure Listing where
  entries : List ProcEntry
  pids_nodup : (entries.map fun e => e.pid).Nodup
  tids_nodup : ((entries.flatMap ProcEntry.threads).map fun t => t.tid).Nodup

/-- A process: its number and when it was started. -/
structure Proc where
  pid : ℕ
  start : UInt64

/-- The entry is about the process. -/
def ProcEntry.Is (e : ProcEntry) (p : Proc) : Prop :=
  e.pid = p.pid ∧ e.stat.map ProcStat.start = some p.start

instance (e : ProcEntry) (p : Proc) : Decidable (e.Is p) :=
  instDecidableAnd

/-- The visible threads of the process. -/
def Listing.threadsOf (l : Listing) (p : Proc) : List ThreadInfo :=
  (l.entries.filter fun e => e.Is p).flatMap ProcEntry.threads

/-- The delay that is visible for a thread of the process. -/
def Listing.delayAt (l : Listing) (p : Proc) (tid : ℕ) : Option UInt64 :=
  ((l.threadsOf p).find? fun t => t.tid = tid).map ThreadInfo.delay

section run
variable (opts : SampleOptions) (listing : ℕ → Listing)

/-- The state after the first `k` samples. -/
def stateAfter : ℕ → ProcState
  | 0 => ProcState.empty
  | k + 1 => nextState opts (stateAfter k) (listing k).entries

/-- The `wait_ns` that the sample `k` computes for the process, if it is there. -/
def waitOf (p : Proc) (k : ℕ) : UInt64 :=
  (((stateAfter opts listing (k + 1)).prevProcs.find? fun i => i.pid = p.pid ∧ i.start = p.start).map
    ProcInfo.waitNs).getD 0

end run

/-! ## Delays -/

section delays
variable (listing : ℕ → Listing) (p : Proc)

/-- The delay at the reference sample, or 0 if the thread appeared later. -/
def refDelay (tid : ℕ) : ℕ :=
  (((listing 0).delayAt p tid).map UInt64.toNat).getD 0

/-- The delay at the last sample up to `n` that sees the thread. -/
def lastDelay (tid : ℕ) : ℕ → ℕ
  | 0 => refDelay listing p tid
  | n + 1 => (((listing (n + 1)).delayAt p tid).map UInt64.toNat).getD (lastDelay tid n)

/-- The threads of the process that a sample up to `n` sees. -/
def threadIds (n : ℕ) : Finset ℕ :=
  (Finset.range (n + 1)).biUnion fun k => (((listing k).threadsOf p).map fun t => t.tid).toFinset

/-- What the claim on the threads of a process assumes of a run up to the sample
    `n`: their numbers are not taken over from other processes, they are visible
    from their first to their last sample, and their delays do not decrease. -/
structure Steady (n : ℕ) : Prop where
  not_reused : ∀ k < n, ∀ t ∈ (listing (k + 1)).threadsOf p, ∀ e ∈ (listing k).entries,
    ∀ t' ∈ e.threads, t'.tid = t.tid → e.Is p
  consecutive : ∀ tid i j k, i ≤ j → j ≤ k → k ≤ n → ((listing i).delayAt p tid).isSome →
    ((listing k).delayAt p tid).isSome → ((listing j).delayAt p tid).isSome
  nondecreasing : ∀ k < n, ∀ tid, ∀ d ∈ (listing k).delayAt p tid,
    ∀ d' ∈ (listing (k + 1)).delayAt p tid, d ≤ d'

end delays

/-! ## One sample -/

/-- In a list with distinct keys, a test that determines the key selects one
    element. -/
theorem filter_eq_singleton {α β : Type*} {key : α → β} {q : α → Bool} {x : α} {l : List α}
    (h : (l.map key).Nodup) (hx : x ∈ l) (hq : q x = true) (hkey : ∀ y, q y = true → key y = key x) :
    l.filter q = [x] := by
  induction l with
  | nil => cases hx
  | cons y l ih =>
    obtain ⟨hy, hrest⟩ := List.nodup_cons.1 h
    rcases List.mem_cons.1 hx with rfl | hmem
    · have hnone : l.filter q = [] := by
        refine List.filter_eq_nil_iff.2 fun z hz hqz => hy ?_
        rw [← hkey z hqz]
        exact List.mem_map_of_mem hz
      rw [List.filter_cons_of_pos hq, hnone]
    · have hqy : ¬ q y = true := by
        intro hqy
        apply hy
        rw [hkey y hqy]
        exact List.mem_map_of_mem hmem
      rw [List.filter_cons_of_neg hqy, ih hrest hmem]

section sample
variable {opts : SampleOptions} {listing : ℕ → Listing}

theorem prevThreads_succ (hw : opts.gPRW = true) (k : ℕ) :
    (stateAfter opts listing (k + 1)).prevThreads =
      sortThreads ((listing k).entries.flatMap ProcEntry.threads) := by
  show ite _ _ _ = _
  rw [if_pos hw, gather_eq _ _ _ hw]

theorem prevProcs_succ (hw : opts.gPRW = true) (k : ℕ) :
    (stateAfter opts listing (k + 1)).prevProcs =
      sortProcs ((listing k).entries.filterMap (procInfo? opts (stateAfter opts listing k))) := by
  show sortProcs _ = _
  rw [gather_eq _ _ _ hw]

/-- The records have the numbers of the entries. -/
theorem procInfo?_pid (hw : opts.gPRW = true) {prev : ProcState} {e : ProcEntry} {i : ProcInfo}
    (h : procInfo? opts prev e = some i) :
    i.pid = e.pid ∧ e.stat.map ProcStat.start = some i.start := by
  cases hstat : e.stat with
  | none =>
    rw [procInfo?_none opts prev hstat] at h
    cases h
  | some st =>
    obtain ⟨info, hinfo, hpid, hstart, -⟩ := procInfo?_some opts prev hstat hw
    rw [hinfo] at h
    cases h
    exact ⟨hpid, congrArg some hstart.symm⟩

theorem pids_nodup_procInfo? (hw : opts.gPRW = true) (prev : ProcState) {entries : List ProcEntry}
    (h : (entries.map fun e => e.pid).Nodup) :
    ((entries.filterMap (procInfo? opts prev)).map fun i => i.pid).Nodup := by
  refine h.sublist ?_
  clear h
  induction entries with
  | nil => exact List.Sublist.refl _
  | cons e entries ih =>
    rw [List.filterMap_cons, List.map_cons]
    cases hinfo : procInfo? opts prev e with
    | none => exact ih.cons _
    | some i =>
      rw [List.map_cons, (procInfo?_pid hw hinfo).1]
      exact ih.cons_cons _

/-- **A thread is found iff the previous sample saw it.** -/
theorem findThread_iff (hw : opts.gPRW = true) {k tid : ℕ} {t : ThreadInfo} :
    bsearch (cmpTid tid) (stateAfter opts listing (k + 1)).prevThreads = some t ↔
      t ∈ (listing k).entries.flatMap ProcEntry.threads ∧ t.tid = tid := by
  rw [prevThreads_succ hw]
  exact bsearch_sorted (fun t : ThreadInfo => t.tid) (listing k).tids_nodup

/-- **A process is found iff the previous sample has its number.** -/
theorem findProc_iff (hw : opts.gPRW = true) {k pid : ℕ} {i : ProcInfo} :
    findPrev (stateAfter opts listing (k + 1)).prevProcs pid = some i ↔
      i ∈ (listing k).entries.filterMap (procInfo? opts (stateAfter opts listing k)) ∧ i.pid = pid := by
  rw [prevProcs_succ hw]
  exact bsearch_sorted (fun i : ProcInfo => i.pid) (pids_nodup_procInfo? hw _ (listing k).pids_nodup)

/-- A process is new unless the previous sample has it. -/
theorem isNewProc_eq_false_iff (hw : opts.gPRW = true) (p : Proc) (k : ℕ) :
    isNewProc (findPrev (stateAfter opts listing (k + 1)).prevProcs p.pid) p.start = false ↔
      ∃ e ∈ (listing k).entries, e.Is p := by
  constructor
  · intro hold
    cases hfound : findPrev (stateAfter opts listing (k + 1)).prevProcs p.pid with
    | none =>
      rw [hfound] at hold
      cases hold
    | some i =>
      rw [hfound] at hold
      obtain ⟨hi, hpid⟩ := (findProc_iff hw).1 hfound
      obtain ⟨e, he, hinfo⟩ := List.mem_filterMap.1 hi
      obtain ⟨hepid, hstart⟩ := procInfo?_pid hw hinfo
      have hsame : i.start = p.start := by simpa [isNewProc] using hold
      exact ⟨e, he, hepid.symm.trans hpid, hstart.trans (congrArg some hsame)⟩
  · rintro ⟨e, he, hpid, hstart⟩
    obtain ⟨st, hstat, hst⟩ := Option.map_eq_some_iff.1 hstart
    obtain ⟨i, hinfo, hipid, histart, -⟩ := procInfo?_some opts (stateAfter opts listing k) hstat hw
    have hfound : findPrev (stateAfter opts listing (k + 1)).prevProcs p.pid = some i :=
      (findProc_iff hw).2 ⟨List.mem_filterMap.2 ⟨e, he, hinfo⟩, hipid.trans hpid⟩
    rw [hfound]
    simp [isNewProc, histart, hst]

/-- The entry of a process is the only one. -/
theorem Listing.threadsOf_eq {l : Listing} {e : ProcEntry} {p : Proc} (he : e ∈ l.entries) (hp : e.Is p) :
    l.threadsOf p = e.threads := by
  have honly : l.entries.filter (fun e => e.Is p) = [e] :=
    filter_eq_singleton l.pids_nodup he (decide_eq_true hp) fun e' he' =>
      (of_decide_eq_true he').1.trans hp.1.symm
  unfold Listing.threadsOf
  rw [honly, List.flatMap_singleton]

theorem Listing.threadsOf_eq_nil {l : Listing} {p : Proc} (h : ¬ ∃ e ∈ l.entries, e.Is p) :
    l.threadsOf p = [] := by
  have hnone : l.entries.filter (fun e => e.Is p) = [] := by
    refine List.filter_eq_nil_iff.2 fun e he hp => h ⟨e, he, of_decide_eq_true hp⟩
  unfold Listing.threadsOf
  rw [hnone]
  rfl

/-- **The wait of one sample**, thread by thread. -/
theorem waitOf_eq (hw : opts.gPRW = true) (p : Proc) (k : ℕ) :
    waitOf opts listing p k =
      runDelay (stateAfter opts listing k)
        (isNewProc (findPrev (stateAfter opts listing k).prevProcs p.pid) p.start)
        ((listing k).threadsOf p) := by
  unfold waitOf
  rw [prevProcs_succ hw]
  by_cases hthere : ∃ e ∈ (listing k).entries, e.Is p
  · obtain ⟨e, he, hp⟩ := hthere
    obtain ⟨st, hstat, hst⟩ := Option.map_eq_some_iff.1 hp.2
    obtain ⟨i, hinfo, hipid, histart, hwait⟩ := procInfo?_some opts (stateAfter opts listing k) hstat hw
    have hmem : i ∈ sortProcs ((listing k).entries.filterMap (procInfo? opts (stateAfter opts listing k))) :=
      List.mem_mergeSort.2 (List.mem_filterMap.2 ⟨e, he, hinfo⟩)
    have hfound : (sortProcs ((listing k).entries.filterMap
        (procInfo? opts (stateAfter opts listing k)))).find?
          (fun i => i.pid = p.pid ∧ i.start = p.start) = some i := by
      have hnodup : ((sortProcs ((listing k).entries.filterMap
          (procInfo? opts (stateAfter opts listing k)))).map fun i => i.pid).Nodup :=
        ((List.mergeSort_perm _ _).map _).nodup_iff.2
          (pids_nodup_procInfo? hw (stateAfter opts listing k) (listing k).pids_nodup)
      have hsame : decide (i.pid = p.pid ∧ i.start = p.start) = true :=
        decide_eq_true ⟨hipid.trans hp.1, histart.trans hst⟩
      have hkey : ∀ i' : ProcInfo, decide (i'.pid = p.pid ∧ i'.start = p.start) = true → i'.pid = i.pid :=
        fun i' hi' => (of_decide_eq_true hi').1.trans (hipid.trans hp.1).symm
      rw [← List.head?_filter, filter_eq_singleton hnodup hmem hsame hkey]
      rfl
    rw [hfound, Listing.threadsOf_eq he hp, Option.map_some, Option.getD_some, hwait, hp.1, hst]
  · have hnone : (sortProcs ((listing k).entries.filterMap
        (procInfo? opts (stateAfter opts listing k)))).find?
          (fun i => i.pid = p.pid ∧ i.start = p.start) = none := by
      refine List.find?_eq_none.2 fun i hi hsame => hthere ?_
      obtain ⟨e, he, hinfo⟩ := List.mem_filterMap.1 (List.mem_mergeSort.1 hi)
      obtain ⟨hpid, hstart⟩ := procInfo?_pid hw hinfo
      obtain ⟨hpid', hstart'⟩ := of_decide_eq_true hsame
      exact ⟨e, he, hpid.symm.trans hpid', hstart.trans (congrArg some hstart')⟩
    rw [hnone, Listing.threadsOf_eq_nil hthere]
    rfl

end sample

/-! ## What the threads gained -/

section gained

theorem Listing.threadsOf_sublist (l : Listing) (p : Proc) :
    (l.threadsOf p).Sublist (l.entries.flatMap ProcEntry.threads) :=
  List.filter_sublist.flatMap _

theorem Listing.delayAt_eq_some_iff {l : Listing} {p : Proc} {tid : ℕ} {d : UInt64} :
    l.delayAt p tid = some d ↔ ⟨tid, d⟩ ∈ l.threadsOf p := by
  have hnodup : ((l.threadsOf p).map fun t => t.tid).Nodup :=
    l.tids_nodup.sublist ((l.threadsOf_sublist p).map _)
  unfold Listing.delayAt
  constructor
  · intro h
    obtain ⟨t, hfound, rfl⟩ := Option.map_eq_some_iff.1 h
    have htrue := List.find?_some hfound
    have htid : t.tid = tid := of_decide_eq_true htrue
    exact htid ▸ List.mem_of_find?_eq_some hfound
  · intro hmem
    have hkey : ∀ t : ThreadInfo, decide (t.tid = tid) = true → t.tid = tid := fun _ => of_decide_eq_true
    rw [← List.head?_filter, filter_eq_singleton hnodup hmem (decide_eq_true rfl) hkey]
    rfl

/-- What the delay of a thread grew by since the sample before, or since it
    started. -/
def gained (before now : Option UInt64) : ℕ :=
  match now with
  | none => 0
  | some d => d.toNat - (before.map UInt64.toNat).getD 0

theorem toNat_delayDelta {q : Option ThreadInfo} {d : UInt64} (h : ∀ t ∈ q, t.delay ≤ d) :
    (delayDelta q d).toNat = gained (q.map ThreadInfo.delay) (some d) := by
  cases q with
  | none => rfl
  | some t =>
    have hle : t.delay ≤ d := h t rfl
    show (ite _ _ _ : UInt64).toNat = _
    rw [if_pos hle, UInt64.toNat_sub_of_le _ _ hle]
    rfl

/-- A sum of machine words, up to overflow. -/
theorem toNat_foldr_add {α : Type*} (f : α → UInt64) (l : List α) :
    ((l.map f).foldr (· + ·) 0).toNat = (l.map fun x => (f x).toNat).sum % 2 ^ 64 := by
  induction l with
  | nil => rfl
  | cons x l ih =>
    rw [List.map_cons, List.foldr_cons, UInt64.toNat_add, ih, List.map_cons, List.sum_cons, Nat.add_mod_mod]

variable {opts : SampleOptions} {listing : ℕ → Listing} {p : Proc} {n : ℕ}

/-- A thread of the process is compared with its own record in the sample before. -/
theorem Steady.prevThread_delay (h : Steady listing p n) (hw : opts.gPRW = true) {k : ℕ} (hk : k < n)
    {t : ThreadInfo} (ht : t ∈ (listing (k + 1)).threadsOf p) :
    (prevThread (stateAfter opts listing (k + 1))
      (isNewProc (findPrev (stateAfter opts listing (k + 1)).prevProcs p.pid) p.start) t.tid).map
        ThreadInfo.delay = (listing k).delayAt p t.tid := by
  cases hnew : isNewProc (findPrev (stateAfter opts listing (k + 1)).prevProcs p.pid) p.start with
  | true =>
    have hgone : ¬ ∃ e ∈ (listing k).entries, e.Is p := by
      intro hthere
      rw [(isNewProc_eq_false_iff hw p k).2 hthere] at hnew
      cases hnew
    have hnil := Listing.threadsOf_eq_nil hgone
    unfold Listing.delayAt
    rw [hnil]
    rfl
  | false =>
    show (bsearch (cmpTid t.tid) _).map _ = _
    cases hfound : bsearch (cmpTid t.tid) (stateAfter opts listing (k + 1)).prevThreads with
    | none =>
      cases hdelay : (listing k).delayAt p t.tid with
      | none => rfl
      | some d =>
        have hmem := (Listing.threadsOf_sublist _ _).subset (Listing.delayAt_eq_some_iff.1 hdelay)
        rw [(findThread_iff hw).2 ⟨hmem, rfl⟩] at hfound
        cases hfound
    | some t' =>
      obtain ⟨hmem, htid⟩ := (findThread_iff hw).1 hfound
      obtain ⟨e, he, ht'⟩ := List.mem_flatMap.1 hmem
      have hp : e.Is p := h.not_reused k hk t ht e he t' ht' htid
      have hown : t' ∈ (listing k).threadsOf p := by
        rw [Listing.threadsOf_eq he hp]
        exact ht'
      exact (Listing.delayAt_eq_some_iff.2 (htid ▸ hown)).symm

theorem mem_threadIds {tid k : ℕ} (hk : k ≤ n) {d : UInt64} (h : (listing k).delayAt p tid = some d) :
    tid ∈ threadIds listing p n := by
  refine Finset.mem_biUnion.2 ⟨k, Finset.mem_range.2 (Nat.lt_succ_of_le hk), ?_⟩
  exact List.mem_toFinset.2 (List.mem_map.2 ⟨_, Listing.delayAt_eq_some_iff.1 h, rfl⟩)

/-- **The wait of one sample** is what the threads gained, up to overflow. -/
theorem Steady.toNat_waitOf (h : Steady listing p n) (hw : opts.gPRW = true) {k : ℕ} (hk : k < n) :
    (waitOf opts listing p (k + 1)).toNat =
      (∑ tid ∈ threadIds listing p n,
        gained ((listing k).delayAt p tid) ((listing (k + 1)).delayAt p tid)) % 2 ^ 64 := by
  have hsum : ((listing (k + 1)).threadsOf p).map (fun t => (delayDelta (prevThread (stateAfter opts listing (k + 1))
      (isNewProc (findPrev (stateAfter opts listing (k + 1)).prevProcs p.pid) p.start) t.tid) t.delay).toNat) =
      ((listing (k + 1)).threadsOf p).map fun t =>
        gained ((listing k).delayAt p t.tid) ((listing (k + 1)).delayAt p t.tid) := by
    refine List.map_congr_left fun t ht => ?_
    have hnow : (listing (k + 1)).delayAt p t.tid = some t.delay := Listing.delayAt_eq_some_iff.2 ht
    have hbefore := h.prevThread_delay hw hk ht
    rw [toNat_delayDelta, hbefore, hnow]
    intro q hq
    have hdelay : (listing k).delayAt p t.tid = some q.delay := by
      rw [← hbefore, Option.mem_def.1 hq]
      rfl
    exact h.nondecreasing k hk t.tid q.delay hdelay t.delay hnow
  have hnodup : (((listing (k + 1)).threadsOf p).map fun t => t.tid).Nodup :=
    (listing (k + 1)).tids_nodup.sublist (((listing (k + 1)).threadsOf_sublist p).map _)
  have hlist : (((listing (k + 1)).threadsOf p).map fun t =>
      gained ((listing k).delayAt p t.tid) ((listing (k + 1)).delayAt p t.tid)).sum =
      ∑ tid ∈ (((listing (k + 1)).threadsOf p).map fun t => t.tid).toFinset,
        gained ((listing k).delayAt p tid) ((listing (k + 1)).delayAt p tid) := by
    rw [List.sum_toFinset _ hnodup, List.map_map]
    rfl
  rw [waitOf_eq hw]
  unfold runDelay
  rw [toNat_foldr_add, hsum, hlist]
  congr 1
  refine Finset.sum_subset ?_ ?_
  · intro tid htid
    obtain ⟨t, ht, rfl⟩ := List.mem_map.1 (List.mem_toFinset.1 htid)
    exact mem_threadIds hk (Listing.delayAt_eq_some_iff.2 ht)
  · intro tid _ hnot
    cases hdelay : (listing (k + 1)).delayAt p tid with
    | none => rfl
    | some d =>
      refine absurd (List.mem_toFinset.2 (List.mem_map.2 ⟨_, Listing.delayAt_eq_some_iff.1 hdelay, rfl⟩)) hnot

/-! ## Over the samples -/

theorem lastDelay_of_visible {tid m : ℕ} {d : UInt64} (h : (listing m).delayAt p tid = some d) :
    lastDelay listing p tid m = d.toNat := by
  cases m with
  | zero =>
    show ((Option.map _ _).getD 0 : ℕ) = _
    rw [h]
    rfl
  | succ m =>
    show ((Option.map _ _).getD _ : ℕ) = _
    rw [h]
    rfl

/-- A thread that no sample has seen yet. -/
theorem lastDelay_of_unseen {tid m : ℕ} (h : ∀ k ≤ m, (listing k).delayAt p tid = none) :
    lastDelay listing p tid m = 0 := by
  induction m with
  | zero =>
    show ((Option.map _ _).getD 0 : ℕ) = _
    rw [h 0 (Nat.le_refl 0)]
    rfl
  | succ m ih =>
    show ((Option.map _ _).getD _ : ℕ) = _
    rw [h (m + 1) (Nat.le_refl _)]
    exact ih fun k hk => h k (Nat.le_succ_of_le hk)

/-- **What a thread gained telescopes.** -/
theorem Steady.gained_sum (h : Steady listing p n) (tid : ℕ) {m : ℕ} (hm : m ≤ n) :
    ∑ k ∈ Finset.range m, gained ((listing k).delayAt p tid) ((listing (k + 1)).delayAt p tid) +
      refDelay listing p tid = lastDelay listing p tid m := by
  induction m with
  | zero =>
    rw [Finset.sum_range_zero, Nat.zero_add]
    rfl
  | succ m ih =>
    have hsum := ih (Nat.le_of_succ_le hm)
    rw [Finset.sum_range_succ]
    cases hnow : (listing (m + 1)).delayAt p tid with
    | none =>
      have hlast : lastDelay listing p tid (m + 1) = lastDelay listing p tid m := by
        show ((Option.map _ _).getD _ : ℕ) = _
        rw [hnow]
        rfl
      rw [hlast, ← hsum]
      rfl
    | some d =>
      have hlast := lastDelay_of_visible hnow
      cases hbefore : (listing m).delayAt p tid with
      | some d' =>
        have hprev := lastDelay_of_visible hbefore
        have hle : d'.toNat ≤ d.toNat :=
          UInt64.le_iff_toNat_le.1 (h.nondecreasing m hm tid d' hbefore d hnow)
        have hgain : gained (some d') (some d) = d.toNat - d'.toNat := rfl
        omega
      | none =>
        -- visible now and not before: no sample has seen the thread
        have hunseen : ∀ k ≤ m, (listing k).delayAt p tid = none := by
          intro k hk
          by_contra hseen
          have hvis : ((listing m).delayAt p tid).isSome :=
            h.consecutive tid k m (m + 1) hk (Nat.le_succ m) hm (Option.isSome_iff_ne_none.2 hseen)
              (by rw [hnow]; rfl)
          rw [hbefore] at hvis
          cases hvis
        have hzero := lastDelay_of_unseen hunseen
        have hgain : gained none (some d) = d.toNat := rfl
        omega

/-- What the threads of the process waited from the reference sample, or their
    start, to their last sample. -/
def totalWait (listing : ℕ → Listing) (p : Proc) (n : ℕ) : ℕ :=
  ∑ tid ∈ threadIds listing p n, (lastDelay listing p tid n - refDelay listing p tid)

theorem Steady.gained_total (h : Steady listing p n) :
    ∑ k ∈ Finset.range n, ∑ tid ∈ threadIds listing p n,
      gained ((listing k).delayAt p tid) ((listing (k + 1)).delayAt p tid) = totalWait listing p n := by
  rw [Finset.sum_comm]
  refine Finset.sum_congr rfl fun tid _ => ?_
  rw [← h.gained_sum tid (Nat.le_refl n), Nat.add_sub_cancel]

/-- **The CPU waits of a process add up** to what its threads waited, whatever the
    order in which `/proc` lists them; the counters are machine words, so that a
    total of 2^64 ns and more is seen up to overflow. -/
theorem wait_adds_up (opts : SampleOptions) (hw : opts.gPRW = true) (listing : ℕ → Listing) (p : Proc)
    (n : ℕ) (h : Steady listing p n) :
    (∑ k ∈ Finset.range n, (waitOf opts listing p (k + 1)).toNat) % 2 ^ 64 =
        totalWait listing p n % 2 ^ 64 ∧
      (totalWait listing p n < 2 ^ 64 →
        ∑ k ∈ Finset.range n, (waitOf opts listing p (k + 1)).toNat = totalWait listing p n) := by
  have hwait : ∑ k ∈ Finset.range n, (waitOf opts listing p (k + 1)).toNat =
      ∑ k ∈ Finset.range n, (∑ tid ∈ threadIds listing p n,
        gained ((listing k).delayAt p tid) ((listing (k + 1)).delayAt p tid)) % 2 ^ 64 :=
    Finset.sum_congr rfl fun k hk => h.toNat_waitOf hw (Finset.mem_range.1 hk)
  rw [hwait, ← h.gained_total]
  constructor
  · exact (Finset.sum_nat_mod _ _ _).symm
  · intro hsmall
    refine Finset.sum_congr rfl fun k hk => Nat.mod_eq_of_lt (lt_of_le_of_lt ?_ hsmall)
    exact Finset.single_le_sum (f := fun k => ∑ tid ∈ threadIds listing p n,
      gained ((listing k).delayAt p tid) ((listing (k + 1)).delayAt p tid)) (fun _ _ => Nat.zero_le _) hk

end gained

/-! ## A process whose second thread starts after the reference -/

theorem seven_lt : 7 < 2 ^ 31 := by decide

/-- The process 7 at the sample `k`: its main thread and, from the sample 1 on, a
    second one. -/
def growingProc (k : ℕ) : ProcEntry where
  pid := 7
  pid_lt := seven_lt
  stat := some ⟨ascii "stress", [], List.not_mem_nil, 82, 0, 0, 1, 0, 0⟩
  task := some (if k = 0 then [⟨7, some (0, 40)⟩] else [⟨8, some (0, 5)⟩, ⟨7, some (0, 60)⟩])
  io := none

theorem growingProc_threads (k : ℕ) :
    (growingProc k).threads = if k = 0 then [⟨7, 40⟩] else [⟨8, 5⟩, ⟨7, 60⟩] := by
  cases k <;> rfl

theorem growingProc_tids_nodup (k : ℕ) :
    (([growingProc k].flatMap ProcEntry.threads).map fun t => t.tid).Nodup := by
  rw [List.flatMap_singleton, growingProc_threads]
  split_ifs
  · exact List.nodup_singleton 7
  · exact List.nodup_cons.2 ⟨by simp, List.nodup_singleton 7⟩

/-- The process is alone in `/proc`. -/
def growingListing (k : ℕ) : Listing where
  entries := [growingProc k]
  pids_nodup := List.nodup_singleton 7
  tids_nodup := growingProc_tids_nodup k

theorem growingListing_threadsOf (k : ℕ) :
    (growingListing k).threadsOf ⟨7, 1⟩ = if k = 0 then [⟨7, 40⟩] else [⟨8, 5⟩, ⟨7, 60⟩] := by
  rw [← growingProc_threads]
  exact Listing.threadsOf_eq List.mem_cons_self ⟨rfl, rfl⟩

theorem growingListing_delayAt_iff {k tid : ℕ} {d : UInt64} :
    (growingListing k).delayAt ⟨7, 1⟩ tid = some d ↔
      if k = 0 then tid = 7 ∧ d = 40 else (tid = 8 ∧ d = 5) ∨ (tid = 7 ∧ d = 60) := by
  rw [Listing.delayAt_eq_some_iff, growingListing_threadsOf]
  split_ifs <;> simp

theorem steady_growingListing (n : ℕ) : Steady growingListing ⟨7, 1⟩ n where
  not_reused := by
    intro k _ t _ e he _ _ _
    rw [List.mem_singleton.1 he]
    exact ⟨rfl, rfl⟩
  consecutive := by
    intro tid i j k hij hjk _ hi hk
    obtain ⟨d, hd⟩ := Option.isSome_iff_exists.1 hi
    obtain ⟨d', hd'⟩ := Option.isSome_iff_exists.1 hk
    rw [growingListing_delayAt_iff] at hd hd'
    refine Option.isSome_iff_exists.2 ?_
    by_cases hj : j = 0
    · have hi0 : i = 0 := Nat.le_zero.1 (hj ▸ hij)
      rw [if_pos hi0] at hd
      exact ⟨40, growingListing_delayAt_iff.2 (by rw [if_pos hj]; exact ⟨hd.1, rfl⟩)⟩
    · have hk0 : k ≠ 0 := fun h0 => hj (Nat.le_zero.1 (h0 ▸ hjk))
      rw [if_neg hk0] at hd'
      exact ⟨d', growingListing_delayAt_iff.2 (by rw [if_neg hj]; exact hd')⟩
  nondecreasing := by
    intro k _ tid d hd d' hd'
    have hnow := growingListing_delayAt_iff.1 hd'
    have hbefore := growingListing_delayAt_iff.1 hd
    rw [if_neg (Nat.succ_ne_zero k)] at hnow
    split_ifs at hbefore
    · obtain ⟨rfl, rfl⟩ := hbefore
      rcases hnow with ⟨htid, -⟩ | ⟨-, rfl⟩
      · omega
      · decide
    · rcases hbefore with ⟨rfl, rfl⟩ | ⟨rfl, rfl⟩ <;> rcases hnow with ⟨htid, rfl⟩ | ⟨htid, rfl⟩ <;>
        first | exact UInt64.le_refl _ | omega

theorem node0_length : (ascii "node0").length < 512 := by decide

def node0Options : SampleOptions := ⟨false, true, true, true, true, 4096, ascii "node0", node0_length⟩

theorem growing_wait_adds_up :
    totalWait growingListing ⟨7, 1⟩ 2 = 25 ∧
      ∑ k ∈ Finset.range 2,
        (waitOf node0Options growingListing ⟨7, 1⟩ (k + 1)).toNat =
          totalWait growingListing ⟨7, 1⟩ 2 := by
  have htotal : totalWait growingListing ⟨7, 1⟩ 2 = 25 := by decide +kernel
  refine ⟨htotal, (wait_adds_up _ rfl growingListing ⟨7, 1⟩ 2 (steady_growingListing 2)).2 ?_⟩
  rw [htotal]
  decide

end ServerlessYarn
