/-
  ServerlessYARN model — the samples of the processes (lite_feeder.c).

  `sampleProcs` reads every process that `/proc` lists, together with its threads,
  compares it with the previous sample, and builds the documents to be sent.  What
  the kernel shows is an input, in the order in which the directories list it; so
  are the texts that `%.2f` prints, since floating point is not modelled.

  * `readRunDelay_eq`: the run-queue delay of a process is the sum over its visible
    threads, which are appended to those of the sample;
  * `gather_eq`: a sample holds every readable process and every visible thread.
-/
import ServerlessYarn.FeederStrings
import ServerlessYarn.Lib.BinarySearch
import Mathlib.Algebra.BigOperators.Group.List.Basic

namespace ServerlessYarn

/-! ## What the kernel shows -/

/-- An entry of `/proc/<pid>/task`: the first two fields of its `schedstat`, if it
    can be read. -/
structure TaskEntry where
  tid : ℕ
  schedstat : Option (UInt64 × UInt64)

/-- `/proc/<pid>/stat`: the name of the process, the text behind it, and the numbers
    that are read from that text. -/
structure ProcStat where
  comm : CString
  rest : CString
  rest_clean : rparen ∉ rest
  state : UInt8
  utime : UInt64
  stime : UInt64
  start : UInt64
  vsize : UInt64
  rss : ℤ

/-- The line of `/proc/<pid>/stat`. -/
def ProcStat.line (st : ProcStat) (pid : ℕ) : CString :=
  decimal pid ++ [32] ++ lparen :: (st.comm ++ rparen :: st.rest)

/-- A number listed in `/proc`, an `int`.  The process may be gone when its files are
    opened; `io` has the bytes read and written. -/
structure ProcEntry where
  pid : ℕ
  pid_lt : pid < 2 ^ 31
  stat : Option ProcStat
  task : Option (List TaskEntry)
  io : Option (UInt64 × UInt64)

/-! ## Samples -/

/-- The groups that are sent and the constants of the system; `host_tag` has 512
    bytes. -/
structure SampleOptions where
  gNET : Bool
  gPRC : Bool
  gPRM : Bool
  gPRD : Bool
  gPRW : Bool
  pagesize : ℕ
  hostTag : CString
  hostTag_length : hostTag.length < 512

structure ProcInfo where
  pid : ℕ
  start : UInt64
  utime : UInt64
  stime : UInt64
  rsz : UInt64
  wsz : UInt64
  vmemKb : UInt64
  rmemKb : UInt64
  waitNs : UInt64
  comm : CString
  state : UInt8
  ioOk : Bool

structure ThreadInfo where
  tid : ℕ
  delay : UInt64
  deriving DecidableEq

/-- The previous sample, sorted. -/
structure ProcState where
  prevProcs : List ProcInfo
  prevThreads : List ThreadInfo

def ProcState.empty : ProcState := ⟨[], []⟩

def cmpPid (pid : ℕ) (p : ProcInfo) : ℤ := pid - p.pid

def cmpTid (tid : ℕ) (t : ThreadInfo) : ℤ := tid - t.tid

def findPrev (prevProcs : List ProcInfo) (pid : ℕ) : Option ProcInfo :=
  bsearch (cmpPid pid) prevProcs

/-- The delay of a thread since the previous sample, where `q` is the thread found
    there. -/
def delayDelta (q : Option ThreadInfo) (delay : UInt64) : UInt64 :=
  match q with
  | some q => if q.delay ≤ delay then delay - q.delay else delay
  | none => delay

/-- One entry of the loop of `read_run_delay`: `acc` is the delta so far and
    `cur_threads`. -/
def readThread (prevThreads : List ThreadInfo) (newProc : Bool) (acc : UInt64 × List ThreadInfo)
    (t : TaskEntry) : UInt64 × List ThreadInfo :=
  match t.schedstat with
  | none => acc
  | some (_, delay) =>
    let q := if newProc then none else bsearch (cmpTid t.tid) prevThreads
    (acc.1 + delayDelta q delay, acc.2 ++ [⟨t.tid, delay⟩])

def readRunDelay (prevThreads : List ThreadInfo) (task : Option (List TaskEntry)) (newProc : Bool)
    (curThreads : List ThreadInfo) : UInt64 × List ThreadInfo :=
  match task with
  | none => (0, curThreads)
  | some tasks => tasks.foldl (readThread prevThreads newProc) (0, curThreads)

/-- `!q || q->start != start` -/
def isNewProc (q : Option ProcInfo) (start : UInt64) : Bool :=
  match q with
  | none => true
  | some q => q.start != start

def readProc (opts : SampleOptions) (prev : ProcState) (e : ProcEntry) (curThreads : List ThreadInfo) :
    Option ProcInfo × List ThreadInfo :=
  match e.stat with
  | none => (none, curThreads)
  | some st =>
    match commOf (st.line e.pid) with
    | none => (none, curThreads)
    | some comm =>
      let wait := if opts.gPRW then
          readRunDelay prev.prevThreads e.task (isNewProc (findPrev prev.prevProcs e.pid) st.start)
            curThreads
        else (0, curThreads)
      let io := if opts.gPRD then e.io else none
      (some
        { pid := e.pid
          start := st.start
          utime := st.utime
          stime := st.stime
          rsz := (io.map fun v => v.1 / 512).getD 0
          wsz := (io.map fun v => v.2 / 512).getD 0
          vmemKb := st.vsize / 1024
          rmemKb := UInt64.ofNat st.rss.toNat * UInt64.ofNat (opts.pagesize / 1024)
          waitNs := wait.1
          comm := comm
          state := st.state
          ioOk := io.isSome }, wait.2)

/-- One entry of the loop of `sample_procs`: `acc` is `cur_procs` and
    `cur_threads`. -/
def gatherProc (opts : SampleOptions) (prev : ProcState) (acc : List ProcInfo × List ThreadInfo)
    (e : ProcEntry) : List ProcInfo × List ThreadInfo :=
  let r := readProc opts prev e acc.2
  (acc.1 ++ r.1.toList, r.2)

def gather (opts : SampleOptions) (prev : ProcState) (listing : List ProcEntry) :
    List ProcInfo × List ThreadInfo :=
  listing.foldl (gatherProc opts prev) ([], [])

/-- `qsort(…, cmp_pid)` -/
def sortProcs (procs : List ProcInfo) : List ProcInfo :=
  procs.mergeSort fun a b => a.pid ≤ b.pid

/-- `qsort(…, cmp_tid)` -/
def sortThreads (threads : List ThreadInfo) : List ThreadInfo :=
  threads.mergeSort fun a b => a.tid ≤ b.tid

/-- The sample that the next one is compared with (the buffers are swapped). -/
def nextState (opts : SampleOptions) (prev : ProcState) (listing : List ProcEntry) : ProcState :=
  let cur := gather opts prev listing
  { prevProcs := sortProcs cur.1
    prevThreads := if opts.gPRW then sortThreads cur.2 else prev.prevThreads }

/-! ## What a sample holds -/

/-- The thread that a task shows. -/
def TaskEntry.visible? (t : TaskEntry) : Option ThreadInfo :=
  t.schedstat.map fun s => ⟨t.tid, s.2⟩

/-- The threads that a sample sees of an entry. -/
def ProcEntry.threads (e : ProcEntry) : List ThreadInfo :=
  match e.stat with
  | none => []
  | some _ => (e.task.getD []).filterMap TaskEntry.visible?

/-- The previous record of a thread of the process. -/
def prevThread (prev : ProcState) (newProc : Bool) (tid : ℕ) : Option ThreadInfo :=
  if newProc then none else bsearch (cmpTid tid) prev.prevThreads

/-- The delay of the threads since the previous sample. -/
def runDelay (prev : ProcState) (newProc : Bool) (threads : List ThreadInfo) : UInt64 :=
  (threads.map fun t => delayDelta (prevThread prev newProc t.tid) t.delay).foldr (· + ·) 0

theorem foldl_readThread (prev : ProcState) (newProc : Bool) (tasks : List TaskEntry)
    (acc : UInt64 × List ThreadInfo) :
    tasks.foldl (readThread prev.prevThreads newProc) acc =
      (acc.1 + runDelay prev newProc (tasks.filterMap TaskEntry.visible?),
        acc.2 ++ tasks.filterMap TaskEntry.visible?) := by
  induction tasks generalizing acc with
  | nil =>
    show acc = (acc.1 + 0, acc.2 ++ [])
    rw [UInt64.add_zero, List.append_nil]
  | cons t tasks ih =>
    rw [List.foldl_cons, ih]
    unfold readThread
    cases hstat : t.schedstat with
    | none =>
      have hnone : t.visible? = none := by
        unfold TaskEntry.visible?
        rw [hstat]
        rfl
      rw [List.filterMap_cons_none hnone]
    | some s =>
      have hsome : t.visible? = some ⟨t.tid, s.2⟩ := by
        unfold TaskEntry.visible?
        rw [hstat]
        rfl
      rw [List.filterMap_cons_some hsome]
      unfold runDelay
      rw [List.map_cons, List.foldr_cons, ← UInt64.add_assoc, List.append_assoc]
      rfl

/-- **The delay of a process is that of its visible threads.** -/
theorem readRunDelay_eq (prev : ProcState) (newProc : Bool) (task : Option (List TaskEntry))
    (cur : List ThreadInfo) :
    readRunDelay prev.prevThreads task newProc cur =
      (runDelay prev newProc ((task.getD []).filterMap TaskEntry.visible?),
        cur ++ (task.getD []).filterMap TaskEntry.visible?) := by
  cases task with
  | none =>
    show (0, cur) = (0, cur ++ [])
    rw [List.append_nil]
  | some tasks =>
    show tasks.foldl _ _ = _
    rw [foldl_readThread, UInt64.zero_add]
    rfl

/-- The text before the name has no parenthesis. -/
theorem lparen_notMem_front (pid : ℕ) : lparen ∉ decimal pid ++ [32] := by
  intro h
  rcases List.mem_append.1 h with hdigit | hspace
  · exact absurd (isDigit_of_mem_decimal hdigit) (by decide)
  · exact absurd (List.mem_singleton.1 hspace) (by decide)

/-- Of the name of a process, the first 15 bytes are kept. -/
theorem commOf_line (st : ProcStat) (pid : ℕ) : commOf (st.line pid) = some (st.comm.take pnamLen) :=
  commOf_statLine (lparen_notMem_front pid) st.rest_clean

theorem ProcEntry.threads_some {e : ProcEntry} {st : ProcStat} (h : e.stat = some st) :
    e.threads = (e.task.getD []).filterMap TaskEntry.visible? := by
  unfold ProcEntry.threads
  rw [h]

theorem ProcEntry.threads_none {e : ProcEntry} (h : e.stat = none) : e.threads = [] := by
  unfold ProcEntry.threads
  rw [h]

/-- What the sample records of an entry. -/
def procInfo? (opts : SampleOptions) (prev : ProcState) (e : ProcEntry) : Option ProcInfo :=
  (readProc opts prev e []).1

theorem readProc_eq (opts : SampleOptions) (prev : ProcState) (e : ProcEntry) (cur : List ThreadInfo)
    (hw : opts.gPRW = true) : readProc opts prev e cur = (procInfo? opts prev e, cur ++ e.threads) := by
  unfold procInfo?
  cases hstat : e.stat with
  | none =>
    unfold readProc
    rw [hstat, e.threads_none hstat, List.append_nil]
  | some st =>
    unfold readProc
    simp only [hstat, commOf_line, hw, if_true, readRunDelay_eq, ← e.threads_some hstat]

/-- Of what the record of a process is made. -/
theorem readProc_info {opts : SampleOptions} {prev : ProcState} {e : ProcEntry} {cur : List ThreadInfo}
    {i : ProcInfo} (h : (readProc opts prev e cur).1 = some i) : i.pid = e.pid ∧ i.comm.length ≤ pnamLen := by
  unfold readProc at h
  cases hstat : e.stat with
  | none =>
    rw [hstat] at h
    cases h
  | some st =>
    simp only [hstat, commOf_line, Option.some.injEq] at h
    subst h
    exact ⟨rfl, List.length_take_le _ _⟩

/-- The record of a process does not depend on the threads seen so far. -/
theorem readProc_fst (opts : SampleOptions) (prev : ProcState) (e : ProcEntry) (cur : List ThreadInfo) :
    (readProc opts prev e cur).1 = procInfo? opts prev e := by
  unfold procInfo? readProc
  cases hstat : e.stat with
  | none => rfl
  | some st =>
    simp only [commOf_line, readRunDelay_eq]
    split_ifs <;> rfl

/-- The records of a sample, in the order of the directory. -/
theorem gather_fst (opts : SampleOptions) (prev : ProcState) (listing : List ProcEntry) :
    (gather opts prev listing).1 = listing.filterMap (procInfo? opts prev) := by
  have hfold : ∀ acc, (listing.foldl (gatherProc opts prev) acc).1 =
      acc.1 ++ listing.filterMap (procInfo? opts prev) := by
    induction listing with
    | nil => exact fun acc => (List.append_nil acc.1).symm
    | cons e listing ih =>
      intro acc
      rw [List.foldl_cons, ih]
      show acc.1 ++ (readProc opts prev e acc.2).1.toList ++ _ = _
      rw [readProc_fst, List.filterMap_cons, List.append_assoc]
      cases procInfo? opts prev e <;> rfl
  exact hfold ([], [])

/-- Every record of a sample is that of an entry. -/
theorem mem_gather {opts : SampleOptions} {prev : ProcState} {listing : List ProcEntry} {i : ProcInfo}
    (h : i ∈ (gather opts prev listing).1) :
    ∃ e ∈ listing, i.pid = e.pid ∧ i.comm.length ≤ pnamLen := by
  rw [gather_fst] at h
  obtain ⟨e, he, hi⟩ := List.mem_filterMap.1 h
  exact ⟨e, he, readProc_info hi⟩

/-- The record of a readable process. -/
theorem procInfo?_some (opts : SampleOptions) (prev : ProcState) {e : ProcEntry} {st : ProcStat}
    (h : e.stat = some st) (hw : opts.gPRW = true) :
    ∃ info, procInfo? opts prev e = some info ∧ info.pid = e.pid ∧ info.start = st.start ∧
      info.waitNs = runDelay prev (isNewProc (findPrev prev.prevProcs e.pid) st.start) e.threads := by
  unfold procInfo? readProc
  simp only [h, commOf_line, hw, if_true, readRunDelay_eq, ← e.threads_some h]
  exact ⟨_, rfl, rfl, rfl, rfl⟩

theorem procInfo?_none (opts : SampleOptions) (prev : ProcState) {e : ProcEntry} (h : e.stat = none) :
    procInfo? opts prev e = none := by
  unfold procInfo? readProc
  rw [h]

/-- **A sample holds every readable process and every visible thread.** -/
theorem gather_eq (opts : SampleOptions) (prev : ProcState) (listing : List ProcEntry)
    (hw : opts.gPRW = true) :
    gather opts prev listing =
      (listing.filterMap (procInfo? opts prev), listing.flatMap ProcEntry.threads) := by
  have hfold : ∀ acc, listing.foldl (gatherProc opts prev) acc =
      (acc.1 ++ listing.filterMap (procInfo? opts prev), acc.2 ++ listing.flatMap ProcEntry.threads) := by
    induction listing with
    | nil =>
      intro acc
      show acc = (acc.1 ++ [], acc.2 ++ [])
      rw [List.append_nil, List.append_nil]
    | cons e listing ih =>
      intro acc
      rw [List.foldl_cons, ih]
      unfold gatherProc
      rw [readProc_eq opts prev e acc.2 hw, List.filterMap_cons, List.flatMap_cons]
      cases procInfo? opts prev e <;> simp
  exact hfold ([], [])

end ServerlessYarn
