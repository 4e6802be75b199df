/-
  ServerlessYARN model — the subtractions behind the documents of `sample_net` and
  `sample_procs` (lite_feeder.c).

  The documents are those of `FeederDocs.lean`, each with the subtractions that its
  value is computed from.

  * `netRates_docs`, `procsRates_docs`: these are the documents;
  * `netRates_exact_iff`: when all the subtractions of `sample_net` are exact;
  * `procsRates_exact`: counters that do not decrease are enough in `sample_procs`;
    the delays of the threads need nothing (`delayDifference_exact`).
-/
import ServerlessYarn.FeederCpu

namespace ServerlessYarn

/-! ## Interfaces -/

/-- The documents of an interface, `ifDocs`. -/
def ifRates (opts : SampleOptions) (db : Doubles) (sys : SysNet) (ts : ℤ) (iv : ℕ) (cur p : IfCounters) :
    List RateDoc :=
  let speed := readSpeed sys cur.name
  let received : Difference := ⟨cur.rx, p.rx⟩
  let sent : Difference := ⟨cur.tx, p.tx⟩
  let inS := db.net (received.value * 8) iv
  let outS := db.net (sent.value * 8) iv
  List.zipWith RateDoc.mk
    (netDocs opts.hostTag cur.name ts inS.text outS.text
      (if 0 < speed then (db.usage inS outS speed (readDuplex sys cur.name)).text else decimal speed))
    [[received], [sent], if 0 < speed then [received, sent] else []]

/-- The calls of `add_doc` in `sample_net`. -/
def netRates (opts : SampleOptions) (db : Doubles) (sys : SysNet) (ts : ℤ) (iv : ℕ)
    (file : Option (List NetLine)) (prev : Option (List IfCounters)) : List RateDoc :=
  match file, prev with
  | some lines, some prevIfs =>
    if 0 < iv ∧ opts.gNET = true then
      -- the values of the upper devices are constants
      ([ascii "transport", ascii "network"].flatMap (upperDocs opts db ts iv)).map (RateDoc.mk · []) ++
        (currentIfs lines).flatMap fun c => ((prevIfs.find? fun p => p.name == c.name).map
          (ifRates opts db sys ts iv c)).getD []
    else []
  | _, _ => []

/-- No interface that was there before has received or sent less than before. -/
def NetForward (opts : SampleOptions) (lines : List NetLine) (prevIfs : List IfCounters) : Prop :=
  opts.gNET → ∀ c ∈ currentIfs lines, ∀ p ∈ prevIfs.find? fun p => p.name == c.name,
    p.rx ≤ c.rx ∧ p.tx ≤ c.tx

/-- **The documents of `sample_net`.** -/
theorem netRates_docs (opts : SampleOptions) (db : Doubles) (sys : SysNet) (ts : ℤ) (iv : ℕ)
    (file : Option (List NetLine)) (prev : Option (List IfCounters)) :
    (netRates opts db sys ts iv file prev).map RateDoc.doc = (sampleNet opts db sys ts iv file prev).1 := by
  cases file with
  | none => rfl
  | some lines =>
    cases prev with
    | none => rfl
    | some prevIfs =>
      unfold netRates sampleNet
      simp only
      split_ifs with hon
      · have hupper : ∀ docs : List DocArgs, (docs.map (RateDoc.mk · [])).map RateDoc.doc = docs := by
          intro docs
          rw [List.map_map]
          exact List.map_id docs
        rw [List.map_append, hupper, List.map_flatMap]
        congr 2
        funext c
        cases prevIfs.find? fun p => p.name == c.name <;> rfl
      · rfl

theorem ifRates_exact_iff (opts : SampleOptions) (db : Doubles) (sys : SysNet) (ts : ℤ) (iv : ℕ)
    (cur p : IfCounters) :
    (∀ r ∈ ifRates opts db sys ts iv cur p, r.Exact) ↔ p.rx ≤ cur.rx ∧ p.tx ≤ cur.tx := by
  have hreceived := Difference.exact_iff ⟨cur.rx, p.rx⟩
  have hsent := Difference.exact_iff ⟨cur.tx, p.tx⟩
  unfold ifRates netDocs RateDoc.Exact
  simp only [List.zipWith_cons_cons, List.zipWith_nil_left, List.forall_mem_cons, List.not_mem_nil,
    IsEmpty.forall_iff, implies_true, and_true, forall_mem_ite_nil_iff, hreceived, hsent]
  exact ⟨fun h => ⟨h.1, h.2.1⟩, fun h => ⟨h.1, h.2, fun _ => h⟩⟩

/-- **When no subtraction of `sample_net` wraps.** -/
theorem netRates_exact_iff {opts : SampleOptions} {db : Doubles} {sys : SysNet} {ts : ℤ} {iv : ℕ}
    (hiv : 0 < iv) (file : Option (List NetLine)) (prev : Option (List IfCounters)) :
    (∀ r ∈ netRates opts db sys ts iv file prev, r.Exact) ↔
      ∀ lines ∈ file, ∀ prevIfs ∈ prev, NetForward opts lines prevIfs := by
  cases file with
  | none => exact ⟨fun _ _ h => (Option.not_mem_none _ h).elim, fun _ _ h => absurd h List.not_mem_nil⟩
  | some lines =>
    cases prev with
    | none =>
      exact ⟨fun _ _ _ _ h => (Option.not_mem_none _ h).elim, fun _ _ h => absurd h List.not_mem_nil⟩
    | some prevIfs =>
      unfold netRates
      simp only [Option.mem_some_iff, forall_eq', forall_mem_ite_nil_iff, List.forall_mem_append,
        List.forall_mem_map, List.forall_mem_flatMap]
      constructor
      · intro h hNET c hc p hp
        refine (ifRates_exact_iff opts db sys ts iv c p).1 fun r hr => (h ⟨hiv, hNET⟩).2 c hc r ?_
        rw [hp]
        exact hr
      · rintro h ⟨-, hNET⟩
        constructor
        · rintro _ _ _ _ _ ⟨⟩
        · intro c hc r hr
          cases hfound : prevIfs.find? fun p => p.name == c.name with
          | none =>
            rw [hfound] at hr
            cases hr
          | some p =>
            rw [hfound] at hr
            exact (ifRates_exact_iff _ _ _ _ _ c p).2 (h hNET c hc p hfound) r hr

/-! ## Delays of threads -/

/-- The subtraction of `delayDelta`. -/
def delayDifference (q : Option ThreadInfo) (delay : UInt64) : Difference :=
  match q with
  | some q => if q.delay ≤ delay then ⟨delay, q.delay⟩ else ⟨delay, 0⟩
  | none => ⟨delay, 0⟩

theorem delayDifference_value (q : Option ThreadInfo) (delay : UInt64) :
    (delayDifference q delay).value = delayDelta q delay := by
  unfold delayDifference delayDelta
  cases q with
  | none => exact UInt64.sub_zero delay
  | some q =>
    simp only
    split_ifs
    · rfl
    · exact UInt64.sub_zero delay

/-- **A thread whose delay decreased counts since its start.** -/
theorem delayDifference_exact (q : Option ThreadInfo) (delay : UInt64) : (delayDifference q delay).Exact := by
  unfold delayDifference
  cases q with
  | none => exact Difference.exact_of_zero delay
  | some q =>
    simp only
    split_ifs with hle
    · exact (Difference.exact_iff _).2 hle
    · exact Difference.exact_of_zero delay

def delayDifferences (prev : ProcState) (newProc : Bool) (threads : List ThreadInfo) : List Difference :=
  threads.map fun t => delayDifference (prevThread prev newProc t.tid) t.delay

/-- The sum of what the code computes. -/
def totalValue (ds : List Difference) : UInt64 :=
  (ds.map Difference.value).foldr (· + ·) 0

theorem totalValue_delayDifferences (prev : ProcState) (newProc : Bool) (threads : List ThreadInfo) :
    totalValue (delayDifferences prev newProc threads) = runDelay prev newProc threads := by
  unfold totalValue delayDifferences runDelay
  rw [List.map_map]
  congr 2
  funext t
  exact delayDifference_value _ _

/-! ## Records of processes -/

/-- What a sample records of a process, with the subtractions behind its `wait_ns`. -/
structure ProcRecord where
  info : ProcInfo
  delays : List Difference

def procRecord? (opts : SampleOptions) (prev : ProcState) (e : ProcEntry) : Option ProcRecord :=
  (procInfo? opts prev e).map fun i =>
    ⟨i, if opts.gPRW then
      delayDifferences prev (isNewProc (findPrev prev.prevProcs i.pid) i.start) e.threads else []⟩

/-- The records of a sample, sorted. -/
def sampleRecords (opts : SampleOptions) (prev : ProcState) (listing : List ProcEntry) : List ProcRecord :=
  (listing.filterMap (procRecord? opts prev)).mergeSort fun a b => a.info.pid ≤ b.info.pid

theorem procInfo?_waitNs {opts : SampleOptions} {prev : ProcState} {e : ProcEntry} {i : ProcInfo}
    (h : procInfo? opts prev e = some i) :
    i.waitNs = if opts.gPRW then
      runDelay prev (isNewProc (findPrev prev.prevProcs i.pid) i.start) e.threads else 0 := by
  cases hstat : e.stat with
  | none =>
    rw [procInfo?_none opts prev hstat] at h
    cases h
  | some st =>
    unfold procInfo? readProc at h
    simp only [hstat, commOf_line, readRunDelay_eq, ← e.threads_some hstat, Option.some.injEq] at h
    subst h
    simp only
    split_ifs <;> rfl

/-- The `wait_ns` of a record is the sum of its subtractions. -/
theorem waitNs_of_record {opts : SampleOptions} {prev : ProcState} {e : ProcEntry} {r : ProcRecord}
    (h : procRecord? opts prev e = some r) : totalValue r.delays = r.info.waitNs := by
  obtain ⟨i, hi, rfl⟩ := Option.map_eq_some_iff.1 h
  rw [procInfo?_waitNs hi]
  simp only
  split_ifs
  · exact totalValue_delayDifferences _ _ _
  · rfl

theorem delays_exact {opts : SampleOptions} {prev : ProcState} {e : ProcEntry} {r : ProcRecord}
    (h : procRecord? opts prev e = some r) : ∀ d ∈ r.delays, d.Exact := by
  obtain ⟨i, -, rfl⟩ := Option.map_eq_some_iff.1 h
  refine forall_mem_ite_nil_iff.2 fun _ => ?_
  unfold delayDifferences
  rw [List.forall_mem_map]
  exact fun t _ => delayDifference_exact _ _

theorem mem_sampleRecords {opts : SampleOptions} {prev : ProcState} {listing : List ProcEntry}
    {r : ProcRecord} (h : r ∈ sampleRecords opts prev listing) :
    ∃ e ∈ listing, procRecord? opts prev e = some r :=
  List.mem_filterMap.1 (List.mem_mergeSort.1 h)

/-- The records are those of the sample. -/
theorem sampleRecords_info (opts : SampleOptions) (prev : ProcState) (listing : List ProcEntry) :
    (sampleRecords opts prev listing).map ProcRecord.info = (nextState opts prev listing).prevProcs := by
  have hinfo : ∀ e, (procRecord? opts prev e).map ProcRecord.info = procInfo? opts prev e := by
    intro e
    unfold procRecord?
    rw [Option.map_map]
    exact Option.map_id_apply
  have hsort : (sampleRecords opts prev listing).map ProcRecord.info =
      sortProcs ((listing.filterMap (procRecord? opts prev)).map ProcRecord.info) :=
    List.map_mergeSort fun _ _ _ _ => rfl
  rw [hsort, List.map_filterMap]
  simp only [hinfo]
  rw [← gather_fst]
  rfl

/-! ## Processes -/

/-- The record that the counters of the process are compared with. -/
def ProcInfo.before? (prevProcs : List ProcInfo) (p : ProcInfo) : Option ProcInfo :=
  (findPrev prevProcs p.pid).filter fun q => q.start == p.start

/-- A call of `add_doc` in `sample_procs`. -/
def procRate (metric : String) (ts : ℤ) (value : Printed) (tags : CString) (differences : List Difference) :
    RateDoc :=
  ⟨⟨ascii metric, ts, value.text, tags⟩, differences⟩

/-- The documents of a process, `procValues`. -/
def procRates (opts : SampleOptions) (db : Doubles) (prevProcs : List ProcInfo) (ts : ℤ) (iv : ℕ)
    (tags : CString) (r : ProcRecord) : List RateDoc :=
  let p := r.info
  let cmd := procCmd p.comm
  let q := p.before? prevProcs
  let excluded := commandExcluded cmd prcPrmExcluded
  let du : Difference := ⟨p.utime, (q.map ProcInfo.utime).getD 0⟩
  let ds : Difference := ⟨p.stime, (q.map ProcInfo.stime).getD 0⟩
  let user := db.cpu du.value iv
  let kernel := db.cpu ds.value iv
  let cpuSent := !excluded && 5 ≤ user.hundredths + kernel.hundredths
  let wait := db.wait (totalValue r.delays) iv
  let vmem := db.mb p.vmemKb
  let rmem := db.mb p.rmemKb
  let qIo := q.filter ProcInfo.ioOk
  let dr : Difference := ⟨p.rsz, (qIo.map ProcInfo.rsz).getD 0⟩
  let dw : Difference := ⟨p.wsz, (qIo.map ProcInfo.wsz).getD 0⟩
  let reads := db.disk (if p.ioOk then dr.value else 0) iv
  let writes := db.disk (if p.ioOk then dw.value else 0) iv
  (if opts.gPRC && cpuSent then
    [procRate "proc.cpu.user" ts user tags [du], procRate "proc.cpu.kernel" ts kernel tags [ds]] else []) ++
  (if opts.gPRW && !excluded && (cpuSent || 5 ≤ wait.hundredths) then
    [procRate "proc.cpu.wait" ts wait tags r.delays] else []) ++
  (if opts.gPRM && 1000 ≤ vmem.hundredths && 1000 ≤ rmem.hundredths then
    [procRate "proc.mem.virtual" ts vmem tags [], procRate "proc.mem.resident" ts rmem tags []] else []) ++
  (if opts.gPRD && !commandExcluded cmd prdExcluded &&
      (cmd == ascii "(systemd)" || 5 ≤ reads.hundredths + writes.hundredths) then
    [procRate "proc.disk.reads.mb" ts reads tags (if p.ioOk then [dr] else []),
      procRate "proc.disk.writes.mb" ts writes tags (if p.ioOk then [dw] else [])] else [])

/-- One process of the loop of `sample_procs`, `procDocs`. -/
def procRateDocs (opts : SampleOptions) (db : Doubles) (prevProcs : List ProcInfo) (ts : ℤ) (iv : ℕ)
    (r : ProcRecord) : List RateDoc :=
  if procSkipped opts r.info.comm then []
  else
    procRates opts db prevProcs ts iv
      (procTags opts.hostTag r.info.pid (processString (procCmd r.info.comm) 256)) r

/-- The calls of `add_doc` in `sample_procs`. -/
def procsRates (opts : SampleOptions) (db : Doubles) (ts : ℤ) (iv : ℕ) (listing : Option (List ProcEntry))
    (prev : ProcState) : List RateDoc :=
  match listing with
  | none => []
  | some entries =>
    if 0 < iv then
      (sampleRecords opts prev entries).flatMap (procRateDocs opts db prev.prevProcs ts iv) else []

/-- The counters that are compared did not decrease, for a process that was there
    before. -/
structure ProcInfo.Forward (opts : SampleOptions) (prevProcs : List ProcInfo) (p : ProcInfo) : Prop where
  cpu : opts.gPRC → commandExcluded (procCmd p.comm) prcPrmExcluded = false →
    ∀ q ∈ p.before? prevProcs, q.utime ≤ p.utime ∧ q.stime ≤ p.stime
  disk : opts.gPRD → commandExcluded (procCmd p.comm) prdExcluded = false → p.ioOk →
    ∀ q ∈ p.before? prevProcs, q.ioOk → q.rsz ≤ p.rsz ∧ q.wsz ≤ p.wsz

/-- So for every process that is not skipped. -/
def ProcsForward (opts : SampleOptions) (listing : List ProcEntry) (prev : ProcState) : Prop :=
  ∀ e ∈ listing, ∀ p ∈ procInfo? opts prev e, procSkipped opts p.comm = false →
    p.Forward opts prev.prevProcs

theorem procRates_docs (opts : SampleOptions) (db : Doubles) (prevProcs : List ProcInfo) (ts : ℤ) (iv : ℕ)
    (tags : CString) {r : ProcRecord} (h : totalValue r.delays = r.info.waitNs) :
    (procRates opts db prevProcs ts iv tags r).map RateDoc.doc =
      (procValues opts db prevProcs iv r.info).map fun v => ⟨ascii v.1, ts, v.2.text, tags⟩ := by
  unfold procRates procValues procRate ProcInfo.before? Difference.value
  simp only [List.map_append, apply_ite (List.map _), List.map_cons, List.map_nil, h]

/-- **The documents of `sample_procs`.** -/
theorem procsRates_docs (opts : SampleOptions) (db : Doubles) (ts : ℤ) (iv : ℕ)
    (listing : Option (List ProcEntry)) (prev : ProcState) :
    (procsRates opts db ts iv listing prev).map RateDoc.doc = (sampleProcs opts db ts iv listing prev).1 := by
  cases listing with
  | none => rfl
  | some entries =>
    unfold procsRates sampleProcs
    simp only
    split_ifs
    · rw [← sampleRecords_info, List.flatMap_map, List.map_flatMap]
      refine List.flatMap_congr fun r hr => ?_
      obtain ⟨e, -, he⟩ := mem_sampleRecords hr
      unfold procRateDocs procDocs
      split_ifs
      · rfl
      · exact procRates_docs _ _ _ _ _ _ (waitNs_of_record he)
    · rfl

/-- What is compared with the previous record, or counted since the start. -/
theorem exact_getD {cur : UInt64} {q : Option ProcInfo} {counter : ProcInfo → UInt64}
    (h : ∀ i ∈ q, counter i ≤ cur) : (Difference.mk cur ((q.map counter).getD 0)).Exact := by
  cases q with
  | none => exact Difference.exact_of_zero cur
  | some i => exact (Difference.exact_iff _).2 (h i rfl)

theorem procRates_exact {opts : SampleOptions} {db : Doubles} {prevProcs : List ProcInfo} {ts : ℤ} {iv : ℕ}
    {tags : CString} {r : ProcRecord} (hdelays : ∀ d ∈ r.delays, d.Exact)
    (h : r.info.Forward opts prevProcs) : ∀ a ∈ procRates opts db prevProcs ts iv tags r, a.Exact := by
  unfold procRates
  simp only [List.forall_mem_append, forall_mem_ite_nil_iff]
  refine ⟨⟨⟨fun hsent => ?_, fun _ => ?_⟩, fun _ => ?_⟩, fun hsent => ?_⟩
  · simp only [Bool.and_eq_true, Bool.not_eq_true'] at hsent
    have hcpu := h.cpu hsent.1 hsent.2.1
    rw [List.forall_mem_cons, List.forall_mem_singleton]
    exact ⟨List.forall_mem_singleton.2 (exact_getD fun q hq => (hcpu q hq).1),
      List.forall_mem_singleton.2 (exact_getD fun q hq => (hcpu q hq).2)⟩
  · exact List.forall_mem_singleton.2 hdelays
  · rw [List.forall_mem_cons, List.forall_mem_singleton]
    exact ⟨List.forall_mem_nil _, List.forall_mem_nil _⟩
  · simp only [Bool.and_eq_true, Bool.not_eq_true'] at hsent
    have hdisk : r.info.ioOk → ∀ q ∈ (r.info.before? prevProcs).filter ProcInfo.ioOk,
        q.rsz ≤ r.info.rsz ∧ q.wsz ≤ r.info.wsz := by
      intro hio q hq
      obtain ⟨hq, hqio⟩ := Option.mem_filter_iff.1 hq
      exact h.disk hsent.1.1 hsent.1.2 hio q hq hqio
    rw [List.forall_mem_cons, List.forall_mem_singleton]
    constructor
    · exact forall_mem_ite_nil_iff.2 fun hio =>
        List.forall_mem_singleton.2 (exact_getD fun q hq => (hdisk hio q hq).1)
    · exact forall_mem_ite_nil_iff.2 fun hio =>
        List.forall_mem_singleton.2 (exact_getD fun q hq => (hdisk hio q hq).2)

/-- **No subtraction of `sample_procs` wraps** if the counters that it compares do not
    decrease. -/
theorem procsRates_exact {opts : SampleOptions} {db : Doubles} {ts : ℤ} {iv : ℕ}
    {listing : Option (List ProcEntry)} {prev : ProcState}
    (h : ∀ entries ∈ listing, ProcsForward opts entries prev) :
    ∀ a ∈ procsRates opts db ts iv listing prev, a.Exact := by
  cases listing with
  | none => exact List.forall_mem_nil _
  | some entries =>
    refine forall_mem_ite_nil_iff.2 fun _ => List.forall_mem_flatMap.2 fun r hr => ?_
    obtain ⟨e, he, hrecord⟩ := mem_sampleRecords hr
    unfold procRateDocs
    split_ifs with hskip
    · exact List.forall_mem_nil _
    · refine procRates_exact (delays_exact hrecord) (h entries rfl e he r.info ?_ (by simpa using hskip))
      obtain ⟨i, hi, rfl⟩ := Option.map_eq_some_iff.1 hrecord
      exact hi

end ServerlessYarn
