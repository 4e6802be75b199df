/-
  ServerlessYARN model — the samples of the lite feeder (`main` of lite_feeder.c).

  The first sample is a reference, and each later one sends the rates since the one
  before.  `sample_mem` keeps no counters, and is left out.

  * `sample_docs`: the documents of a sample;
  * `sample_exact`, `rates_exact`: no rate comes from a subtraction that wrapped, as
    long as no counter that is compared decreases;
  * `iowait_wraps`: otherwise it may, e.g. in `sys.cpu.wait`.
-/
import ServerlessYarn.FeederRates
import ServerlessYarn.Lib.Run

namespace ServerlessYarn

/-! ## The loop -/

/-- What the kernel shows; a file that cannot be opened is `none`. -/
structure KernelFiles where
  stat : Option (List StatLine)
  dev : Option (List NetLine)
  sys : SysNet
  proc : Option (List ProcEntry)

/-- A wake-up of the loop: the time, and the seconds since the previous one. -/
structure Reading extends KernelFiles where
  ts : ℤ
  elapsed : ℤ

/-- `iv` -/
def Reading.iv (r : Reading) : ℕ :=
  if r.elapsed < 1 then 1 else r.elapsed.toNat

/-- The previous counters, and the documents of `sys.cpu`, `sys.net` and `proc` sent so
    far. -/
structure FeederState where
  cpu : CpuState
  net : Option (List IfCounters)
  procs : ProcState
  sent : List RateDoc

section loop
variable (opts : RateOptions) (db : RateDoubles)

/-- The first sample, of all groups. -/
def reference (r : KernelFiles) : FeederState :=
  let cpu := sampleCpu opts db 0 0 r.stat .zero
  { cpu := cpu.2
    net := (sampleNet opts.toSampleOptions db.toDoubles r.sys 0 0 r.dev none).2
    procs := (sampleProcs opts.toSampleOptions db.toDoubles 0 0 r.proc .empty).2
    sent := cpu.1 ++ netRates opts.toSampleOptions db.toDoubles r.sys 0 0 r.dev none ++
      procsRates opts.toSampleOptions db.toDoubles 0 0 r.proc .empty }

/-- A group of `sample_procs` is on. -/
def procGroups : Bool :=
  opts.gPRC || opts.gPRM || opts.gPRD || opts.gPRW

/-- The documents of a sample. -/
def sampleRates (s : FeederState) (r : Reading) : List RateDoc :=
  (if opts.gCPU || opts.gcpu then (sampleCpu opts db r.ts r.iv r.stat s.cpu).1 else []) ++
  netRates opts.toSampleOptions db.toDoubles r.sys r.ts r.iv r.dev s.net ++
  (if procGroups opts then procsRates opts.toSampleOptions db.toDoubles r.ts r.iv r.proc s.procs else [])

/-- One iteration of the loop. -/
def sample (s : FeederState) (r : Reading) : FeederState where
  cpu := if opts.gCPU || opts.gcpu then (sampleCpu opts db r.ts r.iv r.stat s.cpu).2 else s.cpu
  net := (sampleNet opts.toSampleOptions db.toDoubles r.sys r.ts r.iv r.dev s.net).2
  procs := if procGroups opts then
      (sampleProcs opts.toSampleOptions db.toDoubles r.ts r.iv r.proc s.procs).2 else s.procs
  sent := s.sent ++ sampleRates opts db s r

def SampleStep (s : FeederState) (r : Reading) (s' : FeederState) : Prop :=
  s' = sample opts db s r

end loop

/-- No counter that is compared decreased since the previous sample. -/
structure Reading.Forward (opts : RateOptions) (s : FeederState) (r : Reading) : Prop where
  cpu : ∀ lines ∈ r.stat, CpuForward opts (readCpu lines) s.cpu
  net : ∀ lines ∈ r.dev, ∀ prevIfs ∈ s.net, NetForward opts.toSampleOptions lines prevIfs
  procs : ∀ entries ∈ r.proc, ProcsForward opts.toSampleOptions entries s.procs

/-! ## The documents -/

section rates
variable {opts : RateOptions} {db : RateDoubles} {s : FeederState} {r : Reading}

theorem Reading.iv_pos (r : Reading) : 0 < r.iv := by
  unfold iv
  split_ifs <;> omega

/-- **The documents of a sample** are those of its three parts. -/
theorem sample_docs :
    (sampleRates opts db s r).map RateDoc.doc =
      (if opts.gCPU || opts.gcpu then
        (sampleCpu opts db r.ts r.iv r.stat s.cpu).1.map RateDoc.doc else []) ++
      (sampleNet opts.toSampleOptions db.toDoubles r.sys r.ts r.iv r.dev s.net).1 ++
      (if procGroups opts then
        (sampleProcs opts.toSampleOptions db.toDoubles r.ts r.iv r.proc s.procs).1 else []) := by
  unfold sampleRates
  rw [List.map_append, List.map_append, netRates_docs, ← procsRates_docs]
  congr 2
  · split_ifs <;> rfl
  · split_ifs <;> rfl

/-- The reference sends nothing. -/
theorem reference_sent (first : KernelFiles) : (reference opts db first).sent = [] := by
  have hcpu : (sampleCpu opts db 0 0 first.stat .zero).1 = [] := by
    cases first.stat with
    | none => rfl
    | some lines =>
      show cpuRates opts db 0 0 (readCpu lines) .zero = []
      unfold cpuRates
      simp
  have hnet : netRates opts.toSampleOptions db.toDoubles first.sys 0 0 first.dev none = [] := by
    cases first.dev <;> rfl
  have hprocs : procsRates opts.toSampleOptions db.toDoubles 0 0 first.proc .empty = [] := by
    cases first.proc <;> rfl
  show _ ++ _ ++ _ = []
  rw [hcpu, hnet, hprocs]
  rfl

/-- **No rate of a sample wraps** if no counter that is compared decreases. -/
theorem sample_exact (h : r.Forward opts s) : ∀ a ∈ sampleRates opts db s r, a.Exact := by
  unfold sampleRates
  rw [List.forall_mem_append, List.forall_mem_append]
  refine ⟨⟨?_, ?_⟩, ?_⟩
  · exact forall_mem_ite_nil_iff.2 fun _ => (sampleCpu_exact_iff r.iv_pos _ _).2 h.cpu
  · exact (netRates_exact_iff r.iv_pos _ _).2 h.net
  · exact forall_mem_ite_nil_iff.2 fun _ => procsRates_exact h.procs

/-- Without the groups of `sample_procs`, this is exactly when. -/
theorem sample_exact_iff (hprocs : procGroups opts = false) :
    (∀ a ∈ sampleRates opts db s r, a.Exact) ↔ r.Forward opts s := by
  constructor
  · intro h
    unfold sampleRates at h
    rw [List.forall_mem_append, List.forall_mem_append, forall_mem_ite_nil_iff] at h
    obtain ⟨⟨hcpu, hnet⟩, -⟩ := h
    unfold procGroups at hprocs
    simp only [Bool.or_eq_false_iff] at hprocs
    obtain ⟨⟨⟨hPRC, -⟩, hPRD⟩, -⟩ := hprocs
    refine ⟨fun lines hlines => ?_, (netRates_exact_iff r.iv_pos _ _).1 hnet, fun entries _ e _ p _ _ => ?_⟩
    · constructor
      · intro hCPU
        exact ((sampleCpu_exact_iff r.iv_pos _ _).1 (hcpu (by simp [hCPU])) lines hlines).total hCPU
      · intro hgcpu
        exact ((sampleCpu_exact_iff r.iv_pos _ _).1 (hcpu (by simp [hgcpu])) lines hlines).cores hgcpu
    · constructor
      · intro hon
        exact absurd hon (by simp [hPRC])
      · intro hon
        exact absurd hon (by simp [hPRD])
  · exact sample_exact

end rates

/-- **No rate of a run wraps** if at every sample no counter that is compared has
    decreased since the previous one. -/
theorem rates_exact {opts : RateOptions} {db : RateDoubles} {first : KernelFiles} {rs : List Reading}
    {s : FeederState}
    (h : Run (fun s r s' => SampleStep opts db s r s' ∧ r.Forward opts s) (reference opts db first) rs s) :
    ∀ a ∈ s.sent, a.Exact := by
  refine h.inv (I := fun s => ∀ a ∈ s.sent, a.Exact) ?_ ?_
  · rintro s r _ hs ⟨rfl, hforward⟩
    exact List.forall_mem_append.2 ⟨hs, sample_exact hforward⟩
  · rw [reference_sent]
    exact List.forall_mem_nil _

/-! ## A node with one core, one interface and one process -/

/-- What `%.2f` prints for a fraction. -/
def roundedPrinted (num den : ℕ) : Printed :=
  ⟨(200 * num + den) / (2 * den) % 10 ^ 40, Nat.mod_lt _ (Nat.pow_pos (Nat.succ_pos 9))⟩

/-- The rates at 100 ticks a second. -/
def rationalDoubles : RateDoubles where
  cpu ticks iv := roundedPrinted ticks.toNat iv
  wait ns iv := roundedPrinted (ns.toNat * 100) (10 ^ 9 * iv)
  mb kb := roundedPrinted kb.toNat 1024
  disk sectors iv := roundedPrinted (sectors.toNat * 512) (iv * 1048576)
  net bits iv := roundedPrinted bits.toNat (iv * 1048576)
  upper iv := roundedPrinted 8 (iv * 1048576)
  upperUsage v := roundedPrinted v.hundredths 1
  usage i o speed duplex := roundedPrinted (i.hundredths + o.hundredths) (speed.toNat * if duplex then 2 else 1)
  busy ticks ncpu iv := roundedPrinted (ticks.toNat * 100) (ncpu * 100 * iv)
  percent ticks iv := roundedPrinted (ticks.toNat * 100) (iv * 100)
  percentSum ticks ticks' iv := roundedPrinted ((ticks.toNat + ticks'.toNat) * 100) (iv * 100)

theorem node2_length : (ascii "node2").length < 512 := by decide

def node2Options : RateOptions := ⟨⟨true, true, true, true, true, 4096, ascii "node2", node2_length⟩, true, true⟩

/-- The core after `ticks` ticks in each mode but `wait` ticks in `iowait`. -/
def node2Stat (ticks wait : UInt64) : List StatLine :=
  [⟨true, -1, ⟨ticks, ticks, ticks, ticks, wait, false⟩⟩, ⟨true, 0, ⟨ticks, ticks, ticks, ticks, wait, false⟩⟩,
    ⟨false, -1, .zero⟩]

theorem two_lt_pid : 2 < 2 ^ 31 := by decide

/-- The process 2 after `ticks` ticks, which read and wrote `io` bytes. -/
def node2Proc (ticks io : UInt64) : ProcEntry where
  pid := 2
  pid_lt := two_lt_pid
  stat := some ⟨ascii "stress", [], List.not_mem_nil, 82, ticks, ticks, 1, 20971520, 5120⟩
  task := some [⟨2, some (0, ticks)⟩]
  io := some (io, io)

/-- The files after `ticks` ticks, `wait` ticks in `iowait` and `bytes` bytes in each
    direction. -/
def node2Files (ticks wait bytes : UInt64) : KernelFiles where
  stat := some (node2Stat ticks wait)
  dev := some [⟨ascii "  eth0: 0 0 0 0 0 0 0 0 0", some (bytes, bytes)⟩]
  sys := ⟨fun _ => some 1000, fun _ => some (ascii "full\n")⟩
  proc := some [node2Proc ticks bytes]

def node2Reading (ticks wait bytes : UInt64) : Reading :=
  ⟨node2Files ticks wait bytes, 1700000005, 5⟩

theorem node2_forward :
    (node2Reading 50 10 5242880).Forward node2Options (reference node2Options rationalDoubles (node2Files 0 0 0)) where
  cpu := by
    rintro _ ⟨⟩
    constructor
    · intro _ _ _
      constructor <;> decide +kernel
    · intro _ i hi _ _
      have hmax : (readCpu (node2Stat 50 10)).maxcore = 0 := by decide +kernel
      obtain rfl : i = 0 := by
        rw [hmax] at hi
        omega
      constructor
      · constructor <;> decide +kernel
      · decide +kernel
  net := by
    rintro _ ⟨⟩ _ ⟨⟩
    unfold NetForward
    decide +kernel
  procs := by
    have hproc : ∀ e ∈ [node2Proc 50 5242880], ∀ p ∈ procInfo? node2Options.toSampleOptions
        (reference node2Options rationalDoubles (node2Files 0 0 0)).procs e,
        ∀ q ∈ p.before? (reference node2Options rationalDoubles (node2Files 0 0 0)).procs.prevProcs,
          (q.utime ≤ p.utime ∧ q.stime ≤ p.stime) ∧ q.rsz ≤ p.rsz ∧ q.wsz ≤ p.wsz := by
      decide +kernel
    rintro _ ⟨⟩ e he p hp _
    constructor
    · intro _ _ q hq
      exact (hproc e he p hp q hq).1
    · intro _ _ _ q hq _
      exact (hproc e he p hp q hq).2

/-- Everything went on, and a rate of every kind is sent. -/
theorem node2_rates_exact : ∃ s,
    Run (SampleStep node2Options rationalDoubles) (reference node2Options rationalDoubles (node2Files 0 0 0))
        [node2Reading 50 10 5242880] s ∧
      s.sent.length = 21 ∧ ∀ a ∈ s.sent, a.Exact := by
  exact ⟨_, .single rfl, by decide +kernel, rates_exact (.single ⟨rfl, node2_forward⟩)⟩

/-- The kernel lowers `iowait` from 10 to 5 ticks, and `sys.cpu.wait` is computed from
    2^64 − 5. -/
theorem iowait_wraps : ∃ s,
    Run (SampleStep node2Options rationalDoubles) (reference node2Options rationalDoubles (node2Files 0 10 0))
        [node2Reading 50 5 5242880] s ∧
      ∃ a ∈ s.sent, a.doc.metric = ascii "sys.cpu.wait" ∧ a.differences = [⟨5, 10⟩] ∧
        (Difference.mk 5 10).value.toNat = 2 ^ 64 - 5 ∧ ¬ a.Exact := by
  refine ⟨_, .single rfl, ?_⟩
  obtain ⟨a, ha, hmetric, hdiff⟩ : ∃ a ∈ (sample node2Options rationalDoubles
      (reference node2Options rationalDoubles (node2Files 0 10 0)) (node2Reading 50 5 5242880)).sent,
      a.doc.metric = ascii "sys.cpu.wait" ∧ a.differences = [⟨5, 10⟩] := by
    decide +kernel
  refine ⟨a, ha, hmetric, hdiff, rfl, fun hexact => ?_⟩
  have hwait : (Difference.mk 5 10).Exact := hexact ⟨5, 10⟩ (by rw [hdiff]; exact List.mem_singleton_self _)
  exact absurd hwait (by decide)

end ServerlessYarn
