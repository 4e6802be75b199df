/-
  ServerlessYARN model — `sample_cpu` (lite_feeder.c).

  The counters of the kernel are compared with those of the previous sample by
  subtractions of machine words.  A document is recorded together with the
  subtractions that its value is computed from.

  * `Difference.exact_iff`: a subtraction is exact iff the counter did not decrease;
  * `sampleCpu_exact_iff`: when all the subtractions of a sample are exact.
-/
import ServerlessYarn.FeederDocs
import Mathlib.Logic.Function.Basic

namespace ServerlessYarn

/-! ## Subtractions of counters -/

/-- A counter of this sample, and what is subtracted from it. -/
structure Difference where
  cur : UInt64
  prev : UInt64
  deriving DecidableEq

/-- What the code computes. -/
def Difference.value (d : Difference) : UInt64 := d.cur - d.prev

/-- It is the difference of the numbers. -/
def Difference.Exact (d : Difference) : Prop :=
  (d.value.toNat : ℤ) = d.cur.toNat - d.prev.toNat

instance (d : Difference) : Decidable d.Exact :=
  Int.instDecidableEq _ _

/-- **A subtraction is exact iff the counter did not decrease.** -/
theorem Difference.exact_iff (d : Difference) : d.Exact ↔ d.prev ≤ d.cur := by
  unfold Exact value
  constructor
  · intro h
    rw [UInt64.le_iff_toNat_le]
    omega
  · intro hle
    have hnat : d.prev.toNat ≤ d.cur.toNat := UInt64.le_iff_toNat_le.1 hle
    rw [UInt64.toNat_sub_of_le _ _ hle]
    omega

/-- What is counted since the start is exact. -/
theorem Difference.exact_of_zero (cur : UInt64) : (Difference.mk cur 0).Exact :=
  (Difference.exact_iff _).2 UInt64.zero_le

/-- A call of `add_doc`, and the subtractions that its value is computed from. -/
structure RateDoc where
  doc : DocArgs
  differences : List Difference

/-- No subtraction wrapped. -/
def RateDoc.Exact (r : RateDoc) : Prop :=
  ∀ d ∈ r.differences, d.Exact

/-! ## The counters of the processors -/

/-- `cpu_counters` -/
structure CpuCounters where
  user : UInt64
  nice : UInt64
  sys : UInt64
  idle : UInt64
  wait : UInt64
  valid : Bool

def CpuCounters.zero : CpuCounters := ⟨0, 0, 0, 0, 0, false⟩

/-- A line of `/proc/stat`: whether it begins with `cpu`, the number of the core (−1 in
    the line of the total, or if there is none), and the counters, of which those that
    cannot be read are 0. -/
structure StatLine where
  cpu : Bool
  core : ℤ
  counters : CpuCounters

/-- `MAX_CPUS` -/
def maxCpus : ℕ := 1024

/-- What `sample_cpu` reads. -/
structure CpuSample where
  total : CpuCounters
  cores : ℕ → CpuCounters
  ncpu : ℕ
  maxcore : ℤ

def CpuSample.empty : CpuSample := ⟨.zero, fun _ => .zero, 0, -1⟩

/-- One iteration of the loop over the lines. -/
def readCpuLine (s : CpuSample) (l : StatLine) : CpuSample :=
  let c := { l.counters with valid := true }
  if l.core < 0 then { s with total := c }
  else if l.core < maxCpus then
    { s with
      cores := Function.update s.cores l.core.toNat c
      ncpu := s.ncpu + 1
      maxcore := if s.maxcore < l.core then l.core else s.maxcore }
  else s

/-- The loop ends at the first line that is not about a processor. -/
def readCpu (lines : List StatLine) : CpuSample :=
  (lines.takeWhile StatLine.cpu).foldl readCpuLine .empty

/-- `cpu_prev_total` and `cpu_prev` -/
structure CpuState where
  total : CpuCounters
  cores : ℕ → CpuCounters

def CpuState.zero : CpuState := ⟨.zero, fun _ => .zero⟩

/-! ## The documents -/

/-- The groups of `sample_cpu` and those of the other samples. -/
structure RateOptions extends SampleOptions where
  gCPU : Bool
  gcpu : Bool

/-- The rates of the processors, computed in floating point. -/
structure RateDoubles extends Doubles where
  /-- `100.0 * busy / ((double)ncpu * hertz * iv)` -/
  busy : UInt64 → ℕ → ℕ → Printed
  /-- `ticks * 100.0 / ((double)iv * hertz)` -/
  percent : UInt64 → ℕ → Printed
  /-- The sum of two such numbers. -/
  percentSum : UInt64 → UInt64 → ℕ → Printed

/-- `tags` of the total, with 600 bytes. -/
def cpuTags (hostTag : CString) : CString :=
  truncated 600 (ascii "\"host\": \"" ++ hostTag ++ ascii "\"")

/-- `tags` of a core, with 600 bytes. -/
def coreTags (hostTag : CString) (core : ℕ) : CString :=
  truncated 600 (ascii "\"host\": \"" ++ hostTag ++ ascii "\", \"core\": \"" ++ decimal core ++ ascii "\"")

/-- The document of the total. -/
def usageRates (hostTag : CString) (db : RateDoubles) (ts : ℤ) (iv ncpu : ℕ) (total prev : CpuCounters) :
    List RateDoc :=
  let sys : Difference := ⟨total.sys, prev.sys⟩
  let user : Difference := ⟨total.user, prev.user⟩
  let nice : Difference := ⟨total.nice, prev.nice⟩
  let wait : Difference := ⟨total.wait, prev.wait⟩
  let busy := sys.value + user.value + nice.value + wait.value
  [⟨⟨ascii "sys.cpu.usage", ts, (db.busy busy ncpu iv).text, cpuTags hostTag⟩, [sys, user, nice, wait]⟩]

/-- The documents of a core. -/
def coreRates (hostTag : CString) (db : RateDoubles) (ts : ℤ) (iv core : ℕ) (cur prev : CpuCounters) :
    List RateDoc :=
  let sys : Difference := ⟨cur.sys, prev.sys⟩
  let user : Difference := ⟨cur.user, prev.user⟩
  let nice : Difference := ⟨cur.nice, prev.nice⟩
  let idle : Difference := ⟨cur.idle, prev.idle⟩
  let wait : Difference := ⟨cur.wait, prev.wait⟩
  let tags := coreTags hostTag core
  [⟨⟨ascii "sys.cpu.kernel", ts, (db.percent sys.value iv).text, tags⟩, [sys]⟩,
    ⟨⟨ascii "sys.cpu.user", ts, (db.percentSum user.value nice.value iv).text, tags⟩, [user, nice]⟩,
    ⟨⟨ascii "sys.cpu.idle", ts, (db.percent idle.value iv).text, tags⟩, [idle]⟩,
    ⟨⟨ascii "sys.cpu.wait", ts, (db.percent wait.value iv).text, tags⟩, [wait]⟩]

/-- The calls of `add_doc` in `sample_cpu`. -/
def cpuRates (opts : RateOptions) (db : RateDoubles) (ts : ℤ) (iv : ℕ) (s : CpuSample) (prev : CpuState) :
    List RateDoc :=
  (if 0 < iv ∧ opts.gCPU ∧ prev.total.valid ∧ 0 < s.ncpu then
    usageRates opts.hostTag db ts iv s.ncpu s.total prev.total else []) ++
  (if 0 < iv ∧ opts.gcpu then
    (List.range (s.maxcore + 1).toNat).flatMap fun i =>
      if (s.cores i).valid ∧ (prev.cores i).valid then
        coreRates opts.hostTag db ts iv i (s.cores i) (prev.cores i) else []
    else [])

/-- `sample_cpu`: the calls of `add_doc` and the counters that become the previous ones;
    the file is `none` if it cannot be opened. -/
def sampleCpu (opts : RateOptions) (db : RateDoubles) (ts : ℤ) (iv : ℕ) (file : Option (List StatLine))
    (prev : CpuState) : List RateDoc × CpuState :=
  match file with
  | none => ([], prev)
  | some lines =>
    let s := readCpu lines
    (cpuRates opts db ts iv s prev, ⟨s.total, s.cores⟩)

/-! ## When they are exact -/

/-- The counters that the usage is computed from did not decrease. -/
structure CpuCounters.BusyForward (prev cur : CpuCounters) : Prop where
  sys : prev.sys ≤ cur.sys
  user : prev.user ≤ cur.user
  nice : prev.nice ≤ cur.nice
  wait : prev.wait ≤ cur.wait

/-- No counter decreased. -/
structure CpuCounters.Forward (prev cur : CpuCounters) : Prop extends CpuCounters.BusyForward prev cur where
  idle : prev.idle ≤ cur.idle

/-- The counters that are compared did not decrease. -/
structure CpuForward (opts : RateOptions) (s : CpuSample) (prev : CpuState) : Prop where
  total : opts.gCPU → prev.total.valid → 0 < s.ncpu → prev.total.BusyForward s.total
  cores : opts.gcpu → ∀ i : ℕ, i ≤ s.maxcore → (s.cores i).valid → (prev.cores i).valid →
    (prev.cores i).Forward (s.cores i)

theorem usageRates_exact_iff (hostTag : CString) (db : RateDoubles) (ts : ℤ) (iv ncpu : ℕ)
    (total prev : CpuCounters) :
    (∀ r ∈ usageRates hostTag db ts iv ncpu total prev, r.Exact) ↔ prev.BusyForward total := by
  unfold usageRates RateDoc.Exact
  simp only [List.forall_mem_cons, List.not_mem_nil, IsEmpty.forall_iff, implies_true, and_true,
    Difference.exact_iff]
  constructor
  · rintro ⟨hsys, huser, hnice, hwait⟩
    exact ⟨hsys, huser, hnice, hwait⟩
  · intro h
    exact ⟨h.sys, h.user, h.nice, h.wait⟩

theorem coreRates_exact_iff (hostTag : CString) (db : RateDoubles) (ts : ℤ) (iv core : ℕ)
    (cur prev : CpuCounters) :
    (∀ r ∈ coreRates hostTag db ts iv core cur prev, r.Exact) ↔ prev.Forward cur := by
  unfold coreRates RateDoc.Exact
  simp only [List.forall_mem_cons, List.not_mem_nil, IsEmpty.forall_iff, implies_true, and_true,
    Difference.exact_iff]
  constructor
  · rintro ⟨hsys, ⟨huser, hnice⟩, hidle, hwait⟩
    exact ⟨⟨hsys, huser, hnice, hwait⟩, hidle⟩
  · intro h
    exact ⟨h.sys, ⟨h.user, h.nice⟩, h.idle, h.wait⟩

/-- Of documents that are sent under a condition. -/
theorem forall_mem_ite_nil_iff {α : Type*} {c : Prop} [Decidable c] {l : List α} {P : α → Prop} :
    (∀ a ∈ if c then l else [], P a) ↔ (c → ∀ a ∈ l, P a) := by
  split_ifs with hc
  · exact ⟨fun h _ => h, fun h => h hc⟩
  · exact ⟨fun _ h => absurd h hc, fun _ _ h => absurd h List.not_mem_nil⟩

section exact
variable {opts : RateOptions} {db : RateDoubles} {ts : ℤ} {iv : ℕ}

theorem cpuRates_exact_iff (hiv : 0 < iv) (s : CpuSample) (prev : CpuState) :
    (∀ r ∈ cpuRates opts db ts iv s prev, r.Exact) ↔ CpuForward opts s prev := by
  unfold cpuRates
  rw [List.forall_mem_append, forall_mem_ite_nil_iff, forall_mem_ite_nil_iff, usageRates_exact_iff]
  constructor
  · rintro ⟨htotal, hcores⟩
    constructor
    · intro hCPU hvalid hncpu
      exact htotal ⟨hiv, hCPU, hvalid, hncpu⟩
    · intro hcpu i hi hcur hprev
      refine (coreRates_exact_iff opts.hostTag db ts iv i _ _).1 fun r hr => ?_
      refine hcores ⟨hiv, hcpu⟩ r (List.mem_flatMap.2 ⟨i, List.mem_range.2 (by omega), ?_⟩)
      rw [if_pos ⟨hcur, hprev⟩]
      exact hr
  · intro h
    constructor
    · rintro ⟨-, hCPU, hvalid, hncpu⟩
      exact h.total hCPU hvalid hncpu
    · rintro ⟨-, hcpu⟩ r hr
      obtain ⟨i, hi, hr⟩ := List.mem_flatMap.1 hr
      have hle : (i : ℤ) ≤ s.maxcore := by
        have hlt := List.mem_range.1 hi
        omega
      exact forall_mem_ite_nil_iff.2 (fun hvalid => (coreRates_exact_iff _ _ _ _ _ _ _).2
        (h.cores hcpu i hle hvalid.1 hvalid.2)) r hr

/-- **When no subtraction of `sample_cpu` wraps**: iff the counters that it compares did
    not decrease. -/
theorem sampleCpu_exact_iff (hiv : 0 < iv) (file : Option (List StatLine)) (prev : CpuState) :
    (∀ r ∈ (sampleCpu opts db ts iv file prev).1, r.Exact) ↔
      ∀ lines ∈ file, CpuForward opts (readCpu lines) prev := by
  cases file with
  | none => exact ⟨fun _ _ h => (Option.not_mem_none _ h).elim, fun _ _ h => absurd h List.not_mem_nil⟩
  | some lines =>
    show (∀ r ∈ cpuRates opts db ts iv (readCpu lines) prev, r.Exact) ↔ _
    rw [cpuRates_exact_iff hiv]
    constructor
    · rintro h _ hlines
      cases hlines
      exact h
    · intro h
      exact h lines rfl

end exact

end ServerlessYarn
