/-
  ServerlessYARN model — the disk rates of the containers (`read_v2_io_stats`, `discover_containers`,
  `take_snapshot`, `compute_deltas` and the loop of `main`, services/disk_atop/DiskAtop.py).

  In each cycle the counters of the scopes are read, and what they have grown since the cycle
  before is reported.  The counters of a scope that has been created anew start again.

  * `readV2IoStats_render`: a file `io.stat` is read back as it was written;
  * `monitor_records`: each cycle reports the growth between two snapshots;
  * `growth_reported`: all cycles together never report more than what has been done, and report all
    of it iff no cycle with activity misses the device or sees it start again.
-/
import ServerlessYarn.DiskAtop
import Mathlib.Algebra.BigOperators.Intervals
import Mathlib.Algebra.Order.BigOperators.Group.Finset

namespace ServerlessYarn

namespace DiskRates

/-! ## cgroups v2 -/

/-- A token of a line; what is no counter is passed over. -/
def statToken (r : IntReader) (stats : Dict String ℤ) (token : List Char) : Dict String ℤ :=
  if '=' ∈ token then
    let key := token.takeWhile (· ≠ '=')
    match readInt r (token.drop (key.length + 1)) with
    | .ok n => stats.set (String.ofList key) n
    | .error _ => stats
  else stats

/-- A line of the file. -/
def ioStatLine (r : IntReader) (result : IoStats) (line : List Char) : IoStats :=
  match words (strip line) with
  | [] => result
  | major_minor :: tokens => result.set (String.ofList major_minor) (tokens.foldl (statToken r) .empty)

/-- `read_v2_io_stats` -/
def readV2IoStats (r : IntReader) (files : ScopeFiles) (scope_path : String) : IoStats :=
  match files (osPathJoin scope_path "io.stat") with
  | none => .empty
  | some file => file.lines.foldl (ioStatLine r) .empty

/-! ## Snapshots -/

/-- The counters of the scopes. -/
abbrev Snapshot := Dict String IoStats

inductive CgroupsVersion where
  | v1
  | v2
deriving DecidableEq

/-- What a cycle finds: the scopes in their order, their files, the instances by PID, and the times. -/
structure Cycle (T : Type) where
  scopes : List String
  files : ScopeFiles
  pidToInstance : Dict ℤ String
  elapsed : T
  timestamp : ℤ

/-- `_pid_from_scope` -/
def pidFromScope (r : IntReader) (scope_path : String) : Option ℤ :=
  let basename := scope_path.toList.rtakeWhile (· ≠ '/')
  let name := basename.take (basename.length - 6)
  if "apptainer-".toList <+: name then
    match readInt r (name.drop "apptainer-".toList.length) with
    | .ok pid => some pid
    | .error _ => none
  else none

/-- `discover_containers` -/
def discoverContainers (r : IntReader) {T : Type} (cycle : Cycle T) : Dict String String :=
  cycle.scopes.foldl (fun result scope_path =>
    match (pidFromScope r scope_path).bind cycle.pidToInstance.get? with
    | some instance_name => result.set scope_path instance_name
    | none => result) .empty

def readIoStats (r : IntReader) (version : CgroupsVersion) (files : ScopeFiles) (scope_path : String) :
    Py IoStats :=
  match version with
  | .v1 => readV1IoStats r files scope_path
  | .v2 => .ok (readV2IoStats r files scope_path)

/-- `take_snapshot` -/
def takeSnapshot (r : IntReader) (version : CgroupsVersion) {T : Type} (cycle : Cycle T) :
    Py (Snapshot × Dict String String) := do
  let scope_to_name := discoverContainers r cycle
  let snapshot ← scope_to_name.keys.foldlM (fun (snapshot : Snapshot) scope_path => do
    let io_stats ← readIoStats r version cycle.files scope_path
    return if io_stats.entries = [] then snapshot else snapshot.set scope_path io_stats) .empty
  return (snapshot, scope_to_name)

/-! ## Deltas -/

/-- A line of the output. -/
structure MetricRecord (V : Type) where
  metric : String
  timestamp : ℤ
  value : V
  host : String
  disk : String

/-- `round(d / elapsed, 3)` and `round(d / elapsed / (1024 ** 2), 6)`, in floating point. -/
structure Rounding (T V : Type) where
  ios : ℤ → T → V
  mib : ℤ → T → V

/-- The growth of a counter; it is not negative where the counter has started again. -/
def ioDelta (prev curr : Dict String ℤ) (key : String) : ℤ :=
  max ((curr.get? key).getD 0 - (prev.get? key).getD 0) 0

section deltas
variable {T V : Type} (rounding : Rounding T V) (resolve : String → String)

def deviceRecords (instance_name disk : String) (prev curr : Dict String ℤ) (elapsed : T) (timestamp : ℤ) :
    List (MetricRecord V) :=
  [⟨"sys.disk.read.ios", timestamp, rounding.ios (ioDelta prev curr "rios") elapsed, instance_name, disk⟩,
    ⟨"sys.disk.read.mb", timestamp, rounding.mib (ioDelta prev curr "rbytes") elapsed, instance_name, disk⟩,
    ⟨"sys.disk.write.ios", timestamp, rounding.ios (ioDelta prev curr "wios") elapsed, instance_name, disk⟩,
    ⟨"sys.disk.write.mb", timestamp, rounding.mib (ioDelta prev curr "wbytes") elapsed, instance_name, disk⟩]

/-- `os.path.basename` -/
def osPathBasename (path : String) : String := String.ofList (path.toList.rtakeWhile (· ≠ '/'))

/-- `compute_deltas` -/
def computeDeltas (prev curr : Snapshot) (scope_to_name : Dict String String) (elapsed : T) (timestamp : ℤ) :
    List (MetricRecord V) :=
  curr.entries.flatMap fun scope =>
    match prev.get? scope.1 with
    | none => []
    | some prev_devices =>
      let instance_name := (scope_to_name.get? scope.1).getD (osPathBasename scope.1)
      scope.2.entries.flatMap fun device =>
        match prev_devices.get? device.1 with
        | none => []
        | some prev_stats =>
          deviceRecords rounding instance_name (resolve device.1) prev_stats device.2 elapsed timestamp

/-- The loop of `main`: the snapshot of each cycle, and what it prints. -/
def monitorFrom (r : IntReader) (version : CgroupsVersion) :
    Snapshot → List (Cycle T) → Py (List (Snapshot × List (MetricRecord V)))
  | _, [] => .ok []
  | prev, cycle :: cycles => do
    let (curr, scope_to_name) ← takeSnapshot r version cycle
    let records := computeDeltas rounding resolve prev curr scope_to_name cycle.elapsed cycle.timestamp
    let rest ← monitorFrom r version curr cycles
    return (curr, records) :: rest

end deltas

/-! ## Reading back `io.stat` -/

/-- A device of the file, with its counters under their keys. -/
structure IoStatDevice where
  major : ℕ
  minor : ℕ
  counters : Dict String UInt64
  keys_word : ∀ key ∈ counters.keys, IsWord key.toList ∧ '=' ∉ key.toList

namespace IoStatDevice

def majorMinor (d : IoStatDevice) : List Char := Nat.toDigits 10 d.major ++ ':' :: Nat.toDigits 10 d.minor

def name (d : IoStatDevice) : String := String.ofList d.majorMinor

/-- A counter of the line. -/
def token (e : String × UInt64) : List Char := e.1.toList ++ '=' :: Nat.toDigits 10 e.2.toNat

/-- The line of the device: its counters with a blank before each, as the kernel writes them. -/
def render (d : IoStatDevice) : List Char :=
  d.majorMinor ++ ((d.counters.entries.flatMap fun e => ' ' :: token e) ++ ['\n'])

/-- The counters as they are read. -/
def stats (d : IoStatDevice) : Dict String ℤ := d.counters.mapVal fun _ n => (n.toNat : ℤ)

end IoStatDevice

theorem isWord_name (d : IoStatDevice) : IsWord d.majorMinor := by
  refine ⟨by simp [IoStatDevice.majorMinor], fun c hc => ?_⟩
  rcases List.mem_append.1 hc with hc | hc
  · exact (isWord_toDigits d.major).2 c hc
  · rcases List.mem_cons.1 hc with rfl | hc
    · decide
    · exact (isWord_toDigits d.minor).2 c hc

theorem isWord_token {e : String × UInt64} (h : IsWord e.1.toList) : IsWord (IoStatDevice.token e) := by
  refine ⟨List.append_ne_nil_of_left_ne_nil h.1 _, fun c hc => ?_⟩
  rcases List.mem_append.1 hc with hc | hc
  · exact h.2 c hc
  · rcases List.mem_cons.1 hc with rfl | hc
    · decide
    · exact (isWord_toDigits e.2.toNat).2 c hc

/-- Words with a blank before each are the words of the line. -/
theorem words_tokens (es : List (String × UInt64)) (hes : ∀ e ∈ es, IsWord e.1.toList) {word : List Char}
    (hword : IsWord word) :
    words (word ++ es.flatMap fun e => ' ' :: IoStatDevice.token e) = word :: es.map IoStatDevice.token := by
  induction es generalizing word with
  | nil => rw [List.flatMap_nil, List.append_nil, words_of_isWord hword, List.map_nil]
  | cons e es ih =>
    have htoken : IsWord (IoStatDevice.token e) := isWord_token (hes e List.mem_cons_self)
    rw [List.flatMap_cons, List.cons_append, words_append_cons hword, List.map_cons,
      ih (fun e' he' => hes e' (List.mem_cons_of_mem _ he')) htoken]

/-- The words of a line. -/
theorem words_render (d : IoStatDevice) :
    words (strip d.render) = d.majorMinor :: d.counters.entries.map IoStatDevice.token := by
  have hkeys : ∀ e ∈ d.counters.entries, IsWord e.1.toList := fun e he =>
    (d.keys_word e.1 (List.mem_map_of_mem he)).1
  rw [words_strip, IoStatDevice.render, ← List.append_assoc, words_concat_space (by decide),
    words_tokens _ hkeys (isWord_name d)]

/-- A counter is read back. -/
theorem statToken_token (stats : Dict String ℤ) {e : String × UInt64} (he : '=' ∉ e.1.toList) :
    statToken asciiReader stats (IoStatDevice.token e) = stats.set e.1 (e.2.toNat : ℤ) := by
  have hall : ∀ c ∈ e.1.toList, decide (c ≠ '=') = true := fun c hc =>
    decide_eq_true fun heq => he (heq ▸ hc)
  have hmem : '=' ∈ IoStatDevice.token e := List.mem_append_right _ List.mem_cons_self
  have hkey : (IoStatDevice.token e).takeWhile (· ≠ '=') = e.1.toList := by
    rw [IoStatDevice.token, List.takeWhile_append_of_pos hall, List.takeWhile_cons_of_neg (by decide),
      List.append_nil]
  have hdrop : (IoStatDevice.token e).drop (e.1.toList.length + 1) = Nat.toDigits 10 e.2.toNat := by
    rw [IoStatDevice.token, ← List.drop_drop, List.drop_left]
    rfl
  unfold statToken
  rw [if_pos hmem]
  simp only [hkey, hdrop, readInt_counter, String.ofList_toList]

theorem foldl_statToken (es : List (String × UInt64)) (stats : Dict String ℤ) (hes : ∀ e ∈ es, '=' ∉ e.1.toList) :
    (es.map IoStatDevice.token).foldl (statToken asciiReader) stats =
      es.foldl (fun stats e => stats.set e.1 (e.2.toNat : ℤ)) stats := by
  induction es generalizing stats with
  | nil => rfl
  | cons e es ih =>
    rw [List.map_cons, List.foldl_cons, List.foldl_cons, statToken_token stats (hes e List.mem_cons_self)]
    exact ih _ fun e' he' => hes e' (List.mem_cons_of_mem _ he')

/-- So are all counters of a device. -/
theorem foldl_statToken_eq (d : IoStatDevice) :
    (d.counters.entries.map IoStatDevice.token).foldl (statToken asciiReader) .empty = d.stats := by
  rw [foldl_statToken _ _ fun e he => (d.keys_word e.1 (List.mem_map_of_mem he)).2]
  refine Dict.ext ?_
  rw [Dict.entries_foldl_set d.counters.distinct fun _ _ => List.not_mem_nil]
  rfl

theorem ioStatLine_render (result : IoStats) (d : IoStatDevice) :
    ioStatLine asciiReader result d.render = result.set d.name d.stats := by
  unfold ioStatLine
  rw [words_render]
  simp only [foldl_statToken_eq]
  rfl

/-- **A file `io.stat` is read back as it was written**: every device with all of its counters. -/
theorem readV2IoStats_render {files : ScopeFiles} {scope_path : String} {devices : List IoStatDevice} {broken : Bool}
    (hfile : files (osPathJoin scope_path "io.stat") = some ⟨devices.map IoStatDevice.render, broken⟩)
    (hdistinct : (devices.map IoStatDevice.name).Nodup) :
    (readV2IoStats asciiReader files scope_path).entries = devices.map fun d => (d.name, d.stats) := by
  have hfold : ∀ result : IoStats, (devices.map IoStatDevice.render).foldl (ioStatLine asciiReader) result =
      devices.foldl (fun result d => result.set d.name d.stats) result := by
    clear hdistinct hfile
    induction devices with
    | nil => exact fun _ => rfl
    | cons d devices ih =>
      intro result
      rw [List.map_cons, List.foldl_cons, List.foldl_cons, ioStatLine_render]
      exact ih _
  unfold readV2IoStats
  rw [hfile]
  dsimp only
  rw [hfold, Dict.entries_foldl_set hdistinct fun _ _ => List.not_mem_nil]
  rfl

theorem keys_busy : ∀ key ∈ ((Dict.empty.set "rbytes" (4096 : UInt64)).set "wbytes" 0).keys,
    IsWord key.toList ∧ '=' ∉ key.toList := by
  intro key hkey
  rw [Dict.mem_keys_set, Dict.mem_keys_set] at hkey
  rcases hkey with rfl | rfl | hkey
  · simp [IsWord, Tasks.isSpace]
  · simp [IsWord, Tasks.isSpace]
  · exact absurd hkey List.not_mem_nil

def busyDevice : IoStatDevice := ⟨8, 0, (Dict.empty.set "rbytes" 4096).set "wbytes" 0, keys_busy⟩

/-- No blank stands before the end of a line. -/
example : busyDevice.render = "8:0 rbytes=4096 wbytes=0\n".toList := by decide

theorem readV2IoStats_busy : (readV2IoStats asciiReader
    (fun path => if path = "/s/io.stat" then some ⟨[busyDevice.render], false⟩ else none) "/s").entries =
    [(busyDevice.name, busyDevice.stats)] :=
  @readV2IoStats_render _ _ [busyDevice] _ rfl (List.nodup_singleton _)

/-! ## What is reported -/

/-- The counters of a device in a snapshot. -/
def deviceStats (snapshot : Snapshot) (scope_path major_minor : String) : Option (Dict String ℤ) :=
  (snapshot.get? scope_path).bind fun devices => devices.get? major_minor

/-- The growth of a counter that is reported between two snapshots: none unless the device is in both. -/
def reportedDelta (prev curr : Snapshot) (scope_path major_minor key : String) : ℤ :=
  match deviceStats prev scope_path major_minor, deviceStats curr scope_path major_minor with
  | some prev_stats, some curr_stats => ioDelta prev_stats curr_stats key
  | _, _ => 0

section deltas
variable {T V : Type} {rounding : Rounding T V} {resolve : String → String}

/-- **The lines of a cycle are those of the devices that are in both snapshots.** -/
theorem mem_computeDeltas {prev curr : Snapshot} {scope_to_name : Dict String String} {elapsed : T} {timestamp : ℤ}
    {record : MetricRecord V} :
    record ∈ computeDeltas rounding resolve prev curr scope_to_name elapsed timestamp ↔
      ∃ scope_path major_minor prev_stats curr_stats,
        deviceStats prev scope_path major_minor = some prev_stats ∧
        deviceStats curr scope_path major_minor = some curr_stats ∧
        record ∈ deviceRecords rounding ((scope_to_name.get? scope_path).getD (osPathBasename scope_path))
          (resolve major_minor) prev_stats curr_stats elapsed timestamp := by
  unfold computeDeltas
  rw [List.mem_flatMap]
  constructor
  · rintro ⟨scope, hscope, hrecord⟩
    cases hprev : prev.get? scope.1 with
    | none => simp [hprev] at hrecord
    | some prev_devices =>
      rw [hprev] at hrecord
      obtain ⟨device, hdevice, hrecord⟩ := List.mem_flatMap.1 hrecord
      cases hstats : prev_devices.get? device.1 with
      | none => simp [hstats] at hrecord
      | some prev_stats =>
        rw [hstats] at hrecord
        refine ⟨scope.1, device.1, prev_stats, device.2, ?_, ?_, hrecord⟩
        · rw [deviceStats, hprev, Option.bind_some, hstats]
        · rw [deviceStats, Dict.get?_eq_some_iff.2 hscope, Option.bind_some, Dict.get?_eq_some_iff.2 hdevice]
  · rintro ⟨scope_path, major_minor, prev_stats, curr_stats, hprev, hcurr, hrecord⟩
    obtain ⟨prev_devices, hprev, hprev_stats⟩ := Option.bind_eq_some_iff.1 hprev
    obtain ⟨curr_devices, hcurr, hcurr_stats⟩ := Option.bind_eq_some_iff.1 hcurr
    refine ⟨(scope_path, curr_devices), Dict.get?_eq_some_iff.1 hcurr, ?_⟩
    simp only [hprev]
    refine List.mem_flatMap.2 ⟨(major_minor, curr_stats), Dict.get?_eq_some_iff.1 hcurr_stats, ?_⟩
    simp only [hprev_stats]
    exact hrecord

/-- The snapshot before the cycle: the first one, or that of the cycle before. -/
def snapshotAt (first : Snapshot) (out : List (Snapshot × List (MetricRecord V))) (i : ℕ) : Snapshot :=
  ((first :: out.map Prod.fst)[i]?).getD .empty

/-- **Each cycle reports the growth between its snapshot and the one before.** -/
theorem monitor_records {r : IntReader} {version : CgroupsVersion} {first : Snapshot} {cycles : List (Cycle T)}
    {out : List (Snapshot × List (MetricRecord V))}
    (h : monitorFrom rounding resolve r version first cycles = .ok out) {i : ℕ}
    {c : Snapshot × List (MetricRecord V)} (hc : out[i]? = some c) :
    ∃ cycle scope_to_name, cycles[i]? = some cycle ∧ takeSnapshot r version cycle = .ok (c.1, scope_to_name) ∧
      c.2 = computeDeltas rounding resolve (snapshotAt first out i) c.1 scope_to_name cycle.elapsed
        cycle.timestamp := by
  induction cycles generalizing first out i with
  | nil =>
    obtain rfl : [] = out := Except.ok.inj h
    cases hc
  | cons cycle cycles ih =>
    rw [monitorFrom] at h
    cases hsnap : takeSnapshot r version cycle with
    | error e => rw [hsnap] at h; cases h
    | ok snap =>
      cases hrest : monitorFrom rounding resolve r version snap.1 cycles with
      | error e => simp [hsnap, hrest, bind, Except.bind] at h
      | ok rest =>
        simp only [hsnap, hrest, bind, Except.bind, pure, Except.pure, Except.ok.injEq] at h
        subst h
        cases i with
        | zero =>
          obtain rfl := Option.some.inj hc
          exact ⟨cycle, snap.2, rfl, hsnap, rfl⟩
        | succ i =>
          rw [List.getElem?_cons_succ] at hc
          obtain ⟨cycle', names, hcycle, htake, hrecords⟩ := ih hrest hc
          exact ⟨cycle', names, hcycle, htake, hrecords⟩

end deltas

/-! ## Growth over many cycles -/

/-- What has been done on a device by each snapshot, and by the last time that its counter started: where the
    device is in a snapshot, its counter says the difference. -/
structure Activity (snapshots : ℕ → Snapshot) (scope_path major_minor key : String) where
  total : ℕ → ℤ
  base : ℕ → ℤ
  total_le : ∀ i, total i ≤ total (i + 1)
  base_le : ∀ i, base i ≤ base (i + 1)
  counter : ∀ i stats, deviceStats (snapshots i) scope_path major_minor = some stats →
    stats.get? key = some (total i - base i)

namespace Activity

variable {snapshots : ℕ → Snapshot} {scope_path major_minor key : String}
  (a : Activity snapshots scope_path major_minor key)

/-- The device is seen in both snapshots, and has not started again between them. -/
def Followed (i : ℕ) : Prop :=
  (deviceStats (snapshots i) scope_path major_minor).isSome ∧
    (deviceStats (snapshots (i + 1)) scope_path major_minor).isSome ∧ a.base i = a.base (i + 1)

/-- One cycle reports at most what has been done. -/
theorem reportedDelta_le (i : ℕ) :
    reportedDelta (snapshots i) (snapshots (i + 1)) scope_path major_minor key ≤ a.total (i + 1) - a.total i ∧
    (reportedDelta (snapshots i) (snapshots (i + 1)) scope_path major_minor key = a.total (i + 1) - a.total i ↔
      (a.total i < a.total (i + 1) → a.Followed i)) := by
  have htotal : a.total i ≤ a.total (i + 1) := a.total_le i
  have hbase : a.base i ≤ a.base (i + 1) := a.base_le i
  unfold reportedDelta Followed
  cases hprev : deviceStats (snapshots i) scope_path major_minor with
  | none =>
    simp only [Option.isSome_none, Bool.false_eq_true, false_and, imp_false]
    omega
  | some prev =>
    cases hcurr : deviceStats (snapshots (i + 1)) scope_path major_minor with
    | none =>
      simp only [Option.isSome_none, Bool.false_eq_true, false_and, and_false, imp_false]
      omega
    | some curr =>
      simp only [ioDelta, a.counter i prev hprev, a.counter (i + 1) curr hcurr, Option.getD_some,
        Option.isSome_some, true_and]
      omega

/-- **All cycles together report at most what has been done, and all of it iff** the device is followed in every
    cycle with activity. -/
theorem sum_reportedDelta (n : ℕ) :
    ∑ i ∈ Finset.range n, reportedDelta (snapshots i) (snapshots (i + 1)) scope_path major_minor key ≤
      a.total n - a.total 0 ∧
    (∑ i ∈ Finset.range n, reportedDelta (snapshots i) (snapshots (i + 1)) scope_path major_minor key =
      a.total n - a.total 0 ↔ ∀ i < n, a.total i < a.total (i + 1) → a.Followed i) := by
  rw [← Finset.sum_range_sub a.total n]
  have hle : ∀ i ∈ Finset.range n, reportedDelta (snapshots i) (snapshots (i + 1)) scope_path major_minor key ≤
      a.total (i + 1) - a.total i := fun i _ => (a.reportedDelta_le i).1
  refine ⟨Finset.sum_le_sum hle, (Finset.sum_eq_sum_iff_of_le hle).trans ?_⟩
  simp only [Finset.mem_range]
  exact forall₂_congr fun i _ => (a.reportedDelta_le i).2

end Activity

/-- **What the monitor reports of a counter**, from the first cycle to the last: each cycle the growth between its
    snapshot and the one before; altogether never more than what has been done; and all of it iff in every cycle
    with activity the device is in both snapshots and has not started again. -/
theorem growth_reported {T V : Type} {rounding : Rounding T V} {resolve : String → String} {r : IntReader}
    {version : CgroupsVersion} {first : Snapshot} {cycles : List (Cycle T)}
    {out : List (Snapshot × List (MetricRecord V))}
    (h : monitorFrom rounding resolve r version first cycles = .ok out) {scope_path major_minor key : String}
    (a : Activity (snapshotAt first out) scope_path major_minor key) :
    (∀ i c, out[i]? = some c → ∃ cycle scope_to_name, cycles[i]? = some cycle ∧
      takeSnapshot r version cycle = .ok (c.1, scope_to_name) ∧
      c.2 = computeDeltas rounding resolve (snapshotAt first out i) c.1 scope_to_name cycle.elapsed
        cycle.timestamp) ∧
    ∑ i ∈ Finset.range out.length,
        reportedDelta (snapshotAt first out i) (snapshotAt first out (i + 1)) scope_path major_minor key ≤
      a.total out.length - a.total 0 ∧
    (∑ i ∈ Finset.range out.length,
        reportedDelta (snapshotAt first out i) (snapshotAt first out (i + 1)) scope_path major_minor key =
      a.total out.length - a.total 0 ↔
        ∀ i < out.length, a.total i < a.total (i + 1) → a.Followed i) :=
  ⟨fun _ _ hc => monitor_records h hc, a.sum_reportedDelta out.length⟩

/-- A cycle that finds a scope with one counter. -/
def countedCycle (rios : String) : Cycle Unit where
  scopes := ["/s/apptainer-7.scope"]
  files := fun path =>
    if path = "/s/apptainer-7.scope/io.stat" then some ⟨[("8:0 rios=" ++ rios).toList], false⟩ else none
  pidToInstance := Dict.empty.set 7 "cont0"
  elapsed := ()
  timestamp := 0

/-- Its snapshot. -/
def countedSnapshot (rios : ℤ) : Snapshot :=
  Dict.empty.set "/s/apptainer-7.scope" (Dict.empty.set "8:0" (Dict.empty.set "rios" rios))

/-- What is printed when the counter goes from five to nine. -/
def countedOut : List (Snapshot × List (MetricRecord ℤ)) :=
  [(countedSnapshot 9, computeDeltas ⟨fun d _ => d, fun d _ => d⟩ id (countedSnapshot 5) (countedSnapshot 9)
    (Dict.empty.set "/s/apptainer-7.scope" "cont0") () 0)]

theorem counted_run : monitorFrom ⟨fun d _ => d, fun d _ => d⟩ id asciiReader .v2 (countedSnapshot 5)
    [countedCycle "9"] = .ok countedOut := by
  rfl

/-- What has been done by each snapshot. -/
def countedTotal (i : ℕ) : ℤ := if i = 0 then 5 else 9

theorem countedTotal_le (i : ℕ) : countedTotal i ≤ countedTotal (i + 1) := by
  cases i <;> simp [countedTotal]

theorem counted_counter (i : ℕ) (stats : Dict String ℤ)
    (h : deviceStats (snapshotAt (countedSnapshot 5) countedOut i) "/s/apptainer-7.scope" "8:0" = some stats) :
    stats.get? "rios" = some (countedTotal i - 0) := by
  rcases i with _ | _ | i
  · obtain rfl := Option.some.inj h
    rfl
  · obtain rfl := Option.some.inj h
    rfl
  · cases h

def countedActivity : Activity (snapshotAt (countedSnapshot 5) countedOut) "/s/apptainer-7.scope" "8:0" "rios" :=
  ⟨countedTotal, fun _ => 0, countedTotal_le, fun _ => le_rfl, counted_counter⟩

theorem growth_reported_counted : ∑ i ∈ Finset.range countedOut.length,
    reportedDelta (snapshotAt (countedSnapshot 5) countedOut i) (snapshotAt (countedSnapshot 5) countedOut (i + 1))
      "/s/apptainer-7.scope" "8:0" "rios" ≤ 9 - 5 :=
  (growth_reported counted_run countedActivity).2.1

end DiskRates

end ServerlessYarn
