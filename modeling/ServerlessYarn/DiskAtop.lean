/-
  ServerlessYARN model — disk statistics of a scope (`read_v1_io_stats` of
  `services/disk_atop/DiskAtop.py`).

  Two files are read by groups of six lines into one dictionary.  The first one makes the
  record of a device, and the second one expects it to be there.

  What is read of a file is a parameter, by its path: nothing if it cannot be opened, or
  else its lines, and whether reading them ends with an `OSError`.

  * `groupedStats_text`: the groups of a well-formed file are the lines of its devices;
  * `iopsLoop_eq_ok`, `iopsLoop_raises`: the second loop needs every record that it expects;
  * `readV1IoStats_iff`: a scope is read, with the four counters of every device of both
    files, iff the first file has every device of the second one.
-/
import ServerlessYarn.Texts

namespace ServerlessYarn

/-! ## Reading a scope -/

/-- The lines of a file, with their line ends; `broken` if an `OSError` comes after them. -/
structure FileLines where
  lines : List (List Char)
  broken : Bool

/-- What is found under a path when it is opened. -/
abbrev ScopeFiles := String → Option FileLines

/-- The counters of the devices, by `MAJ:MIN`. -/
abbrev IoStats := Dict String (Dict String ℤ)

/-- `os.path.join(a, b)` for a relative path `b`. -/
def osPathJoin (a b : String) : String :=
  if a = "" ∨ a.toList.getLast? = some '/' then a ++ b else a ++ "/" ++ b

/-- `zip(*[fh] * 6)`: an incomplete group is dropped. -/
def groupedStats : List (List Char) → List (List (List Char))
  | a :: b :: c :: d :: e :: f :: rest => [a, b, c, d, e, f] :: groupedStats rest
  | _ => []

/-- `device_stats[line].strip().split()[word]` -/
def statWord (device_stats : List (List Char)) (line word : ℕ) : Py (List Char) :=
  match device_stats[line]?.bind fun text => (words (strip text))[word]? with
  | some w => .ok w
  | none => .error .indexError

/-- `int(device_stats[line].strip().split()[2])` -/
def statCounter (r : IntReader) (device_stats : List (List Char)) (line : ℕ) : Py ℤ := do
  let w ← statWord device_stats line 2
  readInt r w

/-- The body of the loop over the bytes. -/
def bytesStep (r : IntReader) (result : IoStats) (device_stats : List (List Char)) : Py IoStats := do
  let major_minor ← statWord device_stats 0 0
  let rbytes ← statCounter r device_stats 0
  let wbytes ← statCounter r device_stats 1
  return result.set (String.ofList major_minor) ((Dict.empty.set "rbytes" rbytes).set "wbytes" wbytes)

/-- The body of the loop over the operations. -/
def iopsStep (r : IntReader) (result : IoStats) (device_stats : List (List Char)) : Py IoStats := do
  let major_minor ← statWord device_stats 0 0
  let rios ← statCounter r device_stats 0
  let _stats ← getItem result (String.ofList major_minor)
  let wios ← statCounter r device_stats 1
  return result.modify (String.ofList major_minor) fun stats => (stats.set "rios" rios).set "wios" wios

/-- The loop over the operations; the file may be gone. -/
def readIops (r : IntReader) (file : Option FileLines) (result : IoStats) : Py IoStats :=
  match file with
  | none => .ok result
  | some iops => (groupedStats iops.lines).foldlM (iopsStep r) result

/-- `read_v1_io_stats` -/
def readV1IoStats (r : IntReader) (files : ScopeFiles) (scope_path : String) : Py IoStats :=
  match files (osPathJoin scope_path "blkio.throttle.io_service_bytes_recursive") with
  | none => .ok .empty
  | some bytes => do
    let result ← (groupedStats bytes.lines).foldlM (bytesStep r) .empty
    if bytes.broken then return result
    else readIops r (files (osPathJoin scope_path "blkio.throttle.io_serviced_recursive")) result

/-! ## Well-formed files -/

/-- A device of a file, with its counters. -/
structure BlkioDevice where
  major : ℕ
  minor : ℕ
  read : UInt64
  write : UInt64
  sync : UInt64
  async : UInt64
  discard : UInt64
  total : UInt64

namespace BlkioDevice

/-- `MAJ:MIN` -/
def majorMinor (d : BlkioDevice) : List Char := Nat.toDigits 10 d.major ++ ':' :: Nat.toDigits 10 d.minor

def name (d : BlkioDevice) : String := String.ofList d.majorMinor

/-- A line of the device. -/
def line (d : BlkioDevice) (op : String) (n : UInt64) : List Char :=
  d.majorMinor ++ ' ' :: (op.toList ++ ' ' :: (Nat.toDigits 10 n.toNat ++ ['\n']))

/-- The six lines of the device. -/
def lines (d : BlkioDevice) : List (List Char) :=
  [d.line "Read" d.read, d.line "Write" d.write, d.line "Sync" d.sync, d.line "Async" d.async,
    d.line "Discard" d.discard, d.line "Total" d.total]

end BlkioDevice

/-- A well-formed file: each device once, and the total. -/
structure BlkioFile where
  devices : List BlkioDevice
  total : UInt64
  distinct : (devices.map BlkioDevice.name).Nodup

/-- The lines of the file. -/
def BlkioFile.text (f : BlkioFile) : FileLines where
  lines := f.devices.flatMap BlkioDevice.lines ++
    ["Total ".toList ++ (Nat.toDigits 10 f.total.toNat ++ ['\n'])]
  broken := false

theorem counterNames_nodup : ["rbytes", "wbytes", "rios", "wios"].Nodup := by decide

/-- The four counters of a device, of the two files. -/
def fourCounters (bytes iops : BlkioDevice) : Dict String ℤ where
  entries := [("rbytes", bytes.read.toNat), ("wbytes", bytes.write.toNat), ("rios", iops.read.toNat),
    ("wios", iops.write.toNat)]
  distinct := counterNames_nodup

/-! ## Lines and groups -/

/-- The groups of a well-formed file are the lines of its devices. -/
theorem groupedStats_text (f : BlkioFile) :
    groupedStats f.text.lines = f.devices.map BlkioDevice.lines := by
  unfold BlkioFile.text
  generalize "Total ".toList ++ (Nat.toDigits 10 f.total.toNat ++ ['\n']) = last
  induction f.devices with
  | nil => rfl
  | cons d devices ih => exact congrArg (d.lines :: ·) ih

theorem isWord_majorMinor (d : BlkioDevice) : IsWord d.majorMinor := by
  refine ⟨by simp [BlkioDevice.majorMinor], fun c hc => ?_⟩
  rcases List.mem_append.1 hc with hc | hc
  · exact (isWord_toDigits d.major).2 c hc
  · rcases List.mem_cons.1 hc with rfl | hc
    · decide
    · exact (isWord_toDigits d.minor).2 c hc

/-- The words of a line. -/
theorem words_line (d : BlkioDevice) {op : String} (hop : IsWord op.toList) (n : UInt64) :
    words (strip (d.line op n)) = [d.majorMinor, op.toList, Nat.toDigits 10 n.toNat] := by
  rw [words_strip, BlkioDevice.line, words_append_cons (isWord_majorMinor d), words_append_cons hop,
    words_concat_space (by decide), words_of_isWord (isWord_toDigits _)]

theorem readInt_counter (n : UInt64) : readInt asciiReader (Nat.toDigits 10 n.toNat) = .ok n.toNat := by
  have hlt : n.toNat < 10 ^ 20 := n.toNat_lt.trans (by decide)
  have hlength : (Nat.toDigits 10 n.toNat).length ≤ 20 :=
    (Nat.length_toDigits_le_iff (by decide) (by decide)).2 hlt
  exact readInt_toDigits (hlength.trans (by decide))

theorem isWord_op : IsWord "Read".toList ∧ IsWord "Write".toList := by decide +kernel

theorem statWord_eq_ok {device_stats : List (List Char)} {line word : ℕ} {text w : List Char}
    (hline : device_stats[line]? = some text) (hword : (words (strip text))[word]? = some w) :
    statWord device_stats line word = .ok w := by
  rw [statWord, hline, Option.bind_some, hword]

theorem statWord_lines (d : BlkioDevice) : statWord d.lines 0 0 = .ok d.majorMinor :=
  statWord_eq_ok rfl (by rw [words_line d isWord_op.1]; rfl)

theorem statCounter_read (d : BlkioDevice) : statCounter asciiReader d.lines 0 = .ok d.read.toNat := by
  have hword : statWord d.lines 0 2 = .ok (Nat.toDigits 10 d.read.toNat) :=
    statWord_eq_ok rfl (by rw [words_line d isWord_op.1]; rfl)
  rw [statCounter, hword]
  exact readInt_counter d.read

theorem statCounter_write (d : BlkioDevice) : statCounter asciiReader d.lines 1 = .ok d.write.toNat := by
  have hword : statWord d.lines 1 2 = .ok (Nat.toDigits 10 d.write.toNat) :=
    statWord_eq_ok rfl (by rw [words_line d isWord_op.2]; rfl)
  rw [statCounter, hword]
  exact readInt_counter d.write

/-! ## The loops -/

/-- The record that the first file makes of a device. -/
def bytesCounters (d : BlkioDevice) : Dict String ℤ :=
  (Dict.empty.set "rbytes" (d.read.toNat : ℤ)).set "wbytes" (d.write.toNat : ℤ)

/-- What the second file adds to a record. -/
def addIops (d : BlkioDevice) (stats : Dict String ℤ) : Dict String ℤ :=
  (stats.set "rios" d.read.toNat).set "wios" d.write.toNat

theorem addIops_bytesCounters (bytes iops : BlkioDevice) :
    addIops iops (bytesCounters bytes) = fourCounters bytes iops := by
  refine Dict.ext ?_
  rfl

theorem bytesStep_lines (result : IoStats) (d : BlkioDevice) :
    bytesStep asciiReader result d.lines = .ok (result.set d.name (bytesCounters d)) := by
  unfold bytesStep
  simp only [statWord_lines, statCounter_read, statCounter_write]
  rfl

theorem iopsStep_lines (result : IoStats) (d : BlkioDevice) : iopsStep asciiReader result d.lines =
    (getItem result d.name).map fun _ => result.modify d.name (addIops d) := by
  unfold iopsStep
  simp only [statWord_lines, statCounter_read, statCounter_write]
  show (getItem result d.name >>= fun _ => _) = _
  cases getItem result d.name <;> rfl

/-- The loop over the bytes makes a record of each device. -/
theorem bytesLoop_eq (devices : List BlkioDevice) (result : IoStats) :
    (devices.map BlkioDevice.lines).foldlM (bytesStep asciiReader) result =
      .ok (devices.foldl (fun result d => result.set d.name (bytesCounters d)) result) := by
  induction devices generalizing result with
  | nil => rfl
  | cons d devices ih =>
    rw [List.map_cons, List.foldlM_cons, bytesStep_lines, List.foldl_cons]
    exact ih _

/-- The loop over the operations goes through if it finds every record that it expects. -/
theorem iopsLoop_eq_ok {devices : List BlkioDevice} {result : IoStats}
    (h : ∀ d ∈ devices, d.name ∈ result.keys) :
    (devices.map BlkioDevice.lines).foldlM (iopsStep asciiReader) result =
      .ok (devices.foldl (fun result d => result.modify d.name (addIops d)) result) := by
  induction devices generalizing result with
  | nil => rfl
  | cons d devices ih =>
    obtain ⟨stats, hstats⟩ := Dict.mem_keys_iff.1 (h d List.mem_cons_self)
    rw [List.map_cons, List.foldlM_cons, iopsStep_lines, getItem, hstats, List.foldl_cons]
    refine ih fun d' hd' => ?_
    rw [Dict.keys_modify]
    exact h d' (List.mem_cons_of_mem _ hd')

/-- A record that is missing stops it. -/
theorem iopsLoop_raises {devices : List BlkioDevice} {result : IoStats} {d : BlkioDevice}
    (hd : d ∈ devices) (hmissing : d.name ∉ result.keys) :
    ∃ name, (devices.map BlkioDevice.lines).foldlM (iopsStep asciiReader) result = .error (.keyError name) := by
  induction devices generalizing result with
  | nil => cases hd
  | cons d' devices ih =>
    rw [List.map_cons, List.foldlM_cons, iopsStep_lines, getItem]
    cases hget : result.get? d'.name with
    | none => exact ⟨d'.name, rfl⟩
    | some stats =>
      have hne : d ≠ d' := by
        rintro rfl
        exact hmissing (Dict.mem_keys_of_get? hget)
      refine ih ((List.mem_cons.1 hd).resolve_left hne) ?_
      rwa [Dict.keys_modify]

/-! ## The scope -/

section scope
variable {files : ScopeFiles} {scope_path : String} {bytes iops : BlkioFile}

/-- The two files of a scope, as they are when they are read. -/
structure ScopeHas (files : ScopeFiles) (scope_path : String) (bytes iops : BlkioFile) : Prop where
  bytes : files (osPathJoin scope_path "blkio.throttle.io_service_bytes_recursive") = some bytes.text
  iops : files (osPathJoin scope_path "blkio.throttle.io_serviced_recursive") = some iops.text

/-- The records that the first file makes. -/
def bytesRecords (bytes : BlkioFile) : IoStats :=
  bytes.devices.foldl (fun result d => result.set d.name (bytesCounters d)) .empty

theorem mem_keys_bytesRecords {name : String} :
    name ∈ (bytesRecords bytes).keys ↔ ∃ d ∈ bytes.devices, d.name = name := by
  rw [bytesRecords, Dict.mem_keys_foldl_set, Dict.keys_empty]
  simp [eq_comm]

theorem get?_bytesRecords {d : BlkioDevice} (hd : d ∈ bytes.devices) :
    (bytesRecords bytes).get? d.name = some (bytesCounters d) := by
  rw [Dict.get?_eq_some_iff, bytesRecords,
    Dict.entries_foldl_set bytes.distinct fun _ _ => List.not_mem_nil]
  exact List.mem_append_right _ (List.mem_map_of_mem hd)

theorem readV1IoStats_eq (h : ScopeHas files scope_path bytes iops) :
    readV1IoStats asciiReader files scope_path =
      (iops.devices.map BlkioDevice.lines).foldlM (iopsStep asciiReader) (bytesRecords bytes) := by
  unfold readV1IoStats
  rw [h.bytes, h.iops]
  show ((groupedStats bytes.text.lines).foldlM (bytesStep asciiReader) .empty >>= fun result =>
    (groupedStats iops.text.lines).foldlM (iopsStep asciiReader) result) = _
  rw [groupedStats_text, groupedStats_text, bytesLoop_eq]
  rfl

/-- What is to be read of a scope: it is read, and for each device of both files there are
    exactly its four counters. -/
def ReadsScope (result : Py IoStats) (bytes iops : BlkioFile) : Prop :=
  ∃ stats, result = .ok stats ∧ ∀ d ∈ bytes.devices, ∀ e ∈ iops.devices, d.name = e.name →
    stats.get? d.name = some (fourCounters d e)

/-- **A scope is read iff** the first file has every device of the second one. -/
theorem readV1IoStats_iff (h : ScopeHas files scope_path bytes iops) :
    ReadsScope (readV1IoStats asciiReader files scope_path) bytes iops ↔
      ∀ e ∈ iops.devices, ∃ d ∈ bytes.devices, d.name = e.name := by
  rw [readV1IoStats_eq h]
  constructor
  · rintro ⟨stats, hstats, -⟩ e he
    by_contra hmissing
    obtain ⟨name, hraises⟩ := iopsLoop_raises he (mem_keys_bytesRecords.not.2 hmissing)
    rw [hstats] at hraises
    cases hraises
  · intro hall
    refine ⟨_, iopsLoop_eq_ok fun e he => mem_keys_bytesRecords.2 (hall e he), fun d hd e he hname => ?_⟩
    rw [hname, Dict.get?_foldl_modify iops.distinct he, ← hname, get?_bytesRecords hd]
    exact congrArg some (addIops_bytesCounters d e)

end scope

/-- The files of the scope `/scope`. -/
def scopeFiles (bytes iops : BlkioFile) : ScopeFiles := fun path =>
  if path = "/scope/blkio.throttle.io_service_bytes_recursive" then some bytes.text
  else if path = "/scope/blkio.throttle.io_serviced_recursive" then some iops.text
  else none

theorem scopeFiles_has (bytes iops : BlkioFile) :
    ScopeHas (scopeFiles bytes iops) "/scope" bytes iops := by
  have hbytes : osPathJoin "/scope" "blkio.throttle.io_service_bytes_recursive" =
      "/scope/blkio.throttle.io_service_bytes_recursive" := by decide +kernel
  have hiops : osPathJoin "/scope" "blkio.throttle.io_serviced_recursive" =
      "/scope/blkio.throttle.io_serviced_recursive" := by decide +kernel
  constructor
  · rw [hbytes]
    rfl
  · rw [hiops]
    rfl

/-- A file with one device. -/
def oneDevice (read write : UInt64) : BlkioFile :=
  ⟨[⟨8, 0, read, write, 0, read + write, 0, read + write⟩], read + write, List.nodup_singleton _⟩

/-- A device that is in both files. -/
theorem readV1IoStats_sample : ReadsScope
    (readV1IoStats asciiReader (scopeFiles (oneDevice 4096 0) (oneDevice 1 0)) "/scope")
    (oneDevice 4096 0) (oneDevice 1 0) := by
  refine (readV1IoStats_iff (scopeFiles_has _ _)).2 fun e he => ?_
  exact ⟨_, List.mem_cons_self, by rw [List.mem_singleton.1 he]; rfl⟩

/-- A device whose first operation comes between the two reads stops the reading. -/
theorem readV1IoStats_raises :
    readV1IoStats asciiReader (scopeFiles ⟨[], 0, List.nodup_nil⟩ (oneDevice 1 0)) "/scope" =
        .error (.keyError "8:0") ∧
      ¬ ReadsScope (readV1IoStats asciiReader (scopeFiles ⟨[], 0, List.nodup_nil⟩ (oneDevice 1 0)) "/scope")
        ⟨[], 0, List.nodup_nil⟩ (oneDevice 1 0) := by
  have hraises : readV1IoStats asciiReader (scopeFiles ⟨[], 0, List.nodup_nil⟩ (oneDevice 1 0)) "/scope" =
      .error (.keyError "8:0") := by decide +kernel
  refine ⟨hraises, ?_⟩
  rw [hraises]
  rintro ⟨stats, hstats, -⟩
  cases hstats

end ServerlessYarn
