/-
  ServerlessYARN model — the documents of `sample_procs` and `sample_net`
  (lite_feeder.c).

  The samples are compared with the previous ones, and each rate becomes the value
  of a document.  What `%.2f` prints for a rate is an input (`Doubles`): its
  hundredths, which is all that the thresholds look at.

  * `Printed.text`, `procTags`, `netTags`: the texts that are pasted into the
    documents; none of the buffers cuts them (`Printed.text_eq`, `procTags_eq`,
    `netTags_eq`).
-/
import ServerlessYarn.FeederProcs

namespace ServerlessYarn

/-! ## Values -/

/-- A number as `%.2f` prints it.  All rates are computed from machine words, so that
    they have far fewer than 40 digits. -/
structure Printed where
  hundredths : ℕ
  hundredths_lt : hundredths < 10 ^ 40

/-- The byte of a digit. -/
def digitByte (d : ℕ) : UInt8 := UInt8.ofNat (48 + d)

/-- The digits of `%.2f`. -/
def Printed.digits (v : Printed) : CString :=
  decimal (v.hundredths / 100 : ℕ) ++
    [46, digitByte (v.hundredths / 10 % 10), digitByte (v.hundredths % 10)]

/-- `snprintf(v, sizeof v, "%.2f", …)`, with 64 bytes. -/
def Printed.text (v : Printed) : CString :=
  truncated 64 v.digits

/-- The rates, computed in floating point from the counters and the interval. -/
structure Doubles where
  /-- `1.0 * ticks / iv` -/
  cpu : UInt64 → ℕ → Printed
  /-- `wait_ns * (double)hertz / (1e9 * iv)` -/
  wait : UInt64 → ℕ → Printed
  /-- `kb / 1024.0` -/
  mb : UInt64 → Printed
  /-- `sectors * 512.0 / (iv * 1048576.0)` -/
  disk : UInt64 → ℕ → Printed
  /-- `bits / (iv * 1048576.0)` -/
  net : UInt64 → ℕ → Printed
  /-- `8.0 / (iv * 1048576.0)` -/
  upper : ℕ → Printed
  /-- `100.0 * (atof(in_s) + atof(in_s)) / 2.0` -/
  upperUsage : Printed → Printed
  /-- `100.0 * (atof(in_s) + atof(out_s)) / (duplex ? 2.0 * speed : (double)speed)` -/
  usage : Printed → Printed → ℤ → Bool → Printed

/-! ## Processes -/

/-- `prc_prm_excluded` -/
def prcPrmExcluded : List CString :=
  [ascii "(kworker)", ascii "(systemd)", ascii "(migration)", ascii "(rcu)", ascii "(ksoftirq)",
    ascii "(bioset)"]

/-- `prd_excluded`; the first three names are one string. -/
def prdExcluded : List CString :=
  [ascii "(nethogs), (python), (kworker)", ascii "(migration)", ascii "(rcu)", ascii "(ksoftirq)",
    ascii "(bash)", ascii "(bioset)", ascii "(sshd)", ascii "(ssh)"]

def commandExcluded (cmd : CString) (names : List CString) : Bool :=
  names.any (strstr cmd)

/-- `cmd`, with 80 bytes. -/
def procCmd (comm : CString) : CString :=
  truncated 80 (ascii "(" ++ comm ++ ascii ")")

/-- `tags`, with 900 bytes. -/
def procTags (hostTag : CString) (pid : ℕ) (commandTag : CString) : CString :=
  truncated 900 (ascii "\"host\": \"" ++ hostTag ++ ascii "\", \"pid\": \"" ++ decimal pid ++
    ascii "\", \"command\": \"" ++ commandTag ++ ascii "\"")

/-- Names that `validator.py` does not accept. -/
def procSkipped (opts : SampleOptions) (comm : CString) : Bool :=
  strpbrk comm (ascii " @[]\"\\") || strpbrk opts.hostTag (ascii "@[]")

/-- The documents of a process: metric and value. -/
def procValues (opts : SampleOptions) (db : Doubles) (prevProcs : List ProcInfo) (iv : ℕ) (p : ProcInfo) :
    List (String × Printed) :=
  let cmd := procCmd p.comm
  -- the counters of a new process count from its start
  let q := (findPrev prevProcs p.pid).filter fun q => q.start == p.start
  let excluded := commandExcluded cmd prcPrmExcluded
  let user := db.cpu (p.utime - (q.map ProcInfo.utime).getD 0) iv
  let kernel := db.cpu (p.stime - (q.map ProcInfo.stime).getD 0) iv
  let cpuSent := !excluded && 5 ≤ user.hundredths + kernel.hundredths
  let wait := db.wait p.waitNs iv
  let vmem := db.mb p.vmemKb
  let rmem := db.mb p.rmemKb
  let qIo := q.filter ProcInfo.ioOk
  let reads := db.disk (if p.ioOk then p.rsz - (qIo.map ProcInfo.rsz).getD 0 else 0) iv
  let writes := db.disk (if p.ioOk then p.wsz - (qIo.map ProcInfo.wsz).getD 0 else 0) iv
  (if opts.gPRC && cpuSent then [("proc.cpu.user", user), ("proc.cpu.kernel", kernel)] else []) ++
  (if opts.gPRW && !excluded && (cpuSent || 5 ≤ wait.hundredths) then [("proc.cpu.wait", wait)] else []) ++
  (if opts.gPRM && 1000 ≤ vmem.hundredths && 1000 ≤ rmem.hundredths then
    [("proc.mem.virtual", vmem), ("proc.mem.resident", rmem)] else []) ++
  (if opts.gPRD && !commandExcluded cmd prdExcluded &&
      (cmd == ascii "(systemd)" || 5 ≤ reads.hundredths + writes.hundredths) then
    [("proc.disk.reads.mb", reads), ("proc.disk.writes.mb", writes)] else [])

/-- One process of the loop of `sample_procs`: the calls of `add_doc`. -/
def procDocs (opts : SampleOptions) (db : Doubles) (prevProcs : List ProcInfo) (ts : ℤ) (iv : ℕ)
    (p : ProcInfo) : List DocArgs :=
  if procSkipped opts p.comm then []
  else
    let tags := procTags opts.hostTag p.pid (processString (procCmd p.comm) 256)
    (procValues opts db prevProcs iv p).map fun v => ⟨ascii v.1, ts, v.2.text, tags⟩

/-- `sample_procs`: the calls of `add_doc` and the sample that becomes the previous
    one; `none` if `/proc` cannot be opened. -/
def sampleProcs (opts : SampleOptions) (db : Doubles) (ts : ℤ) (iv : ℕ) (listing : Option (List ProcEntry))
    (prev : ProcState) : List DocArgs × ProcState :=
  match listing with
  | none => ([], prev)
  | some entries =>
    let next := nextState opts prev entries
    (if 0 < iv then next.prevProcs.flatMap (procDocs opts db prev.prevProcs ts iv) else [], next)

/-! ## Network interfaces -/

/-- A line of `/proc/net/dev`, and the counters `rx` and `tx` if nine numbers can be
    read behind the colon. -/
structure NetLine where
  line : CString
  counters : Option (UInt64 × UInt64)

structure IfCounters where
  name : CString
  rx : UInt64
  tx : UInt64

/-- What `/sys/class/net` has on an interface: the number in `speed` and the text in
    `duplex`. -/
structure SysNet where
  speed : CString → Option ℤ
  duplex : CString → Option CString

/-- `read_long_file(…, 0)`, and 0 for a negative speed. -/
def readSpeed (sys : SysNet) (name : CString) : ℤ :=
  let speed := (sys.speed name).getD 0
  if speed < 0 then 0 else speed

def readDuplex (sys : SysNet) (name : CString) : Bool :=
  match sys.duplex name with
  | none => false
  | some buf => (ascii "full").isPrefixOf (truncated 32 buf)

/-- `MAX_IFS` -/
def maxIfs : ℕ := 64

/-- The name before the colon, without the leading spaces. -/
def ifName (line : CString) : CString :=
  truncated 64 ((line.takeWhile (· != colon)).dropWhile (· == 32))

/-- The interface of a line. -/
def NetLine.counters? (l : NetLine) : Option IfCounters :=
  if l.line.contains colon then l.counters.map fun c => ⟨ifName l.line, c.1, c.2⟩ else none

def currentIfs (file : List NetLine) : List IfCounters :=
  (file.filterMap NetLine.counters?).take maxIfs

/-- `tags`, with 600 bytes. -/
def netTags (hostTag device : CString) : CString :=
  truncated 600 (ascii "\"host\": \"" ++ hostTag ++ ascii "\", \"device\": \"" ++ device ++ ascii "\"")

/-- The three documents of a device. -/
def netDocs (hostTag device : CString) (ts : ℤ) (inS outS usage : CString) : List DocArgs :=
  [⟨ascii "sys.net.in.mb", ts, inS, netTags hostTag device⟩,
    ⟨ascii "sys.net.out.mb", ts, outS, netTags hostTag device⟩,
    ⟨ascii "sys.net.usage", ts, usage, netTags hostTag device⟩]

/-- The documents of the devices `transport` and `network`. -/
def upperDocs (opts : SampleOptions) (db : Doubles) (ts : ℤ) (iv : ℕ) (device : CString) : List DocArgs :=
  let inS := db.upper iv
  netDocs opts.hostTag device ts inS.text inS.text (db.upperUsage inS).text

/-- The documents of an interface that the previous sample has as `p`. -/
def ifDocs (opts : SampleOptions) (db : Doubles) (sys : SysNet) (ts : ℤ) (iv : ℕ) (cur p : IfCounters) :
    List DocArgs :=
  let speed := readSpeed sys cur.name
  let inS := db.net ((cur.rx - p.rx) * 8) iv
  let outS := db.net ((cur.tx - p.tx) * 8) iv
  netDocs opts.hostTag cur.name ts inS.text outS.text
    (if 0 < speed then (db.usage inS outS speed (readDuplex sys cur.name)).text else decimal speed)

/-- `sample_net`: the calls of `add_doc` and the interfaces that become the previous
    ones (`none`: no sample yet); the file is `none` if it cannot be opened. -/
def sampleNet (opts : SampleOptions) (db : Doubles) (sys : SysNet) (ts : ℤ) (iv : ℕ)
    (file : Option (List NetLine)) (prev : Option (List IfCounters)) :
    List DocArgs × Option (List IfCounters) :=
  match file with
  | none => ([], prev)
  | some lines =>
    let cur := currentIfs lines
    let docs := match prev with
      | none => []
      | some prevIfs =>
        if 0 < iv ∧ opts.gNET = true then
          [ascii "transport", ascii "network"].flatMap (upperDocs opts db ts iv) ++
            cur.flatMap fun c => ((prevIfs.find? fun p => p.name == c.name).map
              (ifDocs opts db sys ts iv c)).getD []
        else []
    (docs, some cur)

/-! ## Nothing is cut -/

theorem truncated_eq {size : ℕ} {text : CString} (h : text.length < size) : truncated size text = text :=
  List.take_of_length_le (Nat.le_sub_one_of_lt h)

theorem length_decimal_le {n k : ℕ} (h : n < 10 ^ k) (hk : 0 < k) : (decimal n).length ≤ k := by
  rw [decimal_eq, List.length_map]
  exact (Nat.length_toDigits_le_iff (by decide) hk).2 h

theorem Printed.text_eq (v : Printed) : v.text = v.digits := by
  have hlen : (decimal (v.hundredths / 100 : ℕ)).length ≤ 40 :=
    length_decimal_le (Nat.lt_of_le_of_lt (Nat.div_le_self _ _) v.hundredths_lt) (by decide)
  refine truncated_eq ?_
  unfold digits
  rw [List.length_append]
  show _ + 3 < 64
  omega

theorem procCmd_eq {comm : CString} (h : comm.length ≤ pnamLen) :
    procCmd comm = ascii "(" ++ comm ++ ascii ")" := by
  have hlen : comm.length ≤ 15 := h
  refine truncated_eq ?_
  rw [List.length_append, List.length_append]
  show 1 + _ + 1 < 80
  omega

/-- The tags of a process fit into their buffer. -/
theorem procTags_eq {opts : SampleOptions} {pid : ℕ} {commandTag : CString} (hpid : pid < 2 ^ 31)
    (hcommand : commandTag.length < 256) :
    procTags opts.hostTag pid commandTag =
      ascii "\"host\": \"" ++ opts.hostTag ++ ascii "\", \"pid\": \"" ++ decimal pid ++
        ascii "\", \"command\": \"" ++ commandTag ++ ascii "\"" := by
  have hhost := opts.hostTag_length
  have hlen : (decimal pid).length ≤ 10 := length_decimal_le (by omega) (by decide)
  refine truncated_eq ?_
  simp only [List.length_append]
  show 9 + _ + 11 + _ + 15 + _ + 1 < 900
  omega

/-- The tags of an interface fit into their buffer. -/
theorem netTags_eq {opts : SampleOptions} {device : CString} (h : device.length < 64) :
    netTags opts.hostTag device =
      ascii "\"host\": \"" ++ opts.hostTag ++ ascii "\", \"device\": \"" ++ device ++ ascii "\"" := by
  have hhost := opts.hostTag_length
  refine truncated_eq ?_
  simp only [List.length_append]
  show 9 + _ + 14 + _ + 1 < 600
  omega

end ServerlessYarn
