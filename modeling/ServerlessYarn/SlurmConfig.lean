/-
  ServerlessYARN model — a job of Slurm becomes the inventory (`scripts/config/load_config_from_slurm.py`, with
  `load_inventory_from_conf.py` behind it).

  The nodes, the cores and the memory of a job are read from texts and go into the configuration,
  in which the first node is the server and is counted as a host only if it is one.

  * `getNodesCpus_written`, `getNodesMemory_written`: what is read of the texts that Slurm writes;
  * `slurm_inventory`: the hosts of the inventory are the nodes of the job, with its cores and memory.
-/
import ServerlessYarn.DiskRegistration
import ServerlessYarn.InventoryReload
import ServerlessYarn.Texts

namespace ServerlessYarn

open Inventory StateDatabase

namespace SlurmConfig

/-! ## The script -/

/-- What the script reads: the outputs of `scontrol show hostnames` and of `scontrol -o show nodes`,
    `SLURM_JOB_CPUS_PER_NODE`, and the file that tells whether SMT is active. -/
structure SlurmJob where
  hostnames : List Char
  node : List Char
  cpus_per_node : Option (List Char)
  smt_active : Option (List Char)

/-- `getHostList`; `address` is `socket.gethostbyname`. -/
def getHostList (address : String → Py String) (output : List Char) : Py (String × List String) :=
  match (splitlinesFrom [] output).map String.ofList with
  | [] => .error .indexError
  | server :: hostlist => do
    let server_ip ← address server
    return (server_ip, server :: hostlist)

def isOpening (c : Char) : Bool := c = '(' || c = '['

def isClosing (c : Char) : Bool := c = ')' || c = ']'

/-- `re.sub("[\(\[].*?[\)\]]", "", text)`; `pending` is what has been read since a bracket was opened. -/
def removeBrackets : List Char → List Char → List Char
  | pending, [] => pending
  | [], c :: cs => if isOpening c then removeBrackets [c] cs else c :: removeBrackets [] cs
  | p :: pending, c :: cs =>
    if isClosing c then removeBrackets [] cs
    else if c = '\n' then p :: pending ++ '\n' :: removeBrackets [] cs
    else removeBrackets (p :: pending ++ [c]) cs

/-- A file that cannot be read says that SMT is not active. -/
def smtActive (r : IntReader) : Option (List Char) → Bool
  | none => false
  | some text =>
    match readInt r (strip text) with
    | .ok n => 0 < n
    | .error _ => false

/-- `getNodesCpus` -/
def getNodesCpus (r : IntReader) (disable_smt : Bool) (job : SlurmJob) : Py ℤ :=
  match job.cpus_per_node with
  | none => .error .typeError
  | some [] => .error (.exception "Can't get node CPUs")
  | some text => do
    let cpus_per_node ←
      match readInt r text with
      | .ok cpus => .ok cpus
      | .error _ => readInt r (removeBrackets [] text)
    return if !disable_smt && smtActive r job.smt_active then cpus_per_node * 2 else cpus_per_node

/-- The memory in an item of the output, if it tells it. -/
def itemMemory (r : IntReader) (item : List Char) : Py (Option ℤ) :=
  if hasText "AllocMem" (String.ofList item) then
    match item.splitOn '=' with
    | _ :: value :: _ => (readInt r value).map some
    | _ => .error .indexError
  else .ok none

/-- The last item that tells the memory counts. -/
def readAlloc (r : IntReader) (allocMem : Option ℤ) (item : List Char) : Py (Option ℤ) :=
  (itemMemory r item).map fun memory => memory.or allocMem

/-- `getNodesMemory`; `scale` multiplies by the memory factor. -/
def getNodesMemory (r : IntReader) (scale : ℤ → ℤ) (output : List Char) : Py ℤ := do
  let allocMem ← (output.splitOn ' ').foldlM (readAlloc r) none
  match allocMem with
  | some memory => return scale memory
  | none => .error (.exception "Can't get node Memory")

/-- `update_config_file`, for the fields that the inventory is made from. -/
def updateConfigFile (server_ip : String) (hosts : List String) (cpus_per_node memory_per_node : ℤ)
    (config : InventoryConfig) : InventoryConfig :=
  { config with
    server_ip := server_ip
    cpus_server_node := cpus_per_node
    memory_server_node := memory_per_node
    number_of_hosts := if config.server_as_host then hosts.length else hosts.length - 1
    cpus_per_host := cpus_per_node
    memory_per_host := memory_per_node
    hostnames := some (String.intercalate "," hosts)
    number_of_containers_per_node := 0 }

/-- The script; the modules of the configuration are merged behind it. -/
def loadConfigFromSlurm (r : IntReader) (address : String → Py String) (scale : ℤ → ℤ) (disable_smt : Bool)
    (job : SlurmJob) (config : InventoryConfig) : Py InventoryConfig := do
  let (server_ip, hosts) ← getHostList address job.hostnames
  let cpus_per_node ← getNodesCpus r disable_smt job
  let memory_per_node ← getNodesMemory r scale job.node
  return updateConfigFile server_ip hosts cpus_per_node memory_per_node config

/-! ## What Slurm writes -/

/-- A name of a node, as it can stand in a list. -/
def IsNodeName (name : String) : Prop :=
  name ≠ "" ∧ ',' ∉ name.toList ∧ ∀ c ∈ name.toList, isLineBoundary c = false

/-- The same, as a test. -/
def isNodeName (name : String) : Bool :=
  !name.toList.isEmpty && name.toList.all fun c => c != ',' && !isLineBoundary c

theorem isNodeName_iff {name : String} : isNodeName name = true ↔ IsNodeName name := by
  simp only [isNodeName, IsNodeName, Bool.and_eq_true, Bool.not_eq_true', List.all_eq_true, bne_iff_ne]
  constructor
  · rintro ⟨hne, hall⟩
    refine ⟨?_, fun hmem => (hall _ hmem).1 rfl, fun c hc => (hall c hc).2⟩
    rintro rfl
    cases hne
  · rintro ⟨hne, hcomma, hline⟩
    refine ⟨by simpa using hne, fun c hc => ⟨?_, hline c hc⟩⟩
    rintro rfl
    exact hcomma hc

theorem splitlinesFrom_line {name : List Char} (hname : ∀ c ∈ name, isLineBoundary c = false)
    (line rest : List Char) :
    splitlinesFrom line (name ++ '\n' :: rest) = (line.reverse ++ name) :: splitlinesFrom [] rest := by
  induction name generalizing line with
  | nil => simp [splitlinesFrom, isLineBoundary]
  | cons c name ih =>
    have hc := hname c List.mem_cons_self
    have hne : c ≠ '\r' := by
      rintro rfl
      exact absurd hc (by decide)
    rw [List.cons_append, splitlinesFrom, hc, if_neg (by decide), ih fun d hd => hname d (List.mem_cons_of_mem _ hd)]
    · simp
    · rintro _ rfl _
      exact hne rfl

/-- The names of the nodes, one a line. -/
theorem splitlinesFrom_lines {names : List String} (hnames : ∀ name ∈ names, IsNodeName name) :
    (splitlinesFrom [] (names.flatMap fun name => name.toList ++ ['\n'])).map String.ofList = names := by
  induction names with
  | nil => rfl
  | cons name names ih =>
    rw [List.flatMap_cons, List.append_assoc, List.singleton_append,
      splitlinesFrom_line (hnames name List.mem_cons_self).2.2, List.map_cons,
      ih fun name' hname' => hnames name' (List.mem_cons_of_mem _ hname')]
    simp

/-- What stands in brackets is left out. -/
theorem removeBrackets_group {inner : List Char} (hinner : ∀ c ∈ inner, isClosing c = false ∧ c ≠ '\n') (p : Char)
    (pending rest : List Char) :
    removeBrackets (p :: pending) (inner ++ ')' :: rest) = removeBrackets [] rest := by
  induction inner generalizing pending with
  | nil => rw [List.nil_append, removeBrackets, if_pos (by decide)]
  | cons c inner ih =>
    obtain ⟨hclosing, hline⟩ := hinner c List.mem_cons_self
    rw [List.cons_append, removeBrackets, hclosing, if_neg (by decide), if_neg hline]
    exact ih (fun d hd => hinner d (List.mem_cons_of_mem _ hd)) (pending ++ [c])

theorem removeBrackets_plain {s : List Char} (hs : ∀ c ∈ s, isOpening c = false) (rest : List Char) :
    removeBrackets [] (s ++ rest) = s ++ removeBrackets [] rest := by
  induction s with
  | nil => rfl
  | cons c s ih =>
    rw [List.cons_append, removeBrackets, hs c List.mem_cons_self, if_neg (by decide),
      ih fun d hd => hs d (List.mem_cons_of_mem _ hd)]
    rfl

/-- The cores of each node: a number, and for how many nodes it holds. -/
def IsCpus (n : ℕ) (text : List Char) : Prop :=
  text = Nat.toDigits 10 n ∨
    ∃ inner, (∀ c ∈ inner, isClosing c = false ∧ c ≠ '\n') ∧ text = Nat.toDigits 10 n ++ '(' :: (inner ++ [')'])

theorem isOpening_digit {n : ℕ} : ∀ c ∈ Nat.toDigits 10 n, isOpening c = false := by
  intro c hc
  have hdigit : c.isDigit = true := Nat.isDigit_of_mem_toDigits (by decide) (by decide) hc
  rw [← Bool.not_eq_true]
  intro hopening
  simp only [isOpening, Bool.or_eq_true, decide_eq_true_eq] at hopening
  rcases hopening with rfl | rfl <;> exact absurd hdigit (by decide)

/-- How many cores a node has, with two threads each if they are counted. -/
def counted (disable_smt : Bool) (job : SlurmJob) (n : ℤ) : ℤ :=
  if !disable_smt && smtActive asciiReader job.smt_active then n * 2 else n

theorem getNodesCpus_written {disable_smt : Bool} {job : SlurmJob} {n : ℕ} {text : List Char}
    (htext : job.cpus_per_node = some text) (hcpus : IsCpus n text) (hlength : (Nat.toDigits 10 n).length ≤ 4300) :
    getNodesCpus asciiReader disable_smt job = .ok (counted disable_smt job n) := by
  have hne : Nat.toDigits 10 n ≠ [] := Nat.toDigits_ne_nil
  have hread := readInt_toDigits hlength
  unfold getNodesCpus
  rw [htext]
  rcases hcpus with rfl | ⟨inner, hinner, rfl⟩
  · obtain ⟨c, cs, hcs⟩ := List.exists_cons_of_ne_nil hne
    rw [hcs] at hread ⊢
    dsimp only
    rw [hread]
    rfl
  · have hbrackets : removeBrackets [] (Nat.toDigits 10 n ++ '(' :: (inner ++ [')'])) = Nat.toDigits 10 n := by
      rw [removeBrackets_plain isOpening_digit, removeBrackets, if_pos (by decide), removeBrackets_group hinner,
        removeBrackets, List.append_nil]
    have hmem : '(' ∈ Nat.toDigits 10 n ++ '(' :: (inner ++ [')']) := by simp
    have hbroken : ∀ m, readInt asciiReader (Nat.toDigits 10 n ++ '(' :: (inner ++ [')'])) ≠ .ok m :=
      readInt_ne_ok (by decide) (by decide) rfl hmem
    cases hfirst : readInt asciiReader (Nat.toDigits 10 n ++ '(' :: (inner ++ [')'])) with
    | ok m => exact absurd hfirst (hbroken m)
    | error e =>
      obtain ⟨c, cs, hcs⟩ := List.exists_cons_of_ne_nil (List.ne_nil_of_mem hmem)
      rw [hcs] at hfirst hbrackets ⊢
      dsimp only
      rw [hfirst]
      dsimp only
      rw [hbrackets, hread]
      rfl

/-- The output about a node: items with blanks between them, of which one tells the memory. -/
structure IsMemory (m : ℕ) (output : List Char) : Prop where
  items : ∃ before behind, output = List.intercalate [' ']
    (before ++ ("AllocMem=".toList ++ Nat.toDigits 10 m) :: behind) ∧
    ∀ item ∈ before ++ behind, ' ' ∉ item ∧ hasText "AllocMem" (String.ofList item) = false

theorem not_mem_digits {c : Char} (hc : c.isDigit = false) (n : ℕ) : c ∉ Nat.toDigits 10 n := by
  intro hmem
  rw [Nat.isDigit_of_mem_toDigits (by decide) (by decide) hmem] at hc
  cases hc

theorem itemMemory_alloc {m : ℕ} (hlength : (Nat.toDigits 10 m).length ≤ 4300) :
    itemMemory asciiReader ("AllocMem=".toList ++ Nat.toDigits 10 m) = .ok (some (m : ℤ)) := by
  have htext : hasText "AllocMem" (String.ofList ("AllocMem=".toList ++ Nat.toDigits 10 m)) = true := by
    have hlist : (String.ofList ("AllocMem=".toList ++ Nat.toDigits 10 m)).toList =
        "AllocMem=".toList ++ Nat.toDigits 10 m := String.toList_ofList
    rw [hasText, hlist, decide_eq_true_eq]
    exact ⟨[], '=' :: Nat.toDigits 10 m, rfl⟩
  have hsplit : ("AllocMem=".toList ++ Nat.toDigits 10 m).splitOn '=' = ["AllocMem".toList, Nat.toDigits 10 m] := by
    have hitem : "AllocMem=".toList ++ Nat.toDigits 10 m = "AllocMem".toList ++ '=' :: Nat.toDigits 10 m := rfl
    rw [hitem, List.splitOn_append_cons_self_of_not_mem (by decide),
      List.splitOn_eq_singleton (not_mem_digits (by decide) m)]
  rw [itemMemory, if_pos htext, hsplit]
  dsimp only
  rw [readInt_toDigits hlength]
  rfl

theorem foldlM_itemMemory_none {items : List (List Char)}
    (hitems : ∀ item ∈ items, hasText "AllocMem" (String.ofList item) = false) (allocMem : Option ℤ) :
    items.foldlM (readAlloc asciiReader) allocMem = .ok allocMem := by
  induction items with
  | nil => rfl
  | cons item items ih =>
    have hitem : itemMemory asciiReader item = .ok none := by
      rw [itemMemory, hitems item List.mem_cons_self, if_neg (by decide)]
    rw [List.foldlM_cons, readAlloc, hitem]
    exact ih fun item' hitem' => hitems item' (List.mem_cons_of_mem _ hitem')

theorem getNodesMemory_written {scale : ℤ → ℤ} {m : ℕ} {output : List Char} (h : IsMemory m output)
    (hlength : (Nat.toDigits 10 m).length ≤ 4300) : getNodesMemory asciiReader scale output = .ok (scale m) := by
  obtain ⟨before, behind, rfl, hitems⟩ := h.items
  have hbefore : ∀ item ∈ before, _ := fun item hitem => hitems item (List.mem_append_left _ hitem)
  have hbehind : ∀ item ∈ behind, _ := fun item hitem => hitems item (List.mem_append_right _ hitem)
  have hsplit : (List.intercalate [' '] (before ++ ("AllocMem=".toList ++ Nat.toDigits 10 m) :: behind)).splitOn ' ' =
      before ++ ("AllocMem=".toList ++ Nat.toDigits 10 m) :: behind := by
    refine List.splitOn_intercalate ' ' (fun item hitem => ?_) (by simp)
    rcases List.mem_append.1 hitem with hitem | hitem
    · exact (hbefore item hitem).1
    · rcases List.mem_cons.1 hitem with rfl | hitem
      · rw [List.mem_append, not_or]
        exact ⟨by decide, not_mem_digits (by decide) m⟩
      · exact (hbehind item hitem).1
  have hread : (before ++ ("AllocMem=".toList ++ Nat.toDigits 10 m) :: behind).foldlM (readAlloc asciiReader) none =
      .ok (some (m : ℤ)) := by
    rw [List.foldlM_append, foldlM_itemMemory_none fun item hitem => (hbefore item hitem).2]
    change (readAlloc asciiReader none _ >>= fun allocMem => behind.foldlM (readAlloc asciiReader) allocMem) = _
    rw [readAlloc, itemMemory_alloc hlength]
    exact foldlM_itemMemory_none (fun item hitem => (hbehind item hitem).2) _
  rw [getNodesMemory, hsplit, hread]
  rfl

theorem splitComma_intercalate {names : List String} (hne : names ≠ []) (hnames : ∀ name ∈ names, IsNodeName name) :
    splitComma (String.intercalate "," names) = names := by
  have hsep : ",".toList = [','] := rfl
  rw [splitComma, String.toList_intercalate, hsep, List.splitOn_intercalate ',' ?_ (by simpa using hne), List.map_map]
  · simp
  · intro l hl
    obtain ⟨name, hname, rfl⟩ := List.mem_map.1 hl
    exact (hnames name hname).2.1

/-! ## The inventory -/

/-- What the script has read of a job is what Slurm has written about it. -/
structure Describes (job : SlurmJob) (names : List String) (n m : ℕ) : Prop where
  hostnames : job.hostnames = names.flatMap fun name => name.toList ++ ['\n']
  cpus : ∃ text, job.cpus_per_node = some text ∧ IsCpus n text
  memory : IsMemory m job.node
  named : ∀ name ∈ names, IsNodeName name
  distinct : names.Nodup
  readable : (Nat.toDigits 10 n).length ≤ 4300 ∧ (Nat.toDigits 10 m).length ≤ 4300

theorem loadConfigFromSlurm_eq {address : String → Py String} {scale : ℤ → ℤ} {disable_smt : Bool} {job : SlurmJob}
    {config : InventoryConfig} {server server_ip : String} {hostnames : List String} {n m : ℕ}
    (h : Describes job (server :: hostnames) n m) (haddress : address server = .ok server_ip) :
    loadConfigFromSlurm asciiReader address scale disable_smt job config =
      .ok (updateConfigFile server_ip (server :: hostnames) (counted disable_smt job n) (scale m) config) := by
  obtain ⟨text, htext, hcpus⟩ := h.cpus
  have hlist : getHostList address job.hostnames = .ok (server_ip, server :: hostnames) := by
    rw [getHostList, h.hostnames, splitlinesFrom_lines h.named]
    dsimp only
    rw [haddress]
    rfl
  rw [loadConfigFromSlurm, hlist, getNodesCpus_written htext hcpus h.readable.1,
    getNodesMemory_written h.memory h.readable.2]
  rfl

/-- The configuration of a job has enough hosts: its list has the server in it, the number only if the server is a
    host. -/
theorem updateConfigFile_valid {config : InventoryConfig} {server_ip server : String} {hostnames : List String}
    {cpus memory : ℤ} (hnamed : ∀ name ∈ server :: hostnames, IsNodeName name)
    (hdistinct : (server :: hostnames).Nodup)
    (hcpus : 0 < cpus) (hmemory : 0 < memory) (henergy : config.power_budgeting = true → 0 < config.energy_per_host) :
    (updateConfigFile server_ip (server :: hostnames) cpus memory config).Valid server hostnames ∧
      (updateConfigFile server_ip (server :: hostnames) cpus memory config).hostNames server hostnames =
        if config.server_as_host then server :: hostnames else hostnames := by
  have hregular : (updateConfigFile server_ip (server :: hostnames) cpus memory config).regularHosts =
      hostnames.length := by
    unfold InventoryConfig.regularHosts updateConfigFile
    dsimp only
    rw [List.length_cons]
    split_ifs <;> omega
  have hnames : (updateConfigFile server_ip (server :: hostnames) cpus memory config).hostNames server hostnames =
      if config.server_as_host then server :: hostnames else hostnames := by
    unfold InventoryConfig.hostNames
    rw [hregular, List.take_length]
    change (if config.server_as_host = true then [server] else []) ++ hostnames = _
    split_ifs <;> rfl
  refine ⟨⟨?_, hregular.le, ?_, ?_, ⟨hcpus, hmemory⟩, fun _ => ⟨hcpus, hmemory⟩, henergy⟩, hnames⟩
  · exact congrArg some (splitComma_intercalate (List.cons_ne_nil _ _) hnamed)
  · rw [hnames]
    split_ifs
    · exact hdistinct
    · exact (List.nodup_cons.1 hdistinct).2
  · intro name hname
    rw [hnames] at hname
    rcases List.mem_cons.1 hname with rfl | hname
    · exact (hnamed _ List.mem_cons_self).1
    · split_ifs at hname
      · exact (hnamed _ hname).1
      · exact (hnamed _ (List.mem_cons_of_mem _ hname)).1

/-- The inventory of a configuration with enough hosts. -/
theorem load_of_valid {expandvars : String → String} {config : InventoryConfig} {previous : Inventory}
    {server_name : String} {hostnames : List String}
    (hprevious : HasDefaults previous ∧ NodesStored DisksTyped previous)
    (hvalid : config.Valid server_name hostnames) {resources : NodeResources}
    (hres : createResourceDict expandvars config = .ok resources) :
    ∃ inv, loadInventoryFromConf expandvars false config previous = .ok inv ∧
      (∀ name, name ∈ inv.getNodeHostnames ↔ name ∈ config.hostNames server_name hostnames) ∧
      ∀ node ∈ config.nodes expandvars resources server_name hostnames, Reloaded previous.plain inv.plain node := by
  obtain ⟨inv₁, hserver, hnone⟩ := addServer_empty config.server_ip server_name
  obtain ⟨-, -, -, hdisks⟩ := createResourceDict_spec hres
  obtain ⟨previous_disks, hold⟩ := previousDisks_ok hprevious.1 hprevious.2 none
  obtain ⟨disks, hupdate, -⟩ := updateDisksBandwidths_spec hold hdisks
  rw [loadInventoryFromConf_eq hvalid hserver, hres]
  simp only [bind, Except.bind, hupdate]
  obtain ⟨hempty, henergy⟩ := addNodeGroup_new hnone { resources with disks }
  have hinv : HasDefaults (inv₁.addNodeGroup (NodeResources.vars { resources with disks })) :=
    addNodeGroup_hasDefaults inv₁ (NodeResources.vars_emptiable _)
  have hdistinct : ((config.nodes expandvars resources server_name hostnames).map (·.hostname)).Nodup := by
    rw [InventoryConfig.map_hostname_nodes]
    exact hvalid.distinct
  obtain ⟨inv, hadd, hhosts, hreloaded, -⟩ := addNodes_spec hprevious hinv hdistinct
    (InventoryConfig.unmeasured_nodes hdisks) (hvalid.allowed hres henergy)
  refine ⟨inv, hadd, fun name => ?_, hreloaded⟩
  rw [← mem_plain_hosts, hhosts, hempty, InventoryConfig.map_hostname_nodes]
  simp

/-- Every node of the configuration of a job has its cores and its memory, and no containers. -/
theorem node_of_job {expandvars : String → String} {config : InventoryConfig} {resources : NodeResources}
    {server_ip server : String} {hosts hostnames : List String} {cpus memory : ℤ}
    (hres : createResourceDict expandvars (updateConfigFile server_ip hosts cpus memory config) = .ok resources)
    {node : ConfiguredNode}
    (hnode : node ∈ (updateConfigFile server_ip hosts cpus memory config).nodes expandvars resources server
      hostnames) :
    node.resources.cpu = cpus ∧ node.resources.mem = memory ∧ node.containers = [] := by
  obtain ⟨hcpu, hmem, -⟩ := createResourceDict_spec hres
  rcases List.mem_append.1 hnode with hnode | hnode
  · split_ifs at hnode
    · obtain rfl := List.mem_singleton.1 hnode
      exact ⟨rfl, rfl, rfl⟩
    · exact absurd hnode List.not_mem_nil
  · obtain ⟨host_name, -, rfl⟩ := List.mem_map.1 hnode
    exact ⟨hcpu, hmem, rfl⟩

/-- The hosts of an inventory have the same cores and memory, and no containers. -/
structure HostsOf (inv : Inventory) (names : List String) (cpus memory : ℤ) : Prop where
  hosts : ∀ name, name ∈ inv.getNodeHostnames ↔ name ∈ names
  cpu : ∀ name ∈ names, inv.plain.value name "cpu" = some (.int cpus)
  mem : ∀ name ∈ names, inv.plain.value name "mem" = some (.int memory)
  containers : ∀ name ∈ names, inv.plain.value name "containers" = some (.containers [])

/-- A job with two nodes. -/
def twoNodes : SlurmJob where
  hostnames := "c1\nc2\n".toList
  node := "NodeName=c1 AllocMem=4096 Weight=1".toList
  cpus_per_node := some "16(x2)".toList
  smt_active := none

theorem twoNodes_describes : Describes twoNodes ["c1", "c2"] 16 4096 where
  hostnames := rfl
  cpus := by
    have hinner : "x2".toList.all (fun c => !isClosing c && c != '\n') = true := rfl
    refine ⟨_, rfl, Or.inr ⟨"x2".toList, fun c hc => ?_, rfl⟩⟩
    simpa using List.all_eq_true.1 hinner c hc
  memory := ⟨["NodeName=c1".toList], ["Weight=1".toList], rfl, by decide⟩
  named := by
    intro name hname
    have hnames : ["c1", "c2"].all isNodeName = true := rfl
    exact isNodeName_iff.1 (List.all_eq_true.1 hnames name hname)
  distinct := by simp
  readable := by decide

end SlurmConfig

end ServerlessYarn
