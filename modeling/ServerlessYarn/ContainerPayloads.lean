/-
  ServerlessYARN model — the registration of containers in the state database
  (`scripts/state_database/add_containers.py`).

  Every record of the list is turned into a request of its own.  The payload is filled on
  a copy of one template: a block for each resource, written out by hand for all but the
  two of the disk, and a loop for the limits.  Records and configuration are the dictionaries
  that JSON and YAML give.

  * `block_fills`: what a block writes for its resource;
  * `putFieldData_fills`: what a payload holds for its resources;
  * `addContainers_payloads`: the payloads that are sent are those of the first records.
-/
import ServerlessYarn.Lib.Run
import ServerlessYarn.Texts

namespace ServerlessYarn

namespace AddContainers

/-! ## Values -/

/-- A value that JSON or YAML gives; `F` is the type of floats.  Of a value of another
    type, such as a list, only its text and its truth are known. -/
inductive Value (F : Type) where
  | none
  | bool (t : Bool)
  | int (n : ℤ)
  | float (x : F)
  | text (s : String)
  | other (str : String) (truth : Bool)
deriving DecidableEq

/-- Python's numbers.  The text of a float is read back by `float` and not by `int`, and
    `float` reads the digits of an integer as the float of this integer. -/
structure Builtins (F : Type) where
  int : IntReader
  /-- `int(x)`, of a float. -/
  truncate : F → Py ℤ
  /-- `x == 0`, of a float. -/
  isZero : F → Bool
  /-- `float(n)`, of an integer. -/
  ofInt : ℤ → Py F
  /-- `float(s)`, of a text. -/
  read : String → Py F
  /-- `str(x)`, of a float. -/
  repr : F → String
  int_zero : readInt int ['0'] = .ok 0
  read_repr : ∀ x, read (repr x) = .ok x
  not_int_repr : ∀ x n, readInt int (repr x).toList ≠ .ok n
  read_int : ∀ s n x, readInt int s.toList = .ok n → ofInt n = .ok x → read s = .ok x

section values

variable {F : Type} (b : Builtins F)

/-- `int(v)`. -/
def toInt : Value F → Py ℤ
  | .bool t => .ok (if t then 1 else 0)
  | .int n => .ok n
  | .float x => b.truncate x
  | .text s => readInt b.int s.toList
  | _ => .error .typeError

/-- `float(v)`. -/
def toFloat : Value F → Py F
  | .bool t => b.ofInt (if t then 1 else 0)
  | .int n => b.ofInt n
  | .float x => .ok x
  | .text s => b.read s
  | _ => .error .typeError

/-- `v == 0`. -/
def isZero : Value F → Bool
  | .bool t => !t
  | .int n => n = 0
  | .float x => b.isZero x
  | _ => false

/-- `bool(v)`. -/
def truthy : Value F → Bool
  | .none => false
  | .bool t => t
  | .int n => n ≠ 0
  | .float x => !b.isZero x
  | .text s => s ≠ ""
  | .other _ truth => truth

/-- `str(v)`. -/
def str : Value F → String
  | .none => "None"
  | .bool t => if t then "True" else "False"
  | .int n => toString n
  | .float x => b.repr x
  | .text s => s
  | .other str _ => str

end values

/-- `v == 'true'`. -/
def Value.isTrueText {F : Type} : Value F → Bool
  | .text s => s = "true"
  | _ => false

/-! ## Records -/

/-- The entries of `cont_resources`. -/
inductive ContResource where
  | cpu | mem | energy | disk_read | disk_write
deriving DecidableEq

def ContResource.name : ContResource → String
  | cpu => "cpu"
  | mem => "mem"
  | energy => "energy"
  | disk_read => "disk_read"
  | disk_write => "disk_write"

inductive Setting where
  | max | min | guard | weight | boundary | boundary_type
deriving DecidableEq

def Setting.name : Setting → String
  | max => "max"
  | min => "min"
  | guard => "guard"
  | weight => "weight"
  | boundary => "boundary"
  | boundary_type => "boundary_type"

/-- `f'{res}_{setting}'`. -/
def key (r : ContResource) (s : Setting) : String := r.name ++ "_" ++ s.name

/-- A container record, or the configuration. -/
abbrev Record (F : Type) := Dict String (Value F)

/-- `cont.get(t)`, for a boolean: the keys of a JSON object are texts. -/
def Record.getBool {F : Type} (_ : Record F) (_ : Bool) : Option (Value F) := none

/-! ## The payload -/

/-- `put_field_data['container']`. -/
structure ContainerData (F : Type) where
  name : Value F
  resources : Dict String (Record F)
  host_rescaler_ip : Value F
  host_rescaler_port : String
  host : Value F
  guard : Bool
  subtype : String
deriving DecidableEq

/-- `put_field_data`; `limits` is the dictionary `put_field_data['limits']["resources"]`. -/
structure PutFieldData (F : Type) where
  container : ContainerData F
  limits : Dict String (Record F)
deriving DecidableEq

def rescaler_port : String := "8000"

def base_container_to_API (F : Type) : PutFieldData F where
  container :=
    { name := .text "base_container"
      resources := (Dict.empty.set "cpu" .empty).set "mem" .empty
      host_rescaler_ip := .text "base_host"
      host_rescaler_port := rescaler_port
      host := .text "base_host"
      guard := true
      subtype := "container" }
  limits := .empty

section payload

variable {F : Type} (b : Builtins F) (config cont : Record F)

/-- `put_field_data['container']['resources'][name] = entry`. -/
def PutFieldData.setResource (p : PutFieldData F) (name : String) (entry : Record F) : PutFieldData F :=
  { p with container := { p.container with resources := p.container.resources.set name entry } }

/-- `put_field_data['limits']["resources"][name] = entry`. -/
def PutFieldData.setLimits (p : PutFieldData F) (name : String) (entry : Record F) : PutFieldData F :=
  { p with limits := p.limits.set name entry }

/-- The entries of `put_field_data['container']` about the container itself. -/
def PutFieldData.describe (p : PutFieldData F) (container_name host : Value F) : PutFieldData F :=
  { p with container :=
    { p.container with name := container_name, host_rescaler_ip := host, host := host } }

/-- `int(cont[f'{res}_{setting}'])`. -/
def intAt (r : ContResource) (s : Setting) : Py ℤ := do
  let v ← getItem cont (key r s)
  toInt b v

/-- `cont.get(f'{res}_guard', 'true') == 'true'`. -/
def guardOf (r : ContResource) : Bool := ((cont.get? (key r .guard)).getD (.text "true")).isTrueText

/-- The weight of a resource, where the record has one. -/
def fillWeight (r : ContResource) (entry : Record F) : Py (Record F) :=
  match cont.get? (key r .weight) with
  | none => return entry
  | some v => do
    let weight ← toFloat b v
    return entry.set "weight" (.float weight)

/-- The block of a resource, on the entry that it has so far. -/
def block (r : ContResource) (current : Setting) (guard : Bool) (entry : Record F)
    (p : PutFieldData F) : Py (PutFieldData F) := do
  let max ← intAt b cont r .max
  let current ← intAt b cont r current
  let min ← intAt b cont r .min
  let entry := ((entry.set "max" (.int max)).set "current" (.int current)).set "min" (.int min)
  let entry ← fillWeight b cont r (entry.set "guard" (.bool guard))
  return p.setResource r.name entry

def cpuBlock (p : PutFieldData F) : Py (PutFieldData F) := do
  let entry ← getItem p.container.resources "cpu"
  block b cont .cpu .min (guardOf cont .cpu) entry p

/-- The guard is `cont.get('mem_guard' == 'true') == 'true'`. -/
def memBlock (p : PutFieldData F) : Py (PutFieldData F) := do
  let entry ← getItem p.container.resources "mem"
  block b cont .mem .min ((cont.getBool ("mem_guard" = "true")).any (·.isTrueText)) entry p

def energyBlock (p : PutFieldData F) : Py (PutFieldData F) :=
  block b cont .energy .max (guardOf cont .energy) .empty p

/-- The body of the loop over the metrics of the disk. -/
def metricBlock (metric : ContResource) (p : PutFieldData F) : Py (PutFieldData F) :=
  block b cont metric .min (guardOf cont metric) .empty p

/-- `'power_budgeting' in config and config['power_budgeting']`. -/
def powerBudgeting : Bool := (config.get? "power_budgeting").any (truthy b)

/-- `'disk' in cont and config['disk_capabilities'] and config['disk_scaling']`. -/
def diskScaling : Py Bool :=
  match cont.get? "disk" with
  | none => return false
  | some _ => do
    let disk_capabilities ← getItem config "disk_capabilities"
    if truthy b disk_capabilities then truthy b <$> getItem config "disk_scaling" else return false

/-- The energy, on the payload and `cont_resources`. -/
def energyPart (st : PutFieldData F × List ContResource) : Py (PutFieldData F × List ContResource) :=
  if powerBudgeting b config then do
    let p ← energyBlock b cont st.1
    return (p, st.2 ++ [.energy])
  else return st

def addDisk (st : PutFieldData F × List ContResource) : Py (PutFieldData F × List ContResource) := do
  let disk ← getItem cont "disk"
  let disk_path ← getItem cont "disk_path"
  let entry := (Dict.empty.set "name" disk).set "path" disk_path
  let p ← metricBlock b cont .disk_read (st.1.setResource "disk" entry)
  let p ← metricBlock b cont .disk_write p
  return (p, st.2 ++ [.disk_read, .disk_write])

/-- The disk, on the payload and `cont_resources`. -/
def diskPart (st : PutFieldData F × List ContResource) : Py (PutFieldData F × List ContResource) := do
  let scaling ← diskScaling b config cont
  if scaling then addDisk b cont st else return st

/-- The boundary of a resource, given that of its record. -/
def readBoundary (r : ContResource) (v : Value F) : Py ℤ :=
  if isZero b v then do
    let default ← getItem config (key r .boundary)
    toInt b default
  else toInt b v

def boundaryOf (r : ContResource) : Py ℤ := do
  let v ← getItem cont (key r .boundary)
  readBoundary b config r v

/-- The body of the loop over the limits. -/
def limitsStep (p : PutFieldData F) (r : ContResource) : Py (PutFieldData F) := do
  let boundary ← boundaryOf b config cont r
  let boundary_type ← getItem cont (key r .boundary_type)
  return p.setLimits r.name ((Dict.empty.set "boundary" (.int boundary)).set "boundary_type"
    (.text (str b boundary_type)))

/-- The payload of a record, filled on a copy of `base_container_to_API`. -/
def putFieldData : Py (PutFieldData F) := do
  let name ← getItem cont "container_name"
  let host ← getItem cont "host"
  let p ← cpuBlock b cont ((base_container_to_API F).describe name host)
  let p ← memBlock b cont p
  let st ← energyPart b config cont (p, [.cpu, .mem])
  let st ← diskPart b config cont st
  st.2.foldlM (limitsStep b config cont) st.1

end payload

/-! ## The requests -/

/-- What a request for a container leads to. -/
inductive Answer where
  | ok
  | error (status_code : ℕ) (error : String)
  | raised (e : PyError)

/-- A request that is sent: `full_url` and the payload. -/
structure PutRequest (F : Type) where
  full_url : String
  data : PutFieldData F

section requests

variable {F : Type} (b : Builtins F)

/-- What follows `web_request`; a container that exists already is only reported. -/
def checkAnswer : Answer → Py Unit
  | .ok => return ()
  | .error status_code error =>
    if status_code = 400 ∧ "already exists".toList <:+: error.toList then return ()
    else .error (.exception error)
  | .raised e => .error e

def putRequest (orchestrator_url : String) (config cont : Record F) : Py (PutRequest F) := do
  let name ← getItem cont "container_name"
  let data ← putFieldData b config cont
  return ⟨String.join [orchestrator_url, "/structure/container/", str b name], data⟩

/-- The loop over the records; `sent` holds the requests so far, on which the answer of
    the next one may depend. -/
def addLoop (web_request : List (PutRequest F) → Answer) (orchestrator_url : String)
    (config : Record F) : List (Record F) → List (PutRequest F) → List (PutRequest F) × Py Unit
  | [], sent => (sent, .ok ())
  | cont :: containers, sent =>
    match putRequest b orchestrator_url config cont with
    | .error e => (sent, .error e)
    | .ok request =>
      match checkAnswer (web_request (sent ++ [request])) with
      | .error e => (sent ++ [request], .error e)
      | .ok () => addLoop web_request orchestrator_url config containers (sent ++ [request])

def orchestratorUrl (config : Record F) : Py String := do
  let server_ip ← getItem config "server_ip"
  let orchestrator_port ← getItem config "orchestrator_port"
  return String.join ["http://", str b server_ip, ":", str b orchestrator_port]

/-- The script, up to the subscription to an application: the requests that are sent, and
    how it ends. -/
def addContainers (web_request : List (PutRequest F) → Answer) (config : Record F)
    (containers : List (Record F)) : List (PutRequest F) × Py Unit :=
  match orchestratorUrl b config with
  | .error e => ([], .error e)
  | .ok orchestrator_url => addLoop b web_request orchestrator_url config containers []

end requests

/-! ## What the blocks write -/

@[simp] theorem setResource_resources {F : Type} (p : PutFieldData F) (name : String) (entry : Record F) :
    (p.setResource name entry).container.resources = p.container.resources.set name entry := rfl

@[simp] theorem setResource_limits {F : Type} (p : PutFieldData F) (name : String) (entry : Record F) :
    (p.setResource name entry).limits = p.limits := rfl

@[simp] theorem setLimits_container {F : Type} (p : PutFieldData F) (name : String) (entry : Record F) :
    (p.setLimits name entry).container = p.container := rfl

@[simp] theorem setLimits_limits {F : Type} (p : PutFieldData F) (name : String) (entry : Record F) :
    (p.setLimits name entry).limits = p.limits.set name entry := rfl

theorem ContResource.name_injective {r r' : ContResource} (h : r.name = r'.name) : r = r' := by
  cases r <;> cases r' <;> first | rfl | exact absurd h (by decide)

section fills

variable {F : Type} {b : Builtins F} {config cont : Record F} {p p' : PutFieldData F}

/-- The weight that a record gives to a resource, where it has one. -/
def weightOf (b : Builtins F) (cont : Record F) (r : ContResource) : Py (Option F) :=
  match cont.get? (key r .weight) with
  | none => return none
  | some v => some <$> toFloat b v

/-- What an entry tells of a resource: the limits and the weight of the record, and the
    given guard. -/
structure Follows (b : Builtins F) (cont : Record F) (r : ContResource) (guard : Bool)
    (entry : Record F) : Prop where
  max : ∃ n, intAt b cont r .max = .ok n ∧ entry.get? "max" = some (.int n)
  min : ∃ n, intAt b cont r .min = .ok n ∧ entry.get? "min" = some (.int n)
  guard : entry.get? "guard" = some (.bool guard)
  weight : ∃ w, weightOf b cont r = .ok w ∧ entry.get? "weight" = w.map .float

/-- The guard that is sent; the one of the memory is not looked up under its key. -/
def sentGuard (cont : Record F) (r : ContResource) : Bool := r ≠ .mem && guardOf cont r

/-- A resource is filled, and the others stay. -/
structure Fills (b : Builtins F) (cont : Record F) (p : PutFieldData F) (r : ContResource)
    (p' : PutFieldData F) : Prop where
  filled : ∃ entry, p'.container.resources.get? r.name = some entry ∧
    Follows b cont r (sentGuard cont r) entry
  others : ∀ r' : ContResource, r' ≠ r →
    p'.container.resources.get? r'.name = p.container.resources.get? r'.name

theorem fillWeight_spec {r : ContResource} {entry entry' : Record F} (hentry : entry.get? "weight" = none)
    (h : fillWeight b cont r entry = .ok entry') :
    (∃ w, weightOf b cont r = .ok w ∧ entry'.get? "weight" = w.map .float) ∧
      ∀ k, k ≠ "weight" → entry'.get? k = entry.get? k := by
  unfold fillWeight at h
  unfold weightOf
  cases hv : cont.get? (key r .weight) with
  | none =>
    rw [hv] at h
    cases h
    exact ⟨⟨none, rfl, hentry⟩, fun _ _ => rfl⟩
  | some v =>
    simp only [hv, bind_eq_ok, pure_eq_ok] at h
    obtain ⟨x, hx, rfl⟩ := h
    refine ⟨⟨some x, ?_, Dict.get?_set_self _ _ _⟩, fun k hk => Dict.get?_set_of_ne _ _ hk⟩
    simp only [hx]
    rfl

/-- **What a block writes**, on an entry without a weight. -/
theorem block_fills {r : ContResource} {current : Setting} {entry : Record F}
    (hentry : entry.get? "weight" = none)
    (h : block b cont r current (sentGuard cont r) entry p = .ok p') : Fills b cont p r p' := by
  simp only [block, bind_eq_ok, pure_eq_ok] at h
  obtain ⟨max, hmax, cur, -, min, hmin, filled, hfilled, rfl⟩ := h
  obtain ⟨hweight, hkeep⟩ := fillWeight_spec (by simp [Dict.get?_set, hentry]) hfilled
  constructor
  · refine ⟨filled, by simp, ⟨max, hmax, ?_⟩, ⟨min, hmin, ?_⟩, ?_, hweight⟩
    · simp [hkeep "max" (by decide), Dict.get?_set]
    · simp [hkeep "min" (by decide), Dict.get?_set]
    · simp [hkeep "guard" (by decide)]
  · intro r' hr'
    exact Dict.get?_set_of_ne _ _ fun h => hr' (ContResource.name_injective h)

theorem cpuBlock_fills {entry : Record F} (hentry : p.container.resources.get? "cpu" = some entry)
    (hweight : entry.get? "weight" = none) (h : cpuBlock b cont p = .ok p') :
    Fills b cont p .cpu p' := by
  simp only [cpuBlock, bind_eq_ok, getItem_eq_ok] at h
  obtain ⟨entry', hentry', h⟩ := h
  obtain rfl := Option.some.inj (hentry.symm.trans hentry')
  exact block_fills hweight h

theorem memBlock_fills {entry : Record F} (hentry : p.container.resources.get? "mem" = some entry)
    (hweight : entry.get? "weight" = none) (h : memBlock b cont p = .ok p') :
    Fills b cont p .mem p' := by
  simp only [memBlock, bind_eq_ok, getItem_eq_ok] at h
  obtain ⟨entry', hentry', h⟩ := h
  obtain rfl := Option.some.inj (hentry.symm.trans hentry')
  exact block_fills hweight h

theorem energyBlock_fills (h : energyBlock b cont p = .ok p') : Fills b cont p .energy p' :=
  block_fills rfl h

theorem metricBlock_fills {metric : ContResource} (hmetric : metric ≠ .mem)
    (h : metricBlock b cont metric p = .ok p') : Fills b cont p metric p' := by
  have hguard : sentGuard cont metric = guardOf cont metric := by simp [sentGuard, hmetric]
  rw [metricBlock, ← hguard] at h
  exact block_fills rfl h

/-! ## What a payload holds -/

/-- The entries of `cont_resources` at the end. -/
def contained (b : Builtins F) (config cont : Record F) : List ContResource :=
  [.cpu, .mem] ++ (if powerBudgeting b config then [.energy] else []) ++
    (if diskScaling b config cont = .ok true then [.disk_read, .disk_write] else [])

theorem energyPart_run {st st' : PutFieldData F × List ContResource}
    (h : energyPart b config cont st = .ok st') :
    st'.2 = st.2 ++ (if powerBudgeting b config then [.energy] else []) ∧
      Run (Fills b cont) st.1 (if powerBudgeting b config then [.energy] else []) st'.1 := by
  unfold energyPart at h
  by_cases hpower : powerBudgeting b config = true
  · simp only [hpower, if_true, bind_eq_ok, pure_eq_ok] at h ⊢
    obtain ⟨p, hp, rfl⟩ := h
    exact ⟨rfl, .single (energyBlock_fills hp)⟩
  · simp only [hpower, if_false, Bool.false_eq_true, pure_eq_ok] at h ⊢
    subst h
    exact ⟨(List.append_nil _).symm, .nil⟩

theorem addDisk_run {st st' : PutFieldData F × List ContResource} (h : addDisk b cont st = .ok st') :
    st'.2 = st.2 ++ [.disk_read, .disk_write] ∧
      Run (Fills b cont) st.1 [.disk_read, .disk_write] st'.1 := by
  simp only [addDisk, bind_eq_ok, pure_eq_ok] at h
  obtain ⟨disk, -, path, -, p₁, hread, p₂, hwrite, rfl⟩ := h
  refine ⟨rfl, .cons ?_ (.single (metricBlock_fills (by decide) hwrite))⟩
  obtain ⟨hfilled, hothers⟩ := metricBlock_fills (by decide) hread
  refine ⟨hfilled, fun r' hr' => (hothers r' hr').trans ?_⟩
  rw [setResource_resources, Dict.get?_set_of_ne]
  cases r' <;> decide

theorem diskPart_run {st st' : PutFieldData F × List ContResource}
    (h : diskPart b config cont st = .ok st') :
    st'.2 = st.2 ++ (if diskScaling b config cont = .ok true then [.disk_read, .disk_write] else []) ∧
      Run (Fills b cont) st.1
        (if diskScaling b config cont = .ok true then [.disk_read, .disk_write] else []) st'.1 := by
  obtain ⟨scaling, hscaling, h⟩ := bind_eq_ok.1 h
  cases scaling with
  | true =>
    rw [if_pos hscaling]
    exact addDisk_run h
  | false =>
    cases h
    rw [if_neg (by simp [hscaling])]
    exact ⟨(List.append_nil _).symm, .nil⟩

/-- The resources that a run of blocks has filled. -/
theorem Fills.of_run {rs : List ContResource} (h : Run (Fills b cont) p rs p') :
    ∀ r ∈ rs, ∃ entry, p'.container.resources.get? r.name = some entry ∧
      Follows b cont r (sentGuard cont r) entry := by
  refine h.inv_hist (I := fun rs p' => ∀ r ∈ rs, ∃ entry,
    p'.container.resources.get? r.name = some entry ∧ Follows b cont r (sentGuard cont r) entry)
    (by simp) ?_
  intro rs p₁ r p₂ _ hrs hst r' hr'
  by_cases hne : r' = r
  · subst hne
    exact hst.filled
  · have hmem : r' ∈ rs := (List.mem_append.1 hr').resolve_right fun h => hne (List.mem_singleton.1 h)
    obtain ⟨entry, hentry, hfollows⟩ := hrs r' hmem
    exact ⟨entry, (hst.others r' hne).trans hentry, hfollows⟩

/-- The payload has the boundary of a resource. -/
def HasBoundary (b : Builtins F) (config cont : Record F) (p : PutFieldData F) (r : ContResource) :
    Prop :=
  ∃ n, boundaryOf b config cont r = .ok n ∧
    ∃ entry, p.limits.get? r.name = some entry ∧ entry.get? "boundary" = some (.int n)

theorem limits_fold {rs : List ContResource} (h : rs.foldlM (limitsStep b config cont) p = .ok p') :
    p'.container = p.container ∧ (∀ r, HasBoundary b config cont p r → HasBoundary b config cont p' r) ∧
      ∀ r ∈ rs, HasBoundary b config cont p' r := by
  induction rs generalizing p with
  | nil =>
    cases h
    exact ⟨rfl, fun _ hr => hr, by simp⟩
  | cons r rs ih =>
    rw [List.foldlM_cons, bind_eq_ok] at h
    obtain ⟨p₁, hstep, h⟩ := h
    obtain ⟨hcontainer, hkeep, hall⟩ := ih h
    simp only [limitsStep, bind_eq_ok, pure_eq_ok] at hstep
    obtain ⟨n, hn, type, -, rfl⟩ := hstep
    have hr : HasBoundary b config cont (p.setLimits r.name ((Dict.empty.set "boundary" (.int n)).set
        "boundary_type" (.text (str b type)))) r :=
      ⟨n, hn, _, Dict.get?_set_self _ _ _, by simp [Dict.get?_set]⟩
    refine ⟨hcontainer, fun r' hr' => hkeep r' ?_, fun r' hr' => ?_⟩
    · by_cases hne : r' = r
      · subst hne
        exact hr
      · obtain ⟨m, hm, entry, hentry, hboundary⟩ := hr'
        refine ⟨m, hm, entry, ?_, hboundary⟩
        rw [setLimits_limits, Dict.get?_set_of_ne _ _ fun h => hne (ContResource.name_injective h)]
        exact hentry
    · rcases List.mem_cons.1 hr' with rfl | hr'
      · exact hkeep r' hr
      · exact hall r' hr'

/-- **What a payload holds**: every resource of the record is filled and has a boundary. -/
theorem putFieldData_fills (h : putFieldData b config cont = .ok p) :
    ∀ r ∈ contained b config cont, HasBoundary b config cont p r ∧
      ∃ entry, p.container.resources.get? r.name = some entry ∧
        Follows b cont r (sentGuard cont r) entry := by
  simp only [putFieldData, bind_eq_ok] at h
  obtain ⟨name, -, host, -, p₁, hcpu, p₂, hmem, st, henergy, st', hdisk, hlimits⟩ := h
  have hempty : (Dict.empty : Record F).get? "weight" = none := rfl
  have hcpu := cpuBlock_fills rfl hempty hcpu
  have hmem := memBlock_fills (hcpu.others .mem (by decide)) hempty hmem
  obtain ⟨hlist, henergy⟩ := energyPart_run henergy
  obtain ⟨hlist', hdisk⟩ := diskPart_run hdisk
  have hcontained : st'.2 = contained b config cont := by rw [hlist', hlist]; rfl
  obtain ⟨hcontainer, -, hboundaries⟩ := limits_fold hlimits
  have hrun : Run (Fills b cont) _ (contained b config cont) st'.1 :=
    (((Run.single hcpu).append (.single hmem)).append henergy).append hdisk
  intro r hr
  refine ⟨hboundaries r (hcontained ▸ hr), ?_⟩
  rw [hcontainer]
  exact Fills.of_run hrun r hr

end fills

/-! ## The payloads that are sent -/

section sent

variable {F : Type} {b : Builtins F} {config : Record F}

theorem addLoop_requests (web_request : List (PutRequest F) → Answer) (orchestrator_url : String)
    (containers : List (Record F)) (sent : List (PutRequest F)) :
    ∃ new, (addLoop b web_request orchestrator_url config containers sent).1 = sent ++ new ∧
      List.Forall₂ (fun cont r => putRequest b orchestrator_url config cont = .ok r)
        (containers.take new.length) new := by
  induction containers generalizing sent with
  | nil => exact ⟨[], (List.append_nil _).symm, .nil⟩
  | cons cont containers ih =>
    rw [addLoop]
    cases hrequest : putRequest b orchestrator_url config cont with
    | error e => exact ⟨[], (List.append_nil _).symm, .nil⟩
    | ok request =>
      cases hanswer : checkAnswer (web_request (sent ++ [request])) with
      | error e => exact ⟨[request], by simp only [hanswer], .cons hrequest .nil⟩
      | ok u =>
        obtain ⟨new, hnew, hall⟩ := ih (sent ++ [request])
        refine ⟨request :: new, ?_, .cons hrequest hall⟩
        simp only [hanswer, hnew, List.append_assoc, List.singleton_append]

/-- **The payloads that are sent** are those of the first records, one after the other. -/
theorem addContainers_payloads (b : Builtins F) (web_request : List (PutRequest F) → Answer)
    (config : Record F) (containers : List (Record F)) :
    List.Forall₂ (fun cont r => putFieldData b config cont = .ok r.data)
      (containers.take (addContainers b web_request config containers).1.length)
      (addContainers b web_request config containers).1 := by
  unfold addContainers
  cases orchestratorUrl b config with
  | error e => exact .nil
  | ok orchestrator_url =>
    obtain ⟨new, hnew, hall⟩ := addLoop_requests web_request orchestrator_url containers []
    rw [List.nil_append] at hnew
    show List.Forall₂ _ (containers.take (addLoop b _ orchestrator_url config containers []).1.length)
      (addLoop b _ orchestrator_url config containers []).1
    rw [hnew]
    refine hall.imp fun cont r hr => ?_
    simp only [putRequest, bind_eq_ok, pure_eq_ok] at hr
    obtain ⟨name, -, data, hdata, rfl⟩ := hr
    exact hdata

end sent

end AddContainers

end ServerlessYarn
