/-
  ServerlessYARN model — what the payloads of container records have in common
  (`scripts/state_database/add_containers.py`).

  The payloads should follow one rule for all resources, and numbers and their decimal
  strings should mean the same.  The guard of the memory is looked up under a wrong key and
  is never on, and the boundary 0 stands for the configured default only as a number.
  `int` also reads floats, but not their texts.

  * `alike_iff`: when the payload of a record follows the rule and does not depend on the
    spelling of the numbers;
  * `addContainers_alike_iff`: the same for all payloads that are sent.
-/
import ServerlessYarn.ContainerPayloads
import ServerlessYarn.Lib.Traversal

namespace ServerlessYarn

namespace AddContainers

variable {F : Type}

/-! ## Numbers and their texts -/

/-- The text is a decimal string of the number: `int` reads it as the integer; `float`
    reads it as the float, and `int` does not read it. -/
def Spells (b : Builtins F) (s : String) : Value F → Prop
  | .int n => readInt b.int s.toList = .ok n
  | .float x => b.read s = .ok x ∧ ∀ n, readInt b.int s.toList ≠ .ok n
  | _ => False

/-- The same value, or a number and its text. -/
inductive SameNumber (b : Builtins F) : Value F → Value F → Prop
  | refl (v : Value F) : SameNumber b v v
  | toText {v : Value F} {s : String} : Spells b s v → SameNumber b v (.text s)
  | toNumber {v : Value F} {s : String} : Spells b s v → SameNumber b (.text s) v

section numbers

variable {b : Builtins F} {config : Record F} {v v' : Value F}

/-- `int` reads both alike, floats apart. -/
theorem toInt_same {n : ℤ} (h : toInt b v = .ok n) (hfloat : ∀ x, v ≠ .float x)
    (hsame : SameNumber b v v') : toInt b v' = .ok n := by
  cases hsame with
  | refl => exact h
  | @toText _ s hs =>
    cases v with
    | int m =>
      cases h
      exact hs
    | float x => exact absurd rfl (hfloat x)
    | _ => exact hs.elim
  | @toNumber _ s hs =>
    cases v' with
    | int m => exact hs.symm.trans h
    | float x => exact absurd h (hs.2 n)
    | _ => exact hs.elim

/-- `float` reads both alike, unless the text of an integer is beyond its range. -/
theorem toFloat_same {x : F} (h : toFloat b v = .ok x)
    (hrange : ∀ s n, v = .text s → readInt b.int s.toList = .ok n → ∃ y, b.ofInt n = .ok y)
    (hsame : SameNumber b v v') : toFloat b v' = .ok x := by
  cases hsame with
  | refl => exact h
  | @toText _ s hs =>
    cases v with
    | int n => exact b.read_int s n x hs h
    | float y =>
      cases h
      exact hs.1
    | _ => exact hs.elim
  | @toNumber _ s hs =>
    cases v' with
    | int n =>
      obtain ⟨y, hy⟩ := hrange s n rfl hs
      exact hy.trans ((b.read_int s n y hs hy).symm.trans h)
    | float y => exact hs.1.symm.trans h
    | _ => exact hs.elim

theorem readBoundary_text (r : ContResource) (s : String) :
    readBoundary b config r (.text s) = readInt b.int s.toList := rfl

theorem readBoundary_zero (r : ContResource) : readBoundary b config r (.int 0) =
    getItem config (key r .boundary) >>= toInt b := rfl

theorem readBoundary_int (r : ContResource) {n : ℤ} (hn : n ≠ 0) :
    readBoundary b config r (.int n) = .ok n := by
  simp [readBoundary, isZero, hn, toInt]

/-- The boundaries are read alike, floats apart, if the default for zero is zero. -/
theorem readBoundary_same {r : ContResource} {n : ℤ} (h : readBoundary b config r v = .ok n)
    (hfloat : ∀ x, v ≠ .float x)
    (hzero : SameNumber b (.int 0) v → ∃ d, config.get? (key r .boundary) = some d ∧ toInt b d = .ok 0)
    (hsame : SameNumber b v v') : readBoundary b config r v' = .ok n := by
  have hdefault : SameNumber b (.int 0) v → readBoundary b config r (.int 0) = .ok 0 := by
    intro hv
    obtain ⟨d, hd, hread⟩ := hzero hv
    rw [readBoundary_zero, bind_eq_ok]
    exact ⟨d, getItem_eq_ok.2 hd, hread⟩
  cases hsame with
  | refl => exact h
  | @toText _ s hs =>
    cases v with
    | int m =>
      rw [readBoundary_text]
      by_cases hm : m = 0
      · subst hm
        rw [hdefault (.refl _)] at h
        exact hs.trans h
      · rw [readBoundary_int r hm] at h
        exact hs.trans h
    | float x => exact absurd rfl (hfloat x)
    | _ => exact hs.elim
  | @toNumber _ s hs =>
    rw [readBoundary_text] at h
    cases v' with
    | int m =>
      by_cases hm : m = 0
      · subst hm
        rw [hdefault (.toText hs)]
        exact hs.symm.trans h
      · rw [readBoundary_int r hm]
        exact hs.symm.trans h
    | float x => exact absurd h (hs.2 n)
    | _ => exact hs.elim

end numbers

/-! ## Records with other spellings -/

def ContResource.all : List ContResource := [.cpu, .mem, .energy, .disk_read, .disk_write]

/-- The settings that are numbers. -/
def Setting.numbers : List Setting := [.max, .min, .weight, .boundary]

/-- The keys of a record under which its numbers are. -/
def numberKeys : List String := ContResource.all.flatMap fun r => Setting.numbers.map (key r)

theorem key_mem_numberKeys (r : ContResource) {s : Setting} (hs : s ∈ Setting.numbers) :
    key r s ∈ numberKeys := by
  refine List.mem_flatMap.2 ⟨r, ?_, List.mem_map_of_mem hs⟩
  cases r <;> decide

theorem guard_notMem_numberKeys (r : ContResource) : key r .guard ∉ numberKeys := by
  cases r <;> decide

theorem boundary_type_notMem_numberKeys (r : ContResource) : key r .boundary_type ∉ numberKeys := by
  cases r <;> decide

/-- The same record, but for the spelling of its numbers. -/
def Respelled (b : Builtins F) (cont cont' : Record F) : Prop :=
  ∀ k, if k ∈ numberKeys then Option.Rel (SameNumber b) (cont.get? k) (cont'.get? k)
    else cont'.get? k = cont.get? k

section respelled

variable {b : Builtins F} {config cont cont' : Record F}

theorem Respelled.get?_eq (h : Respelled b cont cont') {k : String} (hk : k ∉ numberKeys) :
    cont'.get? k = cont.get? k := by
  have hrel := h k
  rwa [if_neg hk] at hrel

theorem Respelled.rel (h : Respelled b cont cont') (r : ContResource) {s : Setting}
    (hs : s ∈ Setting.numbers) :
    Option.Rel (SameNumber b) (cont.get? (key r s)) (cont'.get? (key r s)) := by
  have hrel := h (key r s)
  rwa [if_pos (key_mem_numberKeys r hs)] at hrel

theorem Respelled.get?_some (h : Respelled b cont cont') {r : ContResource} {s : Setting}
    (hs : s ∈ Setting.numbers) {v : Value F} (hv : cont.get? (key r s) = some v) :
    ∃ v', cont'.get? (key r s) = some v' ∧ SameNumber b v v' := by
  have hrel := h.rel r hs
  rw [hv] at hrel
  generalize cont'.get? (key r s) = o at hrel
  cases hrel with
  | some hsame => exact ⟨_, rfl, hsame⟩

theorem Respelled.get?_none (h : Respelled b cont cont') {r : ContResource} {s : Setting}
    (hs : s ∈ Setting.numbers) (hv : cont.get? (key r s) = none) : cont'.get? (key r s) = none := by
  have hrel := h.rel r hs
  rw [hv] at hrel
  generalize cont'.get? (key r s) = o at hrel
  cases hrel with
  | none => rfl

/-- A number can be spelled in another way. -/
theorem respelled_set {r : ContResource} {s : Setting} (hs : s ∈ Setting.numbers) {v v' : Value F}
    (hv : cont.get? (key r s) = some v) (hsame : SameNumber b v v') :
    Respelled b cont (cont.set (key r s) v') := by
  intro k
  rw [Dict.get?_set]
  by_cases hk : k = key r s
  · subst hk
    rw [if_pos (key_mem_numberKeys r hs), if_pos rfl, hv]
    exact .some hsame
  · rw [if_neg hk]
    split_ifs
    · cases cont.get? k with
      | none => exact .none
      | some w => exact .some (.refl w)
    · rfl

theorem Respelled.diskScaling (h : Respelled b cont cont') :
    diskScaling b config cont' = diskScaling b config cont := by
  unfold AddContainers.diskScaling
  rw [h.get?_eq (by decide)]

theorem Respelled.contained (h : Respelled b cont cont') :
    contained b config cont' = contained b config cont := by
  unfold AddContainers.contained
  rw [h.diskScaling]

end respelled

/-! ## The payload of a record with other spellings -/

section same

variable {b : Builtins F} {config cont cont' : Record F} {r : ContResource}

/-- What the blocks and the limits read of a resource is the same. -/
structure SameReads (b : Builtins F) (config cont cont' : Record F) (r : ContResource) : Prop where
  max : intAt b cont' r .max = intAt b cont r .max
  min : intAt b cont' r .min = intAt b cont r .min
  guard : guardOf cont' r = guardOf cont r
  weight : ∀ entry, fillWeight b cont' r entry = fillWeight b cont r entry
  boundary : boundaryOf b config cont' r = boundaryOf b config cont r
  boundary_type : cont'.get? (key r .boundary_type) = cont.get? (key r .boundary_type)

theorem block_congr (h : SameReads b config cont cont' r) {current : Setting}
    (hcurrent : intAt b cont' r current = intAt b cont r current) (guard : Bool) (entry : Record F)
    (p : PutFieldData F) : block b cont' r current guard entry p = block b cont r current guard entry p := by
  simp only [block, h.max, h.min, hcurrent, h.weight]

theorem metricBlock_congr (h : SameReads b config cont cont' r) (p : PutFieldData F) :
    metricBlock b cont' r p = metricBlock b cont r p := by
  rw [metricBlock, metricBlock, h.guard, block_congr h h.min]

theorem limits_congr {rs : List ContResource} (h : ∀ r ∈ rs, SameReads b config cont cont' r)
    (p : PutFieldData F) :
    rs.foldlM (limitsStep b config cont') p = rs.foldlM (limitsStep b config cont) p := by
  induction rs generalizing p with
  | nil => rfl
  | cons r rs ih =>
    have hr := h r List.mem_cons_self
    have hstep : limitsStep b config cont' p r = limitsStep b config cont p r := by
      simp only [limitsStep, hr.boundary, getItem, hr.boundary_type]
    rw [List.foldlM_cons, List.foldlM_cons, hstep]
    congr 1
    funext p₁
    exact ih (fun r' hr' => h r' (List.mem_cons_of_mem _ hr')) p₁

/-- The payload is the same if everything that is read is. -/
theorem putFieldData_congr (hcont : Respelled b cont cont')
    (h : ∀ r ∈ contained b config cont, SameReads b config cont cont' r) {p : PutFieldData F}
    (hp : putFieldData b config cont = .ok p) : putFieldData b config cont' = .ok p := by
  have hitem : ∀ k, k ∉ numberKeys → getItem cont' k = getItem cont k := by
    intro k hk
    rw [getItem, getItem, hcont.get?_eq hk]
  have hcpu := h .cpu (by simp [contained])
  have hmem := h .mem (by simp [contained])
  simp only [putFieldData, bind_eq_ok] at hp ⊢
  obtain ⟨name, hname, host, hhost, p₁, hp₁, p₂, hp₂, st, henergy, st', hdisk, hlimits⟩ := hp
  have hcontained : st'.2 = contained b config cont := by
    rw [(diskPart_run hdisk).1, (energyPart_run henergy).1]
    rfl
  refine ⟨name, ?_, host, ?_, p₁, ?_, p₂, ?_, st, ?_, st', ?_, ?_⟩
  · rwa [hitem _ (by decide)]
  · rwa [hitem _ (by decide)]
  · simpa only [cpuBlock, hcpu.guard, block_congr hcpu hcpu.min] using hp₁
  · simpa only [memBlock, Record.getBool, block_congr hmem hmem.min] using hp₂
  · unfold energyPart at henergy ⊢
    split_ifs at henergy ⊢ with hpower
    · have hr := h .energy (by simp [contained, hpower])
      simpa only [energyBlock, hr.guard, block_congr hr hr.max] using henergy
    · exact henergy
  · obtain ⟨scaling, hscaling, hdisk⟩ := bind_eq_ok.1 hdisk
    refine bind_eq_ok.2 ⟨scaling, hcont.diskScaling.trans hscaling, ?_⟩
    split_ifs at hdisk ⊢ with hscaled
    · subst hscaled
      have hread := h .disk_read (by simp [contained, hscaling])
      have hwrite := h .disk_write (by simp [contained, hscaling])
      simpa only [addDisk, hitem _ (show "disk" ∉ numberKeys by decide),
        hitem _ (show "disk_path" ∉ numberKeys by decide), metricBlock_congr hread,
        metricBlock_congr hwrite] using hdisk
    · exact hdisk
  · rwa [limits_congr (hcontained ▸ h)]

end same

/-! ## When the payloads are alike -/

/-- The payload of a record is its own, follows the rule for every resource, and does not
    depend on the spelling of the numbers. -/
structure Alike (b : Builtins F) (config cont : Record F) (p : PutFieldData F) : Prop where
  own : putFieldData b config cont = .ok p
  rule : ∀ r ∈ contained b config cont, ∃ entry, p.container.resources.get? r.name = some entry ∧
    Follows b cont r (guardOf cont r) entry
  spelling : ∀ cont', Respelled b cont cont' → putFieldData b config cont' = .ok p

/-- The guard of the memory is off, no limit or boundary is a float, a boundary is zero only
    if its default is, and no weight is the text of an integer beyond the floats. -/
structure Plain (b : Builtins F) (config cont : Record F) : Prop where
  mem_guard : guardOf cont .mem = false
  integers : ∀ r ∈ contained b config cont, ∀ s ∈ [Setting.max, .min, .boundary], ∀ x,
    cont.get? (key r s) ≠ some (.float x)
  boundaries : ∀ r ∈ contained b config cont, ∀ v, cont.get? (key r .boundary) = some v →
    SameNumber b (.int 0) v → ∃ d, config.get? (key r .boundary) = some d ∧ toInt b d = .ok 0
  weights : ∀ r ∈ contained b config cont, ∀ s n, cont.get? (key r .weight) = some (.text s) →
    readInt b.int s.toList = .ok n → ∃ x, b.ofInt n = .ok x

section alike

variable {b : Builtins F} {config cont cont' : Record F} {r : ContResource} {p : PutFieldData F}

theorem intAt_eq_ok {s : Setting} {n : ℤ} :
    intAt b cont r s = .ok n ↔ ∃ v, cont.get? (key r s) = some v ∧ toInt b v = .ok n := by
  simp only [intAt, bind_eq_ok, getItem_eq_ok]

theorem boundaryOf_eq_ok {n : ℤ} : boundaryOf b config cont r = .ok n ↔
    ∃ v, cont.get? (key r .boundary) = some v ∧ readBoundary b config r v = .ok n := by
  simp only [boundaryOf, bind_eq_ok, getItem_eq_ok]

theorem intAt_same (h : Respelled b cont cont') {s : Setting} (hs : s ∈ Setting.numbers) {n : ℤ}
    (hfloat : ∀ x, cont.get? (key r s) ≠ some (.float x)) (hn : intAt b cont r s = .ok n) :
    intAt b cont' r s = intAt b cont r s := by
  obtain ⟨v, hv, hread⟩ := intAt_eq_ok.1 hn
  obtain ⟨v', hv', hsame⟩ := h.get?_some hs hv
  rw [hn, intAt_eq_ok]
  exact ⟨v', hv', toInt_same hread (fun x hx => hfloat x (hx ▸ hv)) hsame⟩

theorem fillWeight_same (h : Respelled b cont cont') {w : Option F} (hw : weightOf b cont r = .ok w)
    (hrange : ∀ s n, cont.get? (key r .weight) = some (.text s) → readInt b.int s.toList = .ok n →
      ∃ x, b.ofInt n = .ok x) (entry : Record F) :
    fillWeight b cont' r entry = fillWeight b cont r entry := by
  have hs : Setting.weight ∈ Setting.numbers := by decide
  unfold fillWeight
  cases hv : cont.get? (key r .weight) with
  | none => rw [h.get?_none hs hv]
  | some v =>
    obtain ⟨v', hv', hsame⟩ := h.get?_some hs hv
    simp only [weightOf, hv] at hw
    cases hx : toFloat b v with
    | error e =>
      rw [hx] at hw
      cases hw
    | ok x =>
      have hx' := toFloat_same hx (fun s n hs => hrange s n (hs ▸ hv)) hsame
      simp only [hv', hx', hx]

/-- A record whose payload is filled reads the same under other spellings. -/
theorem Plain.sameReads (h : Plain b config cont) (hp : putFieldData b config cont = .ok p)
    (hcont : Respelled b cont cont') (hr : r ∈ contained b config cont) :
    SameReads b config cont cont' r := by
  obtain ⟨⟨n, hn, -⟩, entry, -, hfollows⟩ := putFieldData_fills hp r hr
  obtain ⟨max, hmax, -⟩ := hfollows.max
  obtain ⟨min, hmin, -⟩ := hfollows.min
  obtain ⟨w, hw, -⟩ := hfollows.weight
  constructor
  · exact intAt_same hcont (by decide) (h.integers r hr .max (by decide)) hmax
  · exact intAt_same hcont (by decide) (h.integers r hr .min (by decide)) hmin
  · rw [guardOf, guardOf, hcont.get?_eq (guard_notMem_numberKeys r)]
  · exact fillWeight_same hcont hw (h.weights r hr)
  · obtain ⟨v, hv, hread⟩ := boundaryOf_eq_ok.1 hn
    obtain ⟨v', hv', hsame⟩ := hcont.get?_some (by decide) hv
    rw [hn, boundaryOf_eq_ok]
    refine ⟨v', hv', readBoundary_same hread (fun x hx => ?_) (h.boundaries r hr v hv) hsame⟩
    exact h.integers r hr .boundary (by decide) x (hx ▸ hv)
  · exact hcont.get?_eq (boundary_type_notMem_numberKeys r)

/-- Two records with one payload have one boundary. -/
theorem HasBoundary.unique {config' : Record F} (h : HasBoundary b config cont p r)
    (h' : HasBoundary b config' cont' p r) : boundaryOf b config' cont' r = boundaryOf b config cont r := by
  obtain ⟨n, hn, entry, hentry, hboundary⟩ := h
  obtain ⟨n', hn', entry', hentry', hboundary'⟩ := h'
  obtain rfl := Option.some.inj (hentry.symm.trans hentry')
  have hvalue := Option.some.inj (hboundary.symm.trans hboundary')
  rw [hn, hn', Value.int.inj hvalue]

/-- A record that is respelled in one place has the payload that its own number gives. -/
theorem Alike.set (h : Alike b config cont p) {s : Setting} (hs : s ∈ Setting.numbers) {v v' : Value F}
    (hr : r ∈ contained b config cont) (hv : cont.get? (key r s) = some v) (hsame : SameNumber b v v') :
    HasBoundary b config (cont.set (key r s) v') p r ∧ ∃ entry, Follows b (cont.set (key r s) v') r
      (sentGuard (cont.set (key r s) v') r) entry := by
  have hcont := respelled_set hs hv hsame
  have hr' : r ∈ contained b config (cont.set (key r s) v') := by rwa [hcont.contained]
  obtain ⟨hboundary, entry, -, hfollows⟩ := putFieldData_fills (h.spelling _ hcont) r hr'
  exact ⟨hboundary, entry, hfollows⟩

theorem intAt_set {s : Setting} {v : Value F} {n : ℤ}
    (h : intAt b (cont.set (key r s) v) r s = .ok n) : toInt b v = .ok n := by
  obtain ⟨v', hv', hread⟩ := intAt_eq_ok.1 h
  rw [Dict.get?_set_self] at hv'
  cases hv'
  exact hread

theorem boundaryOf_set (v : Value F) :
    boundaryOf b config (cont.set (key r .boundary) v) r = readBoundary b config r v := by
  unfold boundaryOf getItem
  rw [Dict.get?_set_self]
  rfl

theorem boundaryOf_get {v : Value F} (hv : cont.get? (key r .boundary) = some v) :
    boundaryOf b config cont r = readBoundary b config r v := by
  unfold boundaryOf getItem
  rw [hv]
  rfl

theorem Alike.mem_guard (h : Alike b config cont p) : guardOf cont .mem = false := by
  have hmem : ContResource.mem ∈ contained b config cont := by simp [contained]
  obtain ⟨entry, hentry, hrule⟩ := h.rule .mem hmem
  obtain ⟨-, entry', hentry', hsent⟩ := putFieldData_fills h.own .mem hmem
  obtain rfl := Option.some.inj (hentry.symm.trans hentry')
  exact Value.bool.inj (Option.some.inj (hrule.guard.symm.trans hsent.guard))

/-- The text of a float in the place of an integer cannot be read. -/
theorem Alike.integers (h : Alike b config cont p) (hr : r ∈ contained b config cont) {s : Setting}
    (hs : s ∈ [Setting.max, .min, .boundary]) (x : F) : cont.get? (key r s) ≠ some (.float x) := by
  intro hx
  have hspells : Spells b (b.repr x) (.float x) := ⟨b.read_repr x, b.not_int_repr x⟩
  simp only [List.mem_cons, List.not_mem_nil, or_false] at hs
  rcases hs with rfl | rfl | rfl
  · obtain ⟨-, entry, hfollows⟩ := h.set (by decide) hr hx (.toText hspells)
    obtain ⟨n, hn, -⟩ := hfollows.max
    exact b.not_int_repr x n (intAt_set hn)
  · obtain ⟨-, entry, hfollows⟩ := h.set (by decide) hr hx (.toText hspells)
    obtain ⟨n, hn, -⟩ := hfollows.min
    exact b.not_int_repr x n (intAt_set hn)
  · obtain ⟨⟨n, hn, -⟩, -⟩ := h.set (by decide) hr hx (.toText hspells)
    rw [boundaryOf_set, readBoundary_text] at hn
    exact b.not_int_repr x n hn

/-- The boundary zero is the default as a number, and zero as a text. -/
theorem Alike.boundaries (h : Alike b config cont p) (hr : r ∈ contained b config cont) {v : Value F}
    (hv : cont.get? (key r .boundary) = some v) (hzero : SameNumber b (.int 0) v) :
    ∃ d, config.get? (key r .boundary) = some d ∧ toInt b d = .ok 0 := by
  have hown := (putFieldData_fills h.own r hr).1
  have hdefault : readBoundary b config r (.int 0) = .ok 0 := by
    cases hzero with
    | refl =>
      have hspells : Spells b "0" (.int 0) := b.int_zero
      have hunique := hown.unique (h.set (by decide) hr hv (.toText hspells)).1
      rw [boundaryOf_set, boundaryOf_get hv, readBoundary_text] at hunique
      exact hunique.symm.trans b.int_zero
    | @toText _ s hs =>
      have hunique := hown.unique (h.set (by decide) hr hv (.toNumber hs)).1
      rw [boundaryOf_set, boundaryOf_get hv, readBoundary_text] at hunique
      exact hunique.trans hs
  rw [readBoundary_zero, bind_eq_ok] at hdefault
  obtain ⟨d, hd, hread⟩ := hdefault
  exact ⟨d, getItem_eq_ok.1 hd, hread⟩

theorem Alike.weights (h : Alike b config cont p) (hr : r ∈ contained b config cont) {s : String} {n : ℤ}
    (hv : cont.get? (key r .weight) = some (.text s)) (hs : readInt b.int s.toList = .ok n) :
    ∃ x, b.ofInt n = .ok x := by
  have hspells : Spells b s (.int n) := hs
  obtain ⟨-, entry, hfollows⟩ := h.set (by decide) hr hv (.toNumber hspells)
  obtain ⟨w, hw, -⟩ := hfollows.weight
  rw [weightOf, Dict.get?_set_self] at hw
  cases hx : b.ofInt n with
  | ok x => exact ⟨x, rfl⟩
  | error e =>
    simp only [toFloat, hx] at hw
    cases hw

/-- **When the payload of a record is alike.** -/
theorem alike_iff (hp : putFieldData b config cont = .ok p) :
    Alike b config cont p ↔ Plain b config cont := by
  constructor
  · intro h
    exact ⟨h.mem_guard, fun r hr s hs => h.integers hr hs, fun r hr v => h.boundaries hr,
      fun r hr s n => h.weights hr⟩
  · intro h
    refine ⟨hp, fun r hr => ?_, fun cont' hcont => ?_⟩
    · obtain ⟨-, entry, hentry, hfollows⟩ := putFieldData_fills hp r hr
      have hguard : sentGuard cont r = guardOf cont r := by
        by_cases hmem : r = .mem
        · subst hmem
          exact h.mem_guard.symm
        · simp [sentGuard, hmem]
      exact ⟨entry, hentry, hguard ▸ hfollows⟩
    · exact putFieldData_congr hcont (fun r hr => h.sameReads hp hcont hr) hp

end alike

/-- **The payloads that are sent are alike** if and only if the records are plain: each is
    that of its own record, follows the rule for every resource, and does not depend on the
    spelling of the numbers. -/
theorem addContainers_alike_iff (b : Builtins F) (web_request : List (PutRequest F) → Answer)
    (config : Record F) (containers : List (Record F)) :
    List.Forall₂ (fun cont r => Alike b config cont r.data)
        (containers.take (addContainers b web_request config containers).1.length)
        (addContainers b web_request config containers).1 ↔
      ∀ cont ∈ containers.take (addContainers b web_request config containers).1.length,
        Plain b config cont := by
  have hsent := addContainers_payloads b web_request config containers
  generalize (addContainers b web_request config containers).1 = sent at hsent ⊢
  generalize containers.take sent.length = conts at hsent ⊢
  induction hsent with
  | nil => simp
  | cons hp _ ih =>
    rw [List.forall₂_cons, alike_iff hp, List.forall_mem_cons]
    exact and_congr Iff.rfl ih

/-! ## A record without a guard for the memory -/

/-- Every digit of ASCII, without a bound on the length. -/
def unboundedReader : IntReader := ⟨asciiDecimal, none⟩

/-- A float that is a whole number. -/
def wholeOfInt (n : ℤ) : Py ℕ := if n < 0 then .error .valueError else .ok n.toNat

/-- `float`, for whole numbers: their digits, with `.0` or without. -/
def readWhole (s : String) : Py ℕ := do
  let n ← readInt unboundedReader (if s.toList.drop (s.toList.length - 2) = ['.', '0'] then
    s.toList.take (s.toList.length - 2) else s.toList)
  wholeOfInt n

def reprWhole (n : ℕ) : String := String.ofList (Nat.toDigits 10 n ++ ['.', '0'])

theorem readInt_point {s : List Char} (hs : '.' ∈ s) (n : ℤ) : readInt unboundedReader s ≠ .ok n :=
  readInt_ne_ok (by decide) (by decide) rfl hs n

theorem readWhole_repr (n : ℕ) : readWhole (reprWhole n) = .ok n := by
  have hdigits : ∀ c ∈ Nat.toDigits 10 n, c.isDigit = true :=
    fun c hc => Nat.isDigit_of_mem_toDigits (by decide) (by decide) hc
  have hread := readDigits_ascii hdigits 0 false (.inl Nat.toDigits_ne_nil)
  rw [Nat.ofDigitChars_ten_toDigits] at hread
  have hint : readInt unboundedReader (Nat.toDigits 10 n) = .ok (n : ℤ) :=
    readInt_of_readDigits hdigits hread (by simp [unboundedReader])
  simp [readWhole, reprWhole, wholeOfInt, hint, bind, Except.bind]

theorem readWhole_int {s : String} {n : ℤ} {x : ℕ} (hn : readInt unboundedReader s.toList = .ok n)
    (hx : wholeOfInt n = .ok x) : readWhole s = .ok x := by
  have hsuffix : s.toList.drop (s.toList.length - 2) ≠ ['.', '0'] := by
    intro h
    refine readInt_point ?_ n hn
    exact List.mem_of_mem_drop (h ▸ List.mem_cons_self)
  rw [readWhole, if_neg hsuffix, bind_eq_ok]
  exact ⟨n, hn, hx⟩

/-- Python's numbers, for floats that are whole. -/
def Builtins.whole : Builtins ℕ where
  int := unboundedReader
  truncate n := .ok n
  isZero n := n = 0
  ofInt := wholeOfInt
  read := readWhole
  repr := reprWhole
  int_zero := rfl
  read_repr := readWhole_repr
  not_int_repr n := readInt_point (by simp [reprWhole])
  read_int _ _ _ := readWhole_int

/-- A dictionary with the given entries. -/
def recordOf {F : Type} (entries : List (String × Value F)) : Record F :=
  entries.foldl (fun d e => d.set e.1 e.2) .empty

def sampleConfig : Record ℕ := recordOf [("server_ip", .text "10.0.0.1"),
  ("orchestrator_port", .int 5000), ("cpu_boundary", .int 10), ("mem_boundary", .int 15)]

/-- A container with the limits of the usage example. -/
def sampleRecord (cpu_boundary : Value ℕ) : Record ℕ := recordOf [("container_name", .text "host1-cont1"),
  ("host", .text "host1"), ("cpu_max", .int 200), ("cpu_min", .int 50), ("mem_max", .int 2048),
  ("mem_min", .int 1024), ("cpu_boundary", cpu_boundary), ("cpu_boundary_type", .text "percentage_of_max"),
  ("mem_boundary", .int 256), ("mem_boundary_type", .text "percentage_of_max")]

theorem not_alike_of_not_plain {cont : Record ℕ} (hplain : ¬ Plain .whole sampleConfig cont)
    (hsent : (addContainers .whole (fun _ => .ok) sampleConfig [cont]).1.length = 1) :
    ¬ List.Forall₂ (fun cont r => Alike .whole sampleConfig cont r.data)
      ([cont].take (addContainers .whole (fun _ => .ok) sampleConfig [cont]).1.length)
      (addContainers .whole (fun _ => .ok) sampleConfig [cont]).1 := by
  intro h
  rw [hsent] at h
  obtain ⟨request, rest, halike, -, -⟩ := List.forall₂_cons_left_iff.1 h
  exact hplain ((alike_iff halike.own).1 halike)

/-- The guard of the memory is off in a record that does not mention it, and the boundary
    `"0"` is not the default that `0` is. -/
theorem addContainers_not_alike :
    ¬ List.Forall₂ (fun cont r => Alike .whole sampleConfig cont r.data)
        ([sampleRecord (.int 25)].take
          (addContainers .whole (fun _ => .ok) sampleConfig [sampleRecord (.int 25)]).1.length)
        (addContainers .whole (fun _ => .ok) sampleConfig [sampleRecord (.int 25)]).1 ∧
      ¬ List.Forall₂ (fun cont r => Alike .whole sampleConfig cont r.data)
        ([(sampleRecord (.text "0")).set "mem_guard" (.text "false")].take
          (addContainers .whole (fun _ => .ok) sampleConfig
            [(sampleRecord (.text "0")).set "mem_guard" (.text "false")]).1.length)
        (addContainers .whole (fun _ => .ok) sampleConfig
          [(sampleRecord (.text "0")).set "mem_guard" (.text "false")]).1 := by
  refine ⟨not_alike_of_not_plain (fun h => ?_) (by decide +kernel),
    not_alike_of_not_plain (fun h => ?_) (by decide +kernel)⟩
  · have hguard : guardOf (sampleRecord (.int 25)) .mem = true := by decide +kernel
    rw [h.mem_guard] at hguard
    cases hguard
  · have hspells : Spells Builtins.whole "0" (.int 0) := Builtins.whole.int_zero
    obtain ⟨d, hd, hread⟩ := h.boundaries .cpu (by simp [contained]) (.text "0") (by decide +kernel)
      (.toText hspells)
    have hconfig : sampleConfig.get? (key .cpu .boundary) = some (.int 10) := by decide +kernel
    rw [hconfig] at hd
    cases hd
    cases hread

end AddContainers

end ServerlessYarn
