/-
  ServerlessYARN model — extending the logical volumes of hosts
  (`add_disks_to_hosts_task` of `ui/background_tasks.py`, with `extend_lv` of
  `ui/run_playbooks.py`).

  Hosts without load are extended at once, the others when their bandwidth is low enough,
  and what is left after the last event in one call, with the containers throttled.  That
  call passes the list of the disks, the other ones their names joined by commas.

  The readings and the threshold are numbers of Python: with a `float` among them the
  products and the differences are rounded to doubles, and an `int` too large for one raises.

  * `immediatePhase_eq`, `pollHosts_eq_ok_iff`, `pollLoop_succ_ok_iff`: what each phase calls;
  * `lv_extended_alike_iff`: every host is passed once, and in the same form exactly when
    none is left for the last phase;
  * `ExtendsAlike.counted`: the playbook can count disks that are passed in this form.
-/
import ServerlessYarn.DiskAddition
import ServerlessYarn.Numbers
import ServerlessYarn.Texts

namespace ServerlessYarn

open Fallible Inventory Binary64

namespace LvExtension

/-! ## The task -/

/-- The bandwidth of the logical volume of a host. -/
structure LvmInfo where
  max_read : Number Double
  free_read : Number Double
  max_write : Number Double
  free_write : Number Double

/-- The argument `new_disks` of `extend_lv`. -/
inductive NewDisksArg where
  | text (s : String)
  | list (l : List String)
deriving DecidableEq

/-- A call of `run_playbooks`. -/
inductive DiskCall where
  | extend_lv (host_names : List String) (new_disks : NewDisksArg)
      (extra_disk measure_host_list : String) (throttle_containers_bw : Bool)
  | add_disks (host_names : List String) (new_disks : String)
deriving DecidableEq

def DiskCall.host_names : DiskCall → List String
  | extend_lv host_names _ _ _ _ | add_disks host_names _ => host_names

/-- The inventory, and the calls made so far. -/
structure DiskWorld where
  inventory : Inventory
  calls : List DiskCall

abbrev DisksTask (α : Type) := EStateM PyError DiskWorld α

/-- More calls were made. -/
def DiskWorld.extend (w : DiskWorld) (calls : List DiskCall) : DiskWorld :=
  { w with calls := w.calls ++ calls }

/-- The arguments of `add_disks_to_hosts_task`. -/
structure LvRequest where
  host_list : List String
  add_to_lv : Bool
  new_disks : List String
  extra_disk : String
  measure_host_list : Dict String Bool
  threshold : Number Double
  timeout_events : ℤ

/-- `str(d).replace(' ', '')`, for texts of the keys and the values. -/
def dictText {κ α : Type} (key : κ → List Char) (value : α → List Char) (d : Dict κ α) : List Char :=
  ('{' :: List.intercalate [',', ' '] (d.entries.map fun e => key e.1 ++ ':' :: ' ' :: value e.2) ++
    ['}']).filter (· ≠ ' ')

section
variable (decimals : Decimals) (isprintable : Char → Bool) (readings : ℕ → String → Py LvmInfo)
  (r : LvRequest)

def reprString (s : String) : List Char := pyRepr isprintable s.toList

/-- `str(measure_host_list).replace(' ', '')`. -/
def measureText : String :=
  String.ofList (dictText (reprString isprintable)
    (fun measure => if measure then "True".toList else "False".toList) r.measure_host_list)

/-- `str(added_disks).replace(' ', '')`. -/
def addedDisksText (added_disks : Dict String (Dict String DiskInfo)) : String :=
  String.ofList (dictText (reprString isprintable) (dictText (reprString isprintable) fun info : DiskInfo =>
    dictText (reprString isprintable) (reprString isprintable) (Dict.empty.set "path" info.path)) added_disks)

def call (c : DiskCall) : DisksTask Unit := modify fun w => w.extend [c]

/-- `add_disks_to_hosts`, under the lock. -/
def updateInventory : DisksTask (Dict String (Dict String DiskInfo)) := fun w =>
  match addDisksToHosts decimals r.host_list r.new_disks w.inventory with
  | .ok (inv, added_disks) => .ok added_disks { w with inventory := inv }
  | .error err => .error err w

/-- The call for one host, in the first two phases. -/
def lvCall (host : String) : DiskCall :=
  .extend_lv [host] (.text (String.intercalate "," r.new_disks)) r.extra_disk
    (measureText isprintable r) false

/-- The first phase: hosts that have no containers. -/
def immediatePhase : List (String × Bool) → List String → DisksTask (List String)
  | [], host_list => return host_list
  | (host, measure) :: rest, host_list => do
    if measure then
      call (lvCall isprintable r host)
      if host ∈ host_list then immediatePhase rest (host_list.erase host)
      else throw .valueError
    else immediatePhase rest host_list

/-- `consumed <= max_bw * threshold` -/
def withinThreshold (consumed max_bw : Number Double) : Py Bool := do
  let limit ← doubleArithmetic.times max_bw r.threshold
  return consumed.le limit

/-- The bandwidth in use is low enough for the benchmark. -/
def belowThreshold (info : LvmInfo) : Py Bool := do
  let consumed_read ← doubleArithmetic.minus info.max_read info.free_read
  let consumed_write ← doubleArithmetic.minus info.max_write info.free_write
  let max_bw := info.max_read.max info.max_write
  let free_bw ← doubleArithmetic.minus max_bw consumed_read
  let total_free_bw ← doubleArithmetic.minus free_bw consumed_write
  let total_consumed ← doubleArithmetic.minus max_bw total_free_bw
  if !(← withinThreshold r total_consumed max_bw) then return false
  else if !(← withinThreshold r consumed_read info.max_read) then return false
  else withinThreshold r consumed_write info.max_write

/-- What one event finds about a host. -/
def checkHost (reading : String → Py LvmInfo) (host : String) : Py Bool := do
  let info ← reading host
  belowThreshold r info

/-- The loop over the hosts of the second phase, with the readings of one event; it
    returns `finished_hosts`. -/
def pollHosts (reading : String → Py LvmInfo) : List String → DisksTask (List String)
  | [] => return []
  | host :: host_list => do
    match checkHost r reading host with
    | .error err => throw err
    | .ok true =>
      call (lvCall isprintable r host)
      let finished_hosts ← pollHosts reading host_list
      return host :: finished_hosts
    | .ok false => pollHosts reading host_list

/-- The second phase, with the events that are left. -/
def pollLoop (current_events : ℕ) : ℕ → List String → DisksTask (List String)
  | 0, host_list => return host_list
  | events + 1, host_list =>
    if host_list = [] then return host_list
    else do
      let finished_hosts ← pollHosts isprintable r (readings current_events) host_list
      pollLoop (current_events + 1) events (host_list.filter (· ∉ finished_hosts))

/-- `add_disks_to_hosts_task`. -/
def addDisksToHostsTask : DisksTask Unit := do
  let added_disks ← updateInventory decimals r
  if r.add_to_lv then
    let host_list ← immediatePhase isprintable r r.measure_host_list.entries r.host_list
    let host_list ← pollLoop isprintable readings r 0 r.timeout_events.toNat host_list
    if host_list = [] then return ()
    else call (.extend_lv host_list (.list r.new_disks) r.extra_disk (measureText isprintable r) true)
  else call (.add_disks r.host_list (addedDisksText isprintable added_disks))

end

/-! ## The first two phases -/

section
variable {decimals : Decimals} {isprintable : Char → Bool} {r : LvRequest} {w w' : DiskWorld}

theorem DiskWorld.extend_nil (w : DiskWorld) : w.extend [] = w := by
  simp [DiskWorld.extend]

theorem DiskWorld.extend_extend (w : DiskWorld) (calls calls' : List DiskCall) :
    (w.extend calls).extend calls' = w.extend (calls ++ calls') := by
  simp [DiskWorld.extend, List.append_assoc]

/-- Every host without load is passed once, and leaves the list. -/
theorem immediatePhase_eq {entries : List (String × Bool)} {host_list : List String}
    (hentries : (entries.map Prod.fst).Nodup) (hhosts : host_list.Nodup)
    (hover : ∀ e ∈ entries, e.1 ∈ host_list) (w : DiskWorld) :
    immediatePhase isprintable r entries host_list w =
      .ok (host_list.filter fun host => (host, true) ∉ entries)
        (w.extend ((entries.filter (·.2)).map fun e => lvCall isprintable r e.1)) := by
  induction entries generalizing host_list w with
  | nil => simp [immediatePhase, DiskWorld.extend_nil, pure, EStateM.pure]
  | cons e entries ih =>
    obtain ⟨host, measure⟩ := e
    rw [List.map_cons, List.nodup_cons] at hentries
    have hmem : host ∈ host_list := hover _ List.mem_cons_self
    have hrest : ∀ e ∈ entries, e.1 ∈ host_list := fun e he => hover e (List.mem_cons_of_mem _ he)
    cases measure with
    | false =>
      have hskip : immediatePhase isprintable r ((host, false) :: entries) host_list w =
          immediatePhase isprintable r entries host_list w := rfl
      rw [hskip, ih hentries.2 hhosts hrest]
      simp
    | true =>
      have hcall : immediatePhase isprintable r ((host, true) :: entries) host_list w =
          immediatePhase isprintable r entries (host_list.erase host)
            (w.extend [lvCall isprintable r host]) := by
        rw [immediatePhase]
        simp only [if_true, if_pos hmem]
        rfl
      have herased : ∀ e ∈ entries, e.1 ∈ host_list.erase host := by
        intro e he
        refine (hhosts.mem_erase_iff).2 ⟨?_, hrest e he⟩
        rintro rfl
        have hkey : e.1 ∈ entries.map Prod.fst := List.mem_map_of_mem he
        exact hentries.1 hkey
      have hleft : (host_list.erase host).filter (fun host => (host, true) ∉ entries) =
          host_list.filter fun h => (h, true) ∉ (host, true) :: entries := by
        rw [hhosts.erase_eq_filter, List.filter_filter]
        refine List.filter_congr fun h _ => ?_
        rw [Bool.eq_iff_iff]
        simp [and_comm]
      rw [hcall, ih hentries.2 (hhosts.erase host) herased, DiskWorld.extend_extend, hleft]
      rfl

/-- The bandwidth of the host is read, and low enough. -/
def Low (r : LvRequest) (reading : String → Py LvmInfo) (host : String) : Prop :=
  checkHost r reading host = .ok true

/-- The bandwidth of the host is read, and not low enough. -/
def Busy (r : LvRequest) (reading : String → Py LvmInfo) (host : String) : Prop :=
  checkHost r reading host = .ok false

instance (reading : String → Py LvmInfo) (host : String) : Decidable (Low r reading host) :=
  inferInstanceAs (Decidable (_ = _))

theorem Busy.not_low {reading : String → Py LvmInfo} {host : String} (h : Busy r reading host) :
    ¬ Low r reading host := by
  intro hlow
  cases h.symm.trans hlow

/-- One event returns when all bandwidths are read; the hosts with low ones are passed. -/
theorem pollHosts_eq_ok_iff {reading : String → Py LvmInfo} {host_list finished_hosts : List String} :
    pollHosts isprintable r reading host_list w = .ok finished_hosts w' ↔
      (∀ host ∈ host_list, Low r reading host ∨ Busy r reading host) ∧
        finished_hosts = host_list.filter (fun host => Low r reading host) ∧
        w' = w.extend (finished_hosts.map (lvCall isprintable r)) := by
  induction host_list generalizing w finished_hosts with
  | nil =>
    constructor
    · intro h
      cases h
      exact ⟨fun host hhost => absurd hhost List.not_mem_nil, rfl, (DiskWorld.extend_nil _).symm⟩
    · rintro ⟨-, rfl, rfl⟩
      exact congrArg (EStateM.Result.ok []) (DiskWorld.extend_nil _).symm
  | cons host host_list ih =>
    rw [List.forall_mem_cons]
    cases hcheck : checkHost r reading host with
    | error err =>
      have hthrow : pollHosts isprintable r reading (host :: host_list) w = .error err w := by
        rw [pollHosts, hcheck]
        rfl
      rw [hthrow]
      constructor
      · intro h
        cases h
      · rintro ⟨⟨hlow | hbusy, -⟩, -⟩
        · cases hcheck.symm.trans hlow
        · cases hcheck.symm.trans hbusy
    | ok below =>
      cases below with
      | true =>
        have hlow : Low r reading host := hcheck
        have hcall : pollHosts isprintable r reading (host :: host_list) w =
            ((fun finished_hosts => host :: finished_hosts) <$>
              pollHosts isprintable r reading host_list) (w.extend [lvCall isprintable r host]) := by
          rw [pollHosts, hcheck]
          rfl
        rw [hcall, map_eq_ok_iff, List.filter_cons_of_pos (by simpa using hlow)]
        constructor
        · rintro ⟨rest, hrest, rfl⟩
          obtain ⟨hreads, rfl, rfl⟩ := ih.1 hrest
          exact ⟨⟨.inl hlow, hreads⟩, rfl, DiskWorld.extend_extend _ _ _⟩
        · rintro ⟨⟨-, hreads⟩, rfl, rfl⟩
          exact ⟨_, ih.2 ⟨hreads, rfl, by rw [DiskWorld.extend_extend]; rfl⟩, rfl⟩
      | false =>
        have hbusy : Busy r reading host := hcheck
        have hskip : pollHosts isprintable r reading (host :: host_list) w =
            pollHosts isprintable r reading host_list w := by
          rw [pollHosts, hcheck]
        rw [hskip, ih, List.filter_cons_of_neg (by simpa using hbusy.not_low)]
        exact and_congr_left fun _ => ⟨fun h => ⟨.inr hbusy, h⟩, fun h => h.2⟩

theorem filter_notMem_low {reading : String → Py LvmInfo} (host_list : List String) :
    host_list.filter (fun host => host ∉ host_list.filter fun host => Low r reading host) =
      host_list.filter fun host => ¬ Low r reading host := by
  refine List.filter_congr fun host hhost => ?_
  rw [Bool.eq_iff_iff]
  simp [hhost]

variable {readings : ℕ → String → Py LvmInfo} {t events : ℕ} {host_list left : List String}

/-- One event of the second phase, while hosts are waiting. -/
theorem pollLoop_succ_ok_iff (hne : host_list ≠ []) :
    pollLoop isprintable readings r t (events + 1) host_list w = .ok left w' ↔
      (∀ host ∈ host_list, Low r (readings t) host ∨ Busy r (readings t) host) ∧
        pollLoop isprintable readings r (t + 1) events
          (host_list.filter fun host => ¬ Low r (readings t) host)
          (w.extend ((host_list.filter fun host => Low r (readings t) host).map
            (lvCall isprintable r))) = .ok left w' := by
  rw [pollLoop, if_neg hne, bind_eq_ok_iff, ← filter_notMem_low]
  constructor
  · rintro ⟨finished_hosts, w₁, hpoll, hloop⟩
    obtain ⟨hreads, rfl, rfl⟩ := pollHosts_eq_ok_iff.1 hpoll
    exact ⟨hreads, hloop⟩
  · rintro ⟨hreads, hloop⟩
    exact ⟨_, _, pollHosts_eq_ok_iff.2 ⟨hreads, rfl, rfl⟩, hloop⟩

theorem pollLoop_nil (t events : ℕ) (w : DiskWorld) :
    pollLoop isprintable readings r t events [] w = .ok [] w := by
  cases events <;> rfl

/-- Each host is passed by an event, or left. -/
theorem pollLoop_perm (h : pollLoop isprintable readings r t events host_list w = .ok left w') :
    ∃ passed, w' = w.extend (passed.map (lvCall isprintable r)) ∧ (passed ++ left).Perm host_list := by
  induction events generalizing t host_list w with
  | zero =>
    cases h
    exact ⟨[], (DiskWorld.extend_nil _).symm, List.Perm.refl _⟩
  | succ events ih =>
    by_cases hne : host_list = []
    · subst hne
      rw [pollLoop_nil] at h
      cases h
      exact ⟨[], (DiskWorld.extend_nil _).symm, List.Perm.refl _⟩
    · obtain ⟨-, hloop⟩ := (pollLoop_succ_ok_iff hne).1 h
      obtain ⟨passed, rfl, hperm⟩ := ih hloop
      refine ⟨(host_list.filter fun host => Low r (readings t) host) ++ passed, ?_, ?_⟩
      · rw [DiskWorld.extend_extend, List.map_append]
      · rw [List.append_assoc]
        refine (hperm.append_left _).trans ?_
        simpa using List.filter_append_perm (fun host => decide (Low r (readings t) host)) host_list

/-- At some event the bandwidth of the host is low enough, and it was read until then. -/
def Released (r : LvRequest) (readings : ℕ → String → Py LvmInfo) (t events : ℕ) (host : String) : Prop :=
  ∃ i < events, Low r (readings (t + i)) host ∧ ∀ j < i, Busy r (readings (t + j)) host

theorem released_succ_iff {host : String} :
    Released r readings t (events + 1) host ↔
      Low r (readings t) host ∨ Busy r (readings t) host ∧ Released r readings (t + 1) events host := by
  unfold Released
  constructor
  · rintro ⟨i, hi, hlow, hbusy⟩
    cases i with
    | zero => exact .inl hlow
    | succ i =>
      refine .inr ⟨hbusy 0 (Nat.succ_pos i), i, Nat.lt_of_succ_lt_succ hi, ?_, fun j hj => ?_⟩
      · rwa [show t + 1 + i = t + (i + 1) by omega]
      · rw [show t + 1 + j = t + (j + 1) by omega]
        exact hbusy (j + 1) (Nat.succ_lt_succ hj)
  · rintro (hlow | ⟨hbusy, i, hi, hlow, hrest⟩)
    · exact ⟨0, Nat.succ_pos events, hlow, fun j hj => absurd hj (Nat.not_lt_zero j)⟩
    · refine ⟨i + 1, Nat.succ_lt_succ hi, ?_, fun j hj => ?_⟩
      · rwa [show t + (i + 1) = t + 1 + i by omega]
      · cases j with
        | zero => exact hbusy
        | succ j =>
          rw [show t + (j + 1) = t + 1 + j by omega]
          exact hrest j (Nat.lt_of_succ_lt_succ hj)

/-- No host is left exactly when each of them is released. -/
theorem pollLoop_nothing_left_iff :
    (∃ w', pollLoop isprintable readings r t events host_list w = .ok [] w') ↔
      ∀ host ∈ host_list, Released r readings t events host := by
  induction events generalizing t host_list w with
  | zero =>
    constructor
    · rintro ⟨w', h⟩
      cases h
      exact fun host hhost => absurd hhost List.not_mem_nil
    · intro h
      have hnil : host_list = [] := by
        refine List.eq_nil_iff_forall_not_mem.2 fun host hhost => ?_
        obtain ⟨i, hi, -⟩ := h host hhost
        exact absurd hi (Nat.not_lt_zero i)
      subst hnil
      exact ⟨w, rfl⟩
  | succ events ih =>
    by_cases hne : host_list = []
    · subst hne
      exact ⟨fun _ host hhost => absurd hhost List.not_mem_nil, fun _ => ⟨w, pollLoop_nil _ _ _⟩⟩
    · simp only [pollLoop_succ_ok_iff hne, released_succ_iff, exists_and_left]
      rw [ih]
      constructor
      · rintro ⟨hreads, hrest⟩ host hhost
        by_cases hlow : Low r (readings t) host
        · exact .inl hlow
        · refine .inr ⟨(hreads host hhost).resolve_left hlow, hrest host ?_⟩
          exact List.mem_filter.2 ⟨hhost, decide_eq_true hlow⟩
      · intro h
        refine ⟨fun host hhost => ?_, fun host hhost => ?_⟩
        · exact (h host hhost).imp_right And.left
        · obtain ⟨hmem, hlow⟩ := List.mem_filter.1 hhost
          exact ((h host hmem).resolve_left (of_decide_eq_true hlow)).2

/-! ## The task -/

/-- The selected hosts are different, and the hosts to measure are among them. -/
structure LvRequest.Selected (r : LvRequest) : Prop where
  nodup : r.host_list.Nodup
  measured : ∀ host ∈ r.measure_host_list.keys, host ∈ r.host_list

/-- The hosts of the first phase. -/
def LvRequest.measured (r : LvRequest) : List String :=
  (r.measure_host_list.entries.filter (·.2)).map Prod.fst

/-- The hosts that wait for the second phase. -/
def LvRequest.waiting (r : LvRequest) : List String :=
  r.host_list.filter fun host => r.measure_host_list.get? host ≠ some true

/-- The call of the last phase. -/
def throttledCall (isprintable : Char → Bool) (r : LvRequest) (left : List String) : DiskCall :=
  .extend_lv left (.list r.new_disks) r.extra_disk (measureText isprintable r) true

theorem LvRequest.mem_measured {host : String} :
    host ∈ r.measured ↔ r.measure_host_list.get? host = some true := by
  unfold LvRequest.measured
  rw [Dict.get?_eq_some_iff]
  simp

theorem LvRequest.mem_waiting {host : String} :
    host ∈ r.waiting ↔ host ∈ r.host_list ∧ r.measure_host_list.get? host ≠ some true := by
  unfold LvRequest.waiting
  rw [List.mem_filter, decide_eq_true_eq]

theorem LvRequest.Selected.perm (h : r.Selected) : (r.measured ++ r.waiting).Perm r.host_list := by
  have hmeasured : r.measured.Nodup :=
    r.measure_host_list.distinct.sublist (List.filter_sublist.map _)
  have hwaiting : r.waiting.Nodup := h.nodup.filter _
  have hdisjoint : r.measured.Disjoint r.waiting := by
    intro host hhost hwaits
    exact (LvRequest.mem_waiting.1 hwaits).2 (LvRequest.mem_measured.1 hhost)
  refine (List.perm_ext_iff_of_nodup (hmeasured.append hwaiting hdisjoint) h.nodup).2 ?_
  intro host
  rw [List.mem_append, LvRequest.mem_measured, LvRequest.mem_waiting]
  constructor
  · rintro (hhost | ⟨hhost, -⟩)
    · exact h.measured host (Dict.mem_keys_of_get? hhost)
    · exact hhost
  · intro hhost
    by_cases hmeasure : r.measure_host_list.get? host = some true
    · exact .inl hmeasure
    · exact .inr ⟨hhost, hmeasure⟩

/-- How the task goes through its phases. -/
theorem addDisksToHostsTask_ok_iff (h : r.Selected) (hlv : r.add_to_lv = true) :
    addDisksToHostsTask decimals isprintable readings r w = .ok () w' ↔
      ∃ inv added_disks left w₁, addDisksToHosts decimals r.host_list r.new_disks w.inventory =
          .ok (inv, added_disks) ∧
        pollLoop isprintable readings r 0 r.timeout_events.toNat r.waiting
          (DiskWorld.extend ⟨inv, w.calls⟩ (r.measured.map (lvCall isprintable r))) = .ok left w₁ ∧
        w' = w₁.extend (if left = [] then [] else [throttledCall isprintable r left]) := by
  have himmediate (w : DiskWorld) :
      immediatePhase isprintable r r.measure_host_list.entries r.host_list w =
        .ok r.waiting (w.extend (r.measured.map (lvCall isprintable r))) := by
    have hover : ∀ e ∈ r.measure_host_list.entries, e.1 ∈ r.host_list :=
      fun e he => h.measured e.1 (List.mem_map_of_mem he)
    rw [immediatePhase_eq r.measure_host_list.distinct h.nodup hover]
    simp only [LvRequest.waiting, LvRequest.measured, Dict.get?_eq_some_iff, List.map_map, ne_eq]
    rfl
  have hlast (left : List String) (w₁ : DiskWorld) :
      (if left = [] then (pure () : DisksTask Unit) else call (throttledCall isprintable r left)) w₁ =
        .ok () (w₁.extend (if left = [] then [] else [throttledCall isprintable r left])) := by
    split_ifs
    · rw [DiskWorld.extend_nil]
      rfl
    · rfl
  unfold addDisksToHostsTask
  rw [bind_eq_ok_iff]
  constructor
  · rintro ⟨added_disks, w₀, hupdate, hrest⟩
    rw [if_pos hlv, bind_eq_ok_iff] at hrest
    obtain ⟨waiting, w₂, hphase, hrest⟩ := hrest
    rw [himmediate] at hphase
    cases hphase
    obtain ⟨left, w₁, hloop, hend⟩ := bind_eq_ok_iff.1 hrest
    have hw' := hend.symm.trans (hlast left w₁)
    cases hw'
    unfold updateInventory at hupdate
    cases hadd : addDisksToHosts decimals r.host_list r.new_disks w.inventory with
    | error err =>
      rw [hadd] at hupdate
      cases hupdate
    | ok added =>
      rw [hadd] at hupdate
      cases hupdate
      exact ⟨added.1, added.2, left, w₁, rfl, hloop, rfl⟩
  · rintro ⟨inv, added_disks, left, w₁, hadd, hloop, rfl⟩
    have hupdate : updateInventory decimals r w = .ok added_disks ⟨inv, w.calls⟩ := by
      unfold updateInventory
      rw [hadd]
    refine ⟨added_disks, _, hupdate, ?_⟩
    rw [if_pos hlv, bind_eq_ok_iff]
    refine ⟨_, _, himmediate _, ?_⟩
    exact bind_eq_ok_iff.2 ⟨left, w₁, hloop, hlast left w₁⟩

/-- What the calls of the task say: every host once, and the disks always as the names
    joined by commas. -/
structure ExtendsAlike (r : LvRequest) (calls : List DiskCall) : Prop where
  once : (calls.flatMap DiskCall.host_names).Perm r.host_list
  alike : ∀ c ∈ calls, ∃ host_names measure_host_list throttle_containers_bw,
    c = .extend_lv host_names (.text (String.intercalate "," r.new_disks)) r.extra_disk
      measure_host_list throttle_containers_bw

theorem host_names_lvCalls (hosts : List String) :
    (hosts.map (lvCall isprintable r)).flatMap DiskCall.host_names = hosts := by
  induction hosts with
  | nil => rfl
  | cons host hosts ih =>
    rw [List.map_cons, List.flatMap_cons, ih]
    rfl

/-- The calls of a run through the phases. -/
theorem calls_of_phases {inv : Inventory} {w₁ : DiskWorld} (h : r.Selected)
    (hloop : pollLoop isprintable readings r 0 r.timeout_events.toNat r.waiting
      (DiskWorld.extend ⟨inv, w.calls⟩ (r.measured.map (lvCall isprintable r))) = .ok left w₁) :
    ∃ hosts, w₁.calls = w.calls ++ hosts.map (lvCall isprintable r) ∧
      (hosts ++ left).Perm r.host_list := by
  obtain ⟨passed, rfl, hperm⟩ := pollLoop_perm hloop
  refine ⟨r.measured ++ passed, ?_, ?_⟩
  · simp [DiskWorld.extend, List.map_append, List.append_assoc]
  · rw [List.append_assoc]
    exact (hperm.append_left _).trans h.perm

/-- A task that returns has passed every host once. -/
theorem task_passes_once (h : r.Selected) (hlv : r.add_to_lv = true)
    (htask : addDisksToHostsTask decimals isprintable readings r w = .ok () w') :
    ∃ calls, w'.calls = w.calls ++ calls ∧ (calls.flatMap DiskCall.host_names).Perm r.host_list := by
  obtain ⟨inv, added_disks, left, w₁, -, hloop, rfl⟩ := (addDisksToHostsTask_ok_iff h hlv).1 htask
  obtain ⟨hosts, hcalls, hperm⟩ := calls_of_phases h hloop
  refine ⟨hosts.map (lvCall isprintable r) ++ if left = [] then [] else [throttledCall isprintable r left],
    ?_, ?_⟩
  · simp [DiskWorld.extend, hcalls, List.append_assoc]
  · rw [List.flatMap_append, host_names_lvCalls]
    split_ifs with hleft
    · rw [hleft] at hperm
      exact hperm
    · simpa [throttledCall, DiskCall.host_names] using hperm

/-- If the disks are always passed as names, nothing was left for the last call. -/
theorem ExtendsAlike.released {calls : List DiskCall} (h : r.Selected) (hlv : r.add_to_lv = true)
    (htask : addDisksToHostsTask decimals isprintable readings r w = .ok () w')
    (hcalls : w'.calls = w.calls ++ calls) (hexact : ExtendsAlike r calls) :
    (∃ added, addDisksToHosts decimals r.host_list r.new_disks w.inventory = .ok added) ∧
      ∀ host ∈ r.waiting, Released r readings 0 r.timeout_events.toNat host := by
  obtain ⟨inv, added_disks, left, w₁, hadd, hloop, rfl⟩ := (addDisksToHostsTask_ok_iff h hlv).1 htask
  have hleft : left = [] := by
    by_contra hleft
    obtain ⟨hosts, hcalls₁, -⟩ := calls_of_phases h hloop
    have hsame : calls = hosts.map (lvCall isprintable r) ++ [throttledCall isprintable r left] := by
      rw [if_neg hleft] at hcalls
      simpa [DiskWorld.extend, hcalls₁, List.append_assoc] using hcalls.symm
    have hlast : throttledCall isprintable r left ∈ calls := by
      rw [hsame]
      exact List.mem_append_right _ (List.mem_singleton_self _)
    obtain ⟨host_names, measure_host_list, throttle, heq⟩ := hexact.alike _ hlast
    cases heq
  subst hleft
  exact ⟨⟨_, hadd⟩, pollLoop_nothing_left_iff.1 ⟨w₁, hloop⟩⟩

/-- If nothing is left for the last call, the task returns, and all calls are alike. -/
theorem extendsAlike_of_released (h : r.Selected) (hlv : r.add_to_lv = true)
    (hadd : ∃ added, addDisksToHosts decimals r.host_list r.new_disks w.inventory = .ok added)
    (hwaiting : ∀ host ∈ r.waiting, Released r readings 0 r.timeout_events.toNat host) :
    ∃ w' calls, addDisksToHostsTask decimals isprintable readings r w = .ok () w' ∧
      w'.calls = w.calls ++ calls ∧ ExtendsAlike r calls := by
  obtain ⟨⟨inv, added_disks⟩, hadd⟩ := hadd
  obtain ⟨w₁, hloop⟩ := (pollLoop_nothing_left_iff
    (w := DiskWorld.extend ⟨inv, w.calls⟩ (r.measured.map (lvCall isprintable r)))).2 hwaiting
  obtain ⟨hosts, hcalls, hperm⟩ := calls_of_phases h hloop
  have htask := (addDisksToHostsTask_ok_iff h hlv).2 ⟨inv, added_disks, [], w₁, hadd, hloop, rfl⟩
  rw [if_pos rfl, DiskWorld.extend_nil] at htask
  refine ⟨w₁, hosts.map (lvCall isprintable r), htask, hcalls, ?_, ?_⟩
  · rw [host_names_lvCalls]
    simpa using hperm
  · intro c hc
    obtain ⟨host, -, rfl⟩ := List.mem_map.1 hc
    exact ⟨_, _, _, rfl⟩

end

/-! ## One host -/

/-- `host0`, with or without load, gets a disk; its bandwidth is polled once. -/
def oneHost (measure : Bool) : LvRequest where
  host_list := ["host0"]
  add_to_lv := true
  new_disks := ["/dev/sdb"]
  extra_disk := "/dev/sdc"
  measure_host_list := Dict.empty.set "host0" measure
  threshold := .float (.finite (1 / 2))
  timeout_events := 1

/-- A host with all of its bandwidth in use. -/
def fullHost : LvmInfo := ⟨.int 100, .int 0, .int 100, .int 0⟩

theorem oneHost_selected (measure : Bool) : (oneHost measure).Selected where
  nodup := List.nodup_singleton _
  measured := by
    intro host hhost
    exact hhost

/-- `new_disks_list | split(',') | length` of `measure_disks_bandwidth.yml`: a list cannot
    be split. -/
def numberOfNewDisks : NewDisksArg → Py ℕ
  | .text s => .ok (s.toList.splitOn ',').length
  | .list _ => .error .attributeError

/-- The names joined by commas are counted. -/
theorem numberOfNewDisks_text {new_disks : List String} (hne : new_disks ≠ [])
    (hcomma : ∀ disk ∈ new_disks, ',' ∉ disk.toList) :
    numberOfNewDisks (.text (String.intercalate "," new_disks)) = .ok new_disks.length := by
  have hsplit : (String.intercalate "," new_disks).toList.splitOn ',' = new_disks.map String.toList := by
    rw [String.toList_intercalate]
    refine List.splitOn_intercalate ',' ?_ (by simpa using hne)
    intro l hl
    obtain ⟨disk, hdisk, rfl⟩ := List.mem_map.1 hl
    exact hcomma disk hdisk
  rw [numberOfNewDisks, hsplit, List.length_map]

/-- Calls that are alike can be counted. -/
theorem ExtendsAlike.counted {r : LvRequest} {calls : List DiskCall} (h : ExtendsAlike r calls)
    (hne : r.new_disks ≠ []) (hcomma : ∀ disk ∈ r.new_disks, ',' ∉ disk.toList) :
    ∀ c ∈ calls, ∃ host_names new_disks measure_host_list throttle_containers_bw,
      c = .extend_lv host_names new_disks r.extra_disk measure_host_list throttle_containers_bw ∧
        numberOfNewDisks new_disks = .ok r.new_disks.length := by
  intro c hc
  obtain ⟨host_names, measure_host_list, throttle, rfl⟩ := h.alike c hc
  exact ⟨host_names, _, measure_host_list, throttle, rfl, numberOfNewDisks_text hne hcomma⟩

end LvExtension

end ServerlessYarn
