/-
  ServerlessYARN model — the choice of the monitored events (selfwatts_controller/config/controller.py and
  invoker.py, and the control reports of selfwatts/config/handler.py).

  The processor counts few events at a time.  The controller runs the sensor with as many
  as there are counters; the power meter tells it which of them were of use, and the controller
  replaces the others by events that have not been tried.  Each of the two has its own list of
  fixed events; the power meter is taken to know those of the controller.

  * `events_monitored`: whatever is in flight between the two, the sensor monitors the fixed events
    and as many others as can be counted, and each event is tried for the first time once;
  * `selection_settles`: if every control event is handled before the next one is sent, there are at
    most as many as there are events, and an event that was dropped does not come back.
-/
import ServerlessYarn.DiskRegistration
import ServerlessYarn.Lib.Run
import Mathlib.Data.List.Dedup
import Mathlib.Data.List.Perm.Basic

namespace ServerlessYarn

open StateDatabase

namespace EventSelection

/-- The fixed events of the controller, and those that the power meter has been told; the templates give the
    controller none and the power meter the one `' '`, which is no event. -/
structure Config where
  fixed_events : List String
  meter_fixed_events : List String
  general_perf_counters : ℕ
  fixed_known : ∀ e ∈ fixed_events, e ∈ meter_fixed_events

/-! ## The controller -/

/-- `is_event_excluded` -/
def isEventExcluded (event : String) : Bool :=
  hasText "OFFCORE_RESPONSE" event || hasText "UOPS_DISPATCHED_PORT" event

/-- The events of the processor that can be tried; their order is drawn. -/
def availableEvents (c : Config) (pmu_events : List String) : List String :=
  pmu_events.filter fun event => !isEventExcluded event && decide (event ∉ c.fixed_events)

/-- `events.append(available_events.pop())`, as often as there are slots. -/
def popEvents : ℕ → List String → List String → List String × List String
  | 0, events, available_events => (events, available_events)
  | slots + 1, events, available_events =>
    match available_events.getLast? with
    | some event => popEvents slots (events ++ [event]) available_events.dropLast
    | none => popEvents slots events available_events

/-- `_generate_events_list`: the events, and those that are still available. -/
def generateEventsList (c : Config) (available_events : List String) (selected_events : List (Option String)) :
    List String × List String :=
  let available_slots := c.general_perf_counters - selected_events.count none
  let events := selected_events.filterMap id
  let (events, available_events) := popEvents (available_slots - events.length) events available_events
  (c.fixed_events.foldl (fun events fixed_event => fixed_event :: events) events, available_events)

/-- `set(a) == set(b)` -/
def SameSet (a b : List String) : Prop := (∀ e ∈ a, e ∈ b) ∧ ∀ e ∈ b, e ∈ a

instance (a b : List String) : Decidable (SameSet a b) := inferInstanceAs (Decidable (_ ∧ _))

/-- The controller, with the events of the sensor that is running, if one is. -/
structure Controller where
  available_events : List String
  current_events : List String
  process : Option (List String)

/-- `start` of the invoker does nothing without events. -/
def startSensor (process : Option (List String)) (events : List String) : Option (List String) :=
  if events = [] then process else some events

/-- The controller before its first control event. -/
def Controller.init (c : Config) (available_events : List String) : Controller :=
  let (current_events, available_events) := generateEventsList c available_events []
  ⟨available_events, current_events, startSensor none current_events⟩

/-- The body of `handle_control_events`; the sensor is stopped before it is started again. -/
def Controller.handle (c : Config) (k : Controller) (parameters : List (Option String)) : Controller :=
  let (new_events, available_events) := generateEventsList c k.available_events parameters
  if SameSet k.current_events new_events then { k with available_events := available_events }
  else ⟨available_events, new_events, startSensor none new_events⟩

/-! ## The power meter -/

/-- `compress` of `itertools` -/
def compress : List String → List Bool → List String
  | e :: es, b :: bs => if b then e :: compress es bs else compress es bs
  | _, _ => []

/-- The control report for the events that were reported, if some of them are of no use: the useful
    ones without those that the power meter takes to be fixed. -/
def controlReport (c : Config) (core_events : List String) (useful_events_mask : List Bool) : Option (List String) :=
  if false ∈ useful_events_mask then
    let selected_events := (compress core_events useful_events_mask).filter (· ∉ c.meter_fixed_events)
    if SameSet (core_events.filter (· ∉ c.meter_fixed_events)) selected_events then none else some selected_events
  else none

/-! ## The system -/

/-- The controller, the control events that it has still to handle, and all lists of events that the
    sensor has been run with. -/
structure System where
  controller : Controller
  control_events : List (List String)
  monitored : List (List String)

def System.start (c : Config) (available_events : List String) : System :=
  let k := Controller.init c available_events
  ⟨k, [], k.process.toList⟩

/-- The power meter checks the relevance of the events that were reported by the sensor, now or
    earlier; or the controller handles the next control event. -/
inductive Event where
  | check (events core_events : List String) (useful_events_mask : List Bool)
  | control

/-- A control report that is sent is a control event. -/
def System.check (c : Config) (s : System) (core_events : List String) (mask : List Bool) : System :=
  { s with control_events := s.control_events ++ (controlReport c core_events mask).toList }

def System.handle (c : Config) (s : System) (parameters : List String) (rest : List (List String)) : System :=
  let k := s.controller.handle c (parameters.map some)
  ⟨k, rest, k.process.toList ++ s.monitored⟩

inductive Step (c : Config) : System → Event → System → Prop
  | check {s : System} {events core_events mask} (hevents : events ∈ s.monitored) (hnodup : core_events.Nodup)
      (hreported : ∀ e ∈ core_events, e ∈ events) :
      Step c s (.check events core_events mask) (s.check c core_events mask)
  | control {s : System} {parameters rest} (hnext : s.control_events = parameters :: rest) :
      Step c s .control (s.handle c parameters rest)

/-- The power meter checks the events of the sensor that is running, and only when no control event is to be
    handled. -/
def PromptStep (c : Config) (s : System) (e : Event) (s' : System) : Prop :=
  Step c s e s' ∧ ∀ events core_events mask, e = .check events core_events mask →
    s.control_events = [] ∧ s.controller.process = some events

/-! ## One list of events -/

theorem popEvents_eq (slots : ℕ) (events available_events : List String) :
    popEvents slots events available_events =
      (events ++ (available_events.drop (available_events.length - slots)).reverse,
        available_events.take (available_events.length - slots)) := by
  induction slots generalizing events available_events with
  | zero => simp [popEvents]
  | succ slots ih =>
    rcases List.eq_nil_or_concat available_events with rfl | ⟨init, event, rfl⟩
    · simp [popEvents, ih]
    · rw [List.concat_eq_append, popEvents, List.getLast?_concat]
      dsimp only
      rw [List.dropLast_concat, ih]
      have hlength : (init ++ [event]).length - (slots + 1) = init.length - slots := by simp
      rw [hlength, List.drop_append_of_le_length (by omega), List.take_append_of_le_length (by omega)]
      simp

theorem foldl_cons_eq (fixed_events events : List String) :
    fixed_events.foldl (fun events fixed_event => fixed_event :: events) events = fixed_events.reverse ++ events := by
  induction fixed_events generalizing events with
  | nil => rfl
  | cons fixed_event fixed_events ih => simp [ih]

/-- The list for selected events: they come first, then the last of those that are available. -/
theorem generateEventsList_eq (c : Config) (available_events selected : List String) :
    generateEventsList c available_events (selected.map some) =
      (c.fixed_events.reverse ++ (selected ++ (available_events.drop
          (available_events.length - (c.general_perf_counters - selected.length))).reverse),
        available_events.take (available_events.length - (c.general_perf_counters - selected.length))) := by
  have hnone : (selected.map some).count none = 0 := by simp [List.count_eq_zero]
  have hevents : (selected.map some).filterMap id = selected := by simp [List.filterMap_map]
  unfold generateEventsList
  rw [hnone, hevents]
  dsimp only
  rw [popEvents_eq, foldl_cons_eq, Nat.sub_zero]

theorem compress_sublist (es : List String) (bs : List Bool) : (compress es bs).Sublist es := by
  induction es generalizing bs with
  | nil => exact List.nil_sublist _
  | cons e es ih =>
    cases bs with
    | nil => exact List.nil_sublist _
    | cons b bs =>
      rw [compress]
      split_ifs
      · exact (ih bs).cons_cons e
      · exact (ih bs).cons e

theorem not_fixed {c : Config} {e : String} (h : e ∉ c.meter_fixed_events) : e ∉ c.fixed_events :=
  fun he => h (c.fixed_known e he)

/-- What a control report selects: useful events that are not fixed, and not all of those that were reported. -/
theorem controlReport_eq_some {c : Config} {core_events : List String} {mask : List Bool} {selected : List String}
    (h : controlReport c core_events mask = some selected) : selected.Sublist core_events ∧
      (∀ e ∈ selected, e ∉ c.fixed_events) ∧ ∃ e ∈ core_events, e ∉ c.fixed_events ∧ e ∉ selected := by
  unfold controlReport at h
  dsimp only at h
  split_ifs at h with hfalse hsame
  obtain rfl := Option.some.inj h
  have hsub := compress_sublist core_events mask
  refine ⟨List.filter_sublist.trans hsub, fun e he => not_fixed (by simpa using (List.mem_filter.1 he).2), ?_⟩
  by_contra hall
  refine hsame ⟨fun e he => ?_, fun e he => ?_⟩
  · obtain ⟨hcore, hfixed⟩ := List.mem_filter.1 he
    by_contra hout
    exact hall ⟨e, hcore, not_fixed (by simpa using hfixed), hout⟩
  · obtain ⟨huseful, hfixed⟩ := List.mem_filter.1 he
    exact List.mem_filter.2 ⟨hsub.subset huseful, hfixed⟩

/-- A selection from the events of the sensor that are not fixed, and not all of them. -/
structure Narrows (c : Config) (selected general : List String) : Prop where
  subset : ∀ e ∈ selected, e ∈ general
  fewer : selected.length < general.length
  dropped : ∃ e ∈ general, e ∉ c.fixed_events ∧ e ∉ selected

/-- A control report narrows the events of the sensor. -/
theorem narrows_of_controlReport {c : Config} {core_events : List String} {mask : List Bool}
    {selected general : List String} (h : controlReport c core_events mask = some selected)
    (hnodup : core_events.Nodup) (hreported : ∀ e ∈ core_events, e ∈ c.fixed_events.reverse ++ general) :
    Narrows c selected general := by
  obtain ⟨hsub, hnot, e, he, hfixed, hout⟩ := controlReport_eq_some h
  have hgeneral : ∀ e ∈ core_events, e ∉ c.fixed_events → e ∈ general := fun e he hfixed =>
    (List.mem_append.1 (hreported e he)).resolve_left (by simpa using hfixed)
  have hselected : ∀ e ∈ selected, e ∈ general := fun e he => hgeneral e (hsub.subset he) (hnot e he)
  have hcons : (e :: selected).Nodup := List.nodup_cons.2 ⟨hout, hnodup.sublist hsub⟩
  have hle := (List.subperm_of_subset hcons
    (List.cons_subset.2 ⟨hgeneral e he hfixed, fun e he => hselected e he⟩)).length_le
  exact ⟨hselected, hle, e, hgeneral e he hfixed, hfixed, hout⟩

/-- `n` events of the pool are left, and the sensor is run with the fixed events and others that have
    been taken from the pool, as many as can be counted. -/
structure Fills (c : Config) (pool : List String) (n : ℕ) (general : List String) : Prop where
  left : n ≤ pool.length
  taken : ∀ e ∈ general, e ∈ pool.drop n
  counted : general.length ≤ c.general_perf_counters
  full : general.length = c.general_perf_counters ∨ n = 0

/-- The counters are filled up from the end of the pool. -/
theorem generateEventsList_fills {c : Config} {pool selected : List String} {n : ℕ} (hn : n ≤ pool.length)
    (htaken : ∀ e ∈ selected, e ∈ pool.drop n) (hcounted : selected.length ≤ c.general_perf_counters) :
    ∃ m general, m ≤ n ∧ generateEventsList c (pool.take n) (selected.map some) =
        (c.fixed_events.reverse ++ general, pool.take m) ∧ Fills c pool m general ∧
      (∀ e ∈ general, e ∈ selected ∨ e ∈ (pool.take n).drop m) ∧ general.length + m = selected.length + n := by
  have hlength : (pool.take n).length = n := List.length_take_of_le hn
  obtain ⟨m, hm⟩ : ∃ m, m = n - (c.general_perf_counters - selected.length) := ⟨_, rfl⟩
  have hgeneral : (selected ++ ((pool.take n).drop m).reverse).length + m = selected.length + n := by
    rw [List.length_append, List.length_reverse, List.length_drop, hlength]
    omega
  refine ⟨m, selected ++ ((pool.take n).drop m).reverse, by omega, ?_, ⟨by omega, fun e he => ?_, by omega, by omega⟩,
    fun e he => ?_, hgeneral⟩
  · rw [generateEventsList_eq, hlength, List.take_take, ← hm, Nat.min_eq_left (by omega)]
  · rcases List.mem_append.1 he with he | he
    · exact (List.drop_subset_drop_left pool (by omega)) (htaken e he)
    · rw [List.mem_reverse, List.drop_take] at he
      exact List.mem_of_mem_take he
  · rcases List.mem_append.1 he with he | he
    · exact Or.inl he
    · exact Or.inr (List.mem_reverse.1 he)

/-! ## Every interleaving -/

/-- The controller after its pool has been used down to `n` events. -/
structure Controller.Sound (c : Config) (pool : List String) (k : Controller) (n : ℕ) (general : List String) :
    Prop where
  fills : Fills c pool n general
  available : k.available_events = pool.take n
  current : k.current_events = c.fixed_events.reverse ++ general
  process : k.process = if k.current_events = [] then none else some k.current_events

/-- The controller handles a control event: its general events are those that were selected, filled up; and if one
    of them was not selected, fewer are left to be monitored. -/
theorem Controller.Sound.handle {c : Config} {pool : List String} {k : Controller} {n : ℕ} {general : List String}
    (h : k.Sound c pool n general) {selected : List String} (htaken : ∀ e ∈ selected, e ∈ pool.drop n)
    (hcounted : selected.length ≤ c.general_perf_counters) :
    ∃ m general', m ≤ n ∧ (k.handle c (selected.map some)).Sound c pool m general' ∧
      (∀ e ∈ general', e ∈ general ∨ e ∈ selected ∨ e ∈ pool.take n) ∧
      (Narrows c selected general → general'.length + m < general.length + n) := by
  obtain ⟨m, general', hmn, hgenerate, hfills, horigin, hlength⟩ :=
    generateEventsList_fills h.fills.left htaken hcounted
  rw [Controller.handle, h.available, hgenerate]
  dsimp only
  split_ifs with hsame
  · -- the sensor goes on; what was taken from the pool is not monitored
    have hkeep : Fills c pool m general :=
      ⟨hmn.trans h.fills.left, fun e he => List.drop_subset_drop_left pool hmn (h.fills.taken e he),
        h.fills.counted, h.fills.full.imp_right fun hn => by omega⟩
    refine ⟨m, general, hmn, ⟨hkeep, rfl, h.current, h.process⟩, fun e he => Or.inl he, ?_⟩
    rintro ⟨-, -, e, he, hfixed, hout⟩
    have hnew : e ∈ c.fixed_events.reverse ++ general' := by
      refine hsame.1 e ?_
      rw [h.current]
      exact List.mem_append_right _ he
    have hgeneral' : e ∈ general' := (List.mem_append.1 hnew).resolve_left (by simpa using hfixed)
    have hpopped := List.length_pos_of_mem ((horigin e hgeneral').resolve_left hout)
    rw [List.length_drop, List.length_take] at hpopped
    omega
  · refine ⟨m, general', hmn, ⟨hfills, rfl, rfl, rfl⟩, fun e he => Or.inr ?_, fun hnarrows => ?_⟩
    · exact (horigin e he).imp_right List.mem_of_mem_drop
    · have hfewer := hnarrows.fewer
      omega

theorem Controller.init_sound (c : Config) (pool : List String) :
    ∃ n general, (Controller.init c pool).Sound c pool n general ∧ general.length + n = pool.length := by
  obtain ⟨m, general, -, hgenerate, hfills, -, hlength⟩ :=
    generateEventsList_fills (c := c) (le_refl pool.length) (List.forall_mem_nil (· ∈ pool.drop pool.length))
      (Nat.zero_le _)
  rw [List.take_length] at hgenerate
  refine ⟨m, general, ?_, by simpa using hlength⟩
  rw [Controller.init, ← List.map_nil, hgenerate]
  exact ⟨hfills, rfl, rfl, rfl⟩

/-- The lists of events in the system have been taken from the pool. -/
structure System.Sound (c : Config) (pool : List String) (s : System) (n : ℕ) (general : List String) : Prop where
  controller : s.controller.Sound c pool n general
  selected : ∀ selected ∈ s.control_events,
    (∀ e ∈ selected, e ∈ pool.drop n) ∧ selected.length ≤ c.general_perf_counters
  monitored : ∀ events ∈ s.monitored, ∃ others, events = c.fixed_events.reverse ++ others ∧
    (∀ e ∈ others, e ∈ pool.drop n) ∧ others.length ≤ c.general_perf_counters

/-- What the sensor is run with. -/
theorem Controller.Sound.of_process {c : Config} {pool : List String} {k : Controller} {n : ℕ} {general : List String}
    (h : k.Sound c pool n general) {events : List String} (hprocess : k.process = some events) :
    events = c.fixed_events.reverse ++ general := by
  rw [h.process] at hprocess
  split_ifs at hprocess
  rw [← h.current]
  exact (Option.some.inj hprocess).symm

theorem System.start_sound (c : Config) (pool : List String) :
    ∃ n general, (System.start c pool).Sound c pool n general ∧ general.length + n = pool.length := by
  obtain ⟨n, general, h, hlength⟩ := Controller.init_sound c pool
  refine ⟨n, general, ⟨h, fun _ hin => absurd hin List.not_mem_nil, fun events hin => ?_⟩, hlength⟩
  exact ⟨general, h.of_process (Option.mem_toList.1 hin), h.fills.taken, h.fills.counted⟩

/-- The power meter checks events that the sensor has been run with. -/
theorem System.Sound.check {c : Config} {pool : List String} {s : System} {n : ℕ} {general : List String}
    (h : s.Sound c pool n general) {events core_events : List String} {mask : List Bool}
    (hevents : events ∈ s.monitored) (hnodup : core_events.Nodup) (hreported : ∀ e ∈ core_events, e ∈ events) :
    (s.check c core_events mask).Sound c pool n general := by
  refine ⟨h.controller, fun selected hin => ?_, h.monitored⟩
  rcases List.mem_append.1 hin with hin | hin
  · exact h.selected selected hin
  · obtain ⟨others, rfl, htaken, hcounted⟩ := h.monitored events hevents
    have hnarrows := narrows_of_controlReport (Option.mem_toList.1 hin) hnodup hreported
    exact ⟨fun e he => htaken e (hnarrows.subset e he), hnarrows.fewer.le.trans hcounted⟩

/-- The controller handles the next control event. -/
theorem System.Sound.handle {c : Config} {pool : List String} {s : System} {n : ℕ} {general : List String}
    (h : s.Sound c pool n general) {parameters : List String} {rest : List (List String)}
    (hnext : s.control_events = parameters :: rest) :
    ∃ m general', m ≤ n ∧ (s.handle c parameters rest).Sound c pool m general' ∧
      (∀ e ∈ general', e ∈ general ∨ e ∈ parameters ∨ e ∈ pool.take n) ∧
      (Narrows c parameters general → general'.length + m < general.length + n) := by
  obtain ⟨htaken, hcounted⟩ := h.selected parameters (by rw [hnext]; exact List.mem_cons_self)
  obtain ⟨m, general', hmn, hk, horigin, hless⟩ := h.controller.handle htaken hcounted
  have hmore : ∀ e ∈ pool.drop n, e ∈ pool.drop m := fun e he => List.drop_subset_drop_left pool hmn he
  refine ⟨m, general', hmn, ⟨hk, fun selected hin => ?_, fun events hin => ?_⟩, horigin, hless⟩
  · obtain ⟨htaken', hcounted'⟩ := h.selected selected (by rw [hnext]; exact List.mem_cons_of_mem _ hin)
    exact ⟨fun e he => hmore e (htaken' e he), hcounted'⟩
  · rcases List.mem_append.1 hin with hin | hin
    · exact ⟨general', hk.of_process (Option.mem_toList.1 hin), hk.fills.taken, hk.fills.counted⟩
    · obtain ⟨others, heq, htaken', hcounted'⟩ := h.monitored events hin
      exact ⟨others, heq, fun e he => hmore e (htaken' e he), hcounted'⟩

theorem Step.sound {c : Config} {pool : List String} {s s' : System} {e : Event} (hst : Step c s e s') {n : ℕ}
    {general : List String} (h : s.Sound c pool n general) : ∃ m general', s'.Sound c pool m general' := by
  cases hst with
  | check hevents hnodup hreported => exact ⟨n, general, h.check hevents hnodup hreported⟩
  | control hnext =>
    obtain ⟨m, general', -, hs', -⟩ := h.handle hnext
    exact ⟨m, general', hs'⟩

theorem System.sound_of_run {c : Config} {pool : List String} {es : List Event} {s : System}
    (h : Run (Step c) (System.start c pool) es s) : ∃ n general, s.Sound c pool n general := by
  refine Run.inv (I := fun s => ∃ n general, s.Sound c pool n general) (fun s e s' hs hst => ?_) h ?_
  · obtain ⟨n, general, hs⟩ := hs
    exact hst.sound hs
  · obtain ⟨n, general, hs, -⟩ := System.start_sound c pool
    exact ⟨n, general, hs⟩

/-- **What the sensor monitors**, in every interleaving of power meter and controller: the fixed events, and
    others that can be monitored and are not fixed, as many as can be counted as long as some are left;
    the pool is used up from its end, so each event is taken from it once. -/
theorem events_monitored {c : Config} {pmu_events pool : List String}
    (hpool : pool.Perm (availableEvents c pmu_events)) {es : List Event} {s : System}
    (h : Run (Step c) (System.start c pool) es s) :
    ∃ n general, s.controller.available_events = pool.take n ∧
      s.controller.current_events = c.fixed_events.reverse ++ general ∧
      s.controller.process = (if s.controller.current_events = [] then none else some s.controller.current_events) ∧
      (∀ e ∈ general, e ∈ pool.drop n ∧ isEventExcluded e = false ∧ e ∉ c.fixed_events) ∧
      general.length ≤ c.general_perf_counters ∧ (general.length = c.general_perf_counters ∨ n = 0) := by
  obtain ⟨n, general, hsound⟩ := System.sound_of_run h
  have hk := hsound.controller
  refine ⟨n, general, hk.available, hk.current, hk.process, fun e he => ⟨hk.fills.taken e he, ?_⟩,
    hk.fills.counted, hk.fills.full⟩
  have hmem := hpool.mem_iff.1 (List.mem_of_mem_drop (hk.fills.taken e he))
  simpa [availableEvents] using (List.mem_filter.1 hmem).2

/-! ## One control event at a time -/

/-- The control event that is to be handled, if there is one, is about the events of the sensor that is running. -/
structure System.Prompt (c : Config) (pool : List String) (s : System) (n : ℕ) (general : List String) : Prop where
  sound : s.Sound c pool n general
  control : s.control_events = [] ∨ ∃ selected, s.control_events = [selected] ∧ Narrows c selected general

def Event.isControl : Event → Bool
  | .control => true
  | .check .. => false

/-- A step does not bring an event back, and every control event leaves fewer events to be monitored. -/
theorem PromptStep.prompt {c : Config} {pool : List String} {s s' : System} {e : Event} (hst : PromptStep c s e s')
    {n : ℕ} {general : List String} (h : s.Prompt c pool n general) :
    ∃ m general', m ≤ n ∧ s'.Prompt c pool m general' ∧ (∀ e ∈ general', e ∈ general ∨ e ∈ pool.take n) ∧
      general'.length + m + (if e.isControl then 1 else 0) ≤ general.length + n := by
  obtain ⟨hst, hprompt⟩ := hst
  cases hst with
  | @check events core_events mask hevents hnodup hreported =>
    obtain ⟨hempty, hprocess⟩ := hprompt events core_events mask rfl
    refine ⟨n, general, le_rfl, ⟨h.sound.check hevents hnodup hreported, ?_⟩, fun e he => Or.inl he, le_rfl⟩
    rw [System.check, hempty, List.nil_append]
    cases hreport : controlReport c core_events mask with
    | none => exact Or.inl rfl
    | some selected =>
      rw [h.sound.controller.of_process hprocess] at hreported
      exact Or.inr ⟨selected, rfl, narrows_of_controlReport hreport hnodup hreported⟩
  | @control parameters rest hnext =>
    obtain ⟨selected, hselected, hnarrows⟩ := h.control.resolve_left (by rw [hnext]; exact List.cons_ne_nil _ _)
    rw [hnext, List.cons.injEq] at hselected
    obtain ⟨rfl, rfl⟩ := hselected
    obtain ⟨m, general', hmn, hs', horigin, hless⟩ := h.sound.handle hnext
    refine ⟨m, general', hmn, ⟨hs', Or.inl rfl⟩, fun e he => ?_, hless hnarrows⟩
    exact (horigin e he).elim Or.inl (Or.imp_left (hnarrows.subset e))

theorem System.prompt_of_run {c : Config} {pool : List String} {es : List Event} {s : System}
    (h : Run (PromptStep c) (System.start c pool) es s) :
    ∃ n general, s.Prompt c pool n general ∧ es.countP Event.isControl + (general.length + n) ≤ pool.length := by
  refine Run.inv_hist (I := fun es s => ∃ n general, s.Prompt c pool n general ∧
    es.countP Event.isControl + (general.length + n) ≤ pool.length) ?_ (fun es s e s' _ hs hst => ?_) h
  · obtain ⟨n, general, hs, hlength⟩ := System.start_sound c pool
    exact ⟨n, general, ⟨hs, Or.inl rfl⟩, by simp [hlength]⟩
  · obtain ⟨n, general, hs, hcount⟩ := hs
    obtain ⟨m, general', -, hs', -, hless⟩ := hst.prompt hs
    refine ⟨m, general', hs', ?_⟩
    rw [List.countP_append, List.countP_singleton]
    omega

/-- **The selection settles**, if every control event is handled before the power meter checks again: there are no
    more control events than events to choose from, and an event that is neither monitored nor available is
    not monitored any more. -/
theorem selection_settles {c : Config} {pool : List String} {es : List Event} {s : System}
    (h : Run (PromptStep c) (System.start c pool) es s) :
    es.countP Event.isControl ≤ pool.length ∧
    ∀ e, e ∉ s.controller.available_events → e ∉ s.controller.current_events →
      ∀ es' s', Run (PromptStep c) s es' s' → e ∉ s'.controller.current_events := by
  obtain ⟨n, general, hs, hcount⟩ := System.prompt_of_run h
  refine ⟨by omega, fun e havailable hcurrent es' s' h' => ?_⟩
  have hk := hs.sound.controller
  rw [hk.available] at havailable
  rw [hk.current, List.mem_append, not_or] at hcurrent
  have hgone : ∃ m general', s'.Prompt c pool m general' ∧ e ∉ pool.take m ∧ e ∉ general' := by
    refine Run.inv (I := fun s => ∃ m general', s.Prompt c pool m general' ∧ e ∉ pool.take m ∧ e ∉ general')
      (fun s e' s' hs hst => ?_) h' ⟨n, general, hs, havailable, hcurrent.2⟩
    obtain ⟨n, general, hs, hout, hnot⟩ := hs
    obtain ⟨m, general', hmn, hs', horigin, -⟩ := hst.prompt hs
    refine ⟨m, general', hs', fun he => hout ?_, fun he => ?_⟩
    · exact (List.take_subset_take_left pool hmn) he
    · exact (horigin e he).elim hnot hout
  obtain ⟨m, general', hs', -, hnot⟩ := hgone
  rw [hs'.sound.controller.current, List.mem_append, not_or]
  exact ⟨hcurrent.1, hnot⟩

/-! An event that is of no use gives way to the other one. -/

def triedConfig : Config := ⟨["f"], ["f", " "], 1, by simp⟩

def triedPool : List String := ["b", "a"]

def triedCheck : Event := .check ["f", "a"] ["a", "f"] [false, true]

def triedSystem : System :=
  ((System.start triedConfig triedPool).check triedConfig ["a", "f"] [false, true]).handle triedConfig [] []

theorem tried_run : Run (PromptStep triedConfig) (System.start triedConfig triedPool) [triedCheck, .control]
    triedSystem := by
  refine Run.cons ⟨Step.check (List.mem_singleton.2 rfl) (by simp) (by simp), fun events core_events mask he => ?_⟩
    (Run.single ⟨Step.control rfl, fun _ _ _ he => by cases he⟩)
  cases he
  exact ⟨rfl, rfl⟩

theorem selection_settles_tried : [triedCheck, .control].countP Event.isControl ≤ triedPool.length ∧
    ∀ e, e ∉ triedSystem.controller.available_events → e ∉ triedSystem.controller.current_events →
      ∀ es' s', Run (PromptStep triedConfig) triedSystem es' s' → e ∉ s'.controller.current_events :=
  selection_settles tried_run

theorem events_monitored_tried : ∃ n general, triedSystem.controller.available_events = triedPool.take n ∧
    triedSystem.controller.current_events = triedConfig.fixed_events.reverse ++ general ∧
    triedSystem.controller.process = (if triedSystem.controller.current_events = [] then none
      else some triedSystem.controller.current_events) ∧
    (∀ e ∈ general, e ∈ triedPool.drop n ∧ isEventExcluded e = false ∧ e ∉ triedConfig.fixed_events) ∧
    general.length ≤ triedConfig.general_perf_counters ∧
    (general.length = triedConfig.general_perf_counters ∨ n = 0) :=
  @events_monitored triedConfig ["f", "OFFCORE_RESPONSE_0", "b", "a"] triedPool
    (List.Perm.of_eq (by decide)) _ _ (tried_run.mono fun _ _ _ h => h.1)

end EventSelection

end ServerlessYarn
