/-
  ServerlessYARN model — the callbacks of a finished application
  (`ui/views/common/views.py`: `api_stop_app`, with the redis counter of
  `ui/background_tasks.py`: `create_app_counter`, `get_app_counter`,
  `remove_app_counter`).

  Every container of an application reports once.  The callback reads the
  counter of active containers; above one it writes back the value minus one,
  else it deletes the counter and stops the application.  Every redis command
  is atomic, but the callbacks of different requests interleave.

  * `app_stopped_iff`: the application is stopped exactly once if and only if no
    callback reads the counter between the read and the write of another one;
    it is never stopped twice, nor before every callback has read the counter.
-/
import Mathlib.Data.List.Count
import Mathlib.Tactic.Linarith
import ServerlessYarn.Lib.Parties
import ServerlessYarn.Lib.Run
import ServerlessYarn.Resources

namespace ServerlessYarn

open Parties

/-! ## The callbacks -/

/-- The status of the task that a callback registers. -/
def exitStatus (exit_code : ℤ) : Option String :=
  if exit_code = 0 then some "SUCCESS" else if 0 < exit_code then some "FAILURE" else none

/-- Where a callback is. -/
inductive CallbackPhase where
  | received
  | registered
  | checked (active_containers : ℤ)
  | removed
  | responded
  | raised (err : PyError)
deriving DecidableEq

/-- The redis counter, the registered tasks with their status, and the callbacks. -/
structure AppState (ι : Type) where
  active_containers : Option ℤ
  tasks : List (ι × String)
  phase : ι → CallbackPhase

inductive AppEvent (ι : Type) where
  | register (i : ι)
  | getAppCounter (i : ι)
  | createAppCounter (i : ι)
  | removeAppCounter (i : ι)
  | processStopApp (i : ι)
deriving DecidableEq

/-- The state after `create_app_counter(app, number_of_containers)`. -/
def AppState.initial {ι : Type} (number_of_containers : ℕ) : AppState ι :=
  ⟨some number_of_containers, [], fun _ => .received⟩

variable {ι : Type} [DecidableEq ι]

/-- Move a callback. -/
def AppState.set (s : AppState ι) (i : ι) (p : CallbackPhase) : AppState ι :=
  { s with phase := Function.update s.phase i p }

/-- One command of one callback of `api_stop_app`. -/
inductive AppStep (exit_code : ι → ℤ) (s : AppState ι) : AppEvent ι → AppState ι → Prop
  | register {i status} (hi : s.phase i = .received) (hstatus : exitStatus (exit_code i) = some status) :
      AppStep exit_code s (.register i) ({ s with tasks := s.tasks ++ [(i, status)] }.set i .registered)
  /-- `status.upper()` of `None`. -/
  | registerRaises {i} (hi : s.phase i = .received) (hstatus : exitStatus (exit_code i) = none) :
      AppStep exit_code s (.register i) (s.set i (.raised .attributeError))
  | getAppCounter {i active_containers} (hi : s.phase i = .registered)
      (hc : s.active_containers = some active_containers) :
      AppStep exit_code s (.getAppCounter i) (s.set i (.checked active_containers))
  /-- `redis_server.hget(...).decode(...)` of a missing counter. -/
  | getAppCounterRaises {i} (hi : s.phase i = .registered) (hc : s.active_containers = none) :
      AppStep exit_code s (.getAppCounter i) (s.set i (.raised .attributeError))
  | createAppCounter {i active_containers} (hi : s.phase i = .checked active_containers)
      (hpos : 1 < active_containers) :
      AppStep exit_code s (.createAppCounter i)
        ({ s with active_containers := some (active_containers - 1) }.set i .responded)
  | removeAppCounter {i active_containers} (hi : s.phase i = .checked active_containers)
      (hlast : ¬ 1 < active_containers) :
      AppStep exit_code s (.removeAppCounter i) ({ s with active_containers := none }.set i .removed)
  | processStopApp {i} (hi : s.phase i = .removed) :
      AppStep exit_code s (.processStopApp i) (s.set i .responded)

namespace CallbackPhase

/-- The callback has not read the counter yet. -/
@[simp] def unchecked : CallbackPhase → Bool
  | received | registered => true
  | _ => false

/-- The callback has read the counter and not yet written it. -/
@[simp] def pending : CallbackPhase → Bool
  | checked _ => true
  | _ => false

/-- The callback is not past the counter. -/
@[simp] def active : CallbackPhase → Bool
  | received | registered | checked _ => true
  | _ => false

/-- The callback is about to stop the application. -/
@[simp] def stopping : CallbackPhase → Bool
  | removed => true
  | _ => false

/-- The callback has ended. -/
@[simp] def ended : CallbackPhase → Bool
  | responded | raised _ => true
  | _ => false

end CallbackPhase

/-- The event is a run of `processStopApp`. -/
@[simp] def AppEvent.isStop : AppEvent ι → Bool
  | processStopApp _ => true
  | _ => false

/-- How often the application was stopped. -/
def stops (es : List (AppEvent ι)) : ℕ := es.countP AppEvent.isStop

/-- A callback only reads the counter while no other one is between its read and
    its write. -/
def ChecksApart (s : AppState ι) : AppEvent ι → Prop
  | .getAppCounter _ => ∀ j, ¬ (s.phase j).pending
  | _ => True

/-- The application is only stopped after all callbacks have read the counter. -/
def StopsLast (es : List (AppEvent ι)) : Prop :=
  ∀ es₁ i es₂, es = es₁ ++ .processStopApp i :: es₂ → ∀ j, .getAppCounter j ∈ es₁

omit [DecidableEq ι] in
theorem stops_append (es : List (AppEvent ι)) (e : AppEvent ι) :
    stops (es ++ [e]) = stops es + if e.isStop then 1 else 0 := by
  rw [stops, List.countP_append, List.countP_singleton, stops]

omit [DecidableEq ι] in
theorem stops_append_other (es : List (AppEvent ι)) {e : AppEvent ι} (he : e.isStop = false) :
    stops (es ++ [e]) = stops es := by
  rw [stops_append, he, if_neg Bool.false_ne_true, Nat.add_zero]

omit [DecidableEq ι] in
theorem stops_append_processStopApp (es : List (AppEvent ι)) (i : ι) :
    stops (es ++ [.processStopApp i]) = stops es + 1 := by
  simp [stops_append]

/-! ## What every run keeps -/

section counter
variable [Fintype ι] {exit_code : ι → ℤ} {s s' : AppState ι} {e : AppEvent ι}
  {es : List (AppEvent ι)}

/-- The callbacks that are not past the counter. -/
def AppState.left (s : AppState ι) : ℕ := numIn CallbackPhase.active s.phase

/-- The callbacks between the read and the write. -/
def AppState.checking (s : AppState ι) : ℕ := numIn CallbackPhase.pending s.phase

/-- The callbacks about to stop the application. -/
def AppState.stopping (s : AppState ι) : ℕ := numIn CallbackPhase.stopping s.phase

omit [Fintype ι] in
theorem AppState.set_phase (s : AppState ι) (i : ι) (p : CallbackPhase) (j : ι) :
    (s.set i p).phase j = if j = i then p else s.phase j :=
  Function.update_apply ..

/-- How the counts move with one callback. -/
theorem AppState.counts_move {t : AppState ι} {i : ι} {p₀ p : CallbackPhase} (hi : s.phase i = p₀)
    (ht : t.phase = Function.update s.phase i p) :
    t.left + (if p₀.active then 1 else 0) = s.left + (if p.active then 1 else 0) ∧
      t.checking + (if p₀.pending then 1 else 0) = s.checking + (if p.pending then 1 else 0) ∧
      t.stopping + (if p₀.stopping then 1 else 0) = s.stopping + (if p.stopping then 1 else 0) := by
  subst hi
  unfold left checking stopping
  rw [ht]
  exact ⟨numIn_update p, numIn_update p, numIn_update p⟩

/-- The counts after each event. -/
def AppEvent.Counts (s s' : AppState ι) : AppEvent ι → Prop
  | .register _ => s'.left = s.left ∧ s'.checking = s.checking ∧ s'.stopping = s.stopping
  | .getAppCounter _ => s'.left = s.left ∧ s'.checking = s.checking + 1 ∧ s'.stopping = s.stopping
  | .createAppCounter _ =>
    s'.left + 1 = s.left ∧ s'.checking + 1 = s.checking ∧ s'.stopping = s.stopping
  | .removeAppCounter _ =>
    s'.left + 1 = s.left ∧ s'.checking + 1 = s.checking ∧ s'.stopping = s.stopping + 1
  | .processStopApp _ => s'.left = s.left ∧ s'.checking = s.checking ∧ s'.stopping + 1 = s.stopping

/-- What a command that does not raise does to the counts. -/
theorem AppStep.counts (hst : AppStep exit_code s e s')
    (hraised : ∀ i err, s'.phase i ≠ .raised err) : e.Counts s s' := by
  cases hst with
  | @register i status hi _ =>
    simpa [AppEvent.Counts] using AppState.counts_move
      (t := AppState.set { s with tasks := s.tasks ++ [(i, status)] } i .registered) hi rfl
  | @registerRaises i hi _ => exact absurd (by simp [AppState.set_phase]) (hraised i .attributeError)
  | @getAppCounter i c hi _ =>
    simpa [AppEvent.Counts] using AppState.counts_move (t := s.set i (.checked c)) hi rfl
  | @getAppCounterRaises i hi _ =>
    exact absurd (by simp [AppState.set_phase]) (hraised i .attributeError)
  | @createAppCounter i v hi _ =>
    simpa [AppEvent.Counts] using AppState.counts_move
      (t := AppState.set { s with active_containers := some (v - 1) } i .responded) hi rfl
  | @removeAppCounter i v hi _ =>
    simpa [AppEvent.Counts] using AppState.counts_move
      (t := AppState.set { s with active_containers := none } i .removed) hi rfl
  | @processStopApp i hi =>
    simpa [AppEvent.Counts] using AppState.counts_move (t := s.set i .responded) hi rfl

/-- The counter and every value read from it are at least the number of
    callbacks that are not past it, and the application is stopped by at most
    one of them, when no other is left. -/
structure CounterInv (es : List (AppEvent ι)) (s : AppState ι) : Prop where
  counter : ∀ c, s.active_containers = some c → (s.left : ℤ) ≤ c
  missing : s.active_containers = none → s.left = 0
  checked : ∀ i v, s.phase i = .checked v → (s.left : ℤ) ≤ v
  not_raised : ∀ i err, s.phase i ≠ .raised err
  once : stops es + s.stopping ≤ 1
  last : 0 < stops es + s.stopping → s.left = 0
  reads : ∀ i, ¬ (s.phase i).unchecked → .getAppCounter i ∈ es

omit [DecidableEq ι] in
theorem CounterInv.initial : CounterInv [] (AppState.initial (ι := ι) (Fintype.card ι)) := by
  have hleft : (AppState.initial (ι := ι) (Fintype.card ι)).left = Fintype.card ι :=
    numIn_all fun _ => rfl
  have hstopping : (AppState.initial (ι := ι) (Fintype.card ι)).stopping = 0 :=
    numIn_eq_zero_iff.2 fun _ => rfl
  refine ⟨fun c hc => ?_, fun hc => ?_, fun i v hi => ?_, fun i err hi => ?_, ?_, ?_, fun i hi => ?_⟩
  · cases hc
    rw [hleft]
  · cases hc
  · cases hi
  · cases hi
  · rw [hstopping]
    exact Nat.zero_le 1
  · intro hpos
    rw [hstopping] at hpos
    cases hpos
  · exact absurd rfl hi

omit [DecidableEq ι] in
theorem left_pos {i : ι} (hi : (s.phase i).active) : 0 < s.left := numIn_pos_iff.2 ⟨i, hi⟩

omit [DecidableEq ι] in
theorem checking_le_left (s : AppState ι) : s.checking ≤ s.left :=
  numIn_mono fun p hp => by cases p <;> simp_all

omit [Fintype ι] in
/-- What holds of the values that the callbacks have read, after one of them has moved. -/
theorem AppState.forall_checked {R : ℤ → Prop} {t : AppState ι} {i : ι} {p : CallbackPhase}
    (ht : t.phase = Function.update s.phase i p) (hi : ∀ v, p = .checked v → R v)
    (hs : ∀ j v, j ≠ i → s.phase j = .checked v → R v) : ∀ j v, t.phase j = .checked v → R v := by
  intro j v hj
  rw [ht, Function.update_apply] at hj
  split_ifs at hj with hji
  · exact hi v hj
  · exact hs j v hji hj

/-- With non-negative exit codes, no callback raises: while one is left, the
    counter is there. -/
theorem CounterInv.not_raised_step (hexit : ∀ i, 0 ≤ exit_code i) (h : CounterInv es s)
    (hst : AppStep exit_code s e s') : ∀ i err, s'.phase i ≠ .raised err := by
  have hmove : ∀ {t : AppState ι} {i p}, t.phase = Function.update s.phase i p →
      (∀ err, p ≠ .raised err) → ∀ j err, t.phase j ≠ .raised err := by
    intro t i p ht hp j err hj
    rw [ht, Function.update_apply] at hj
    split_ifs at hj
    · exact hp err hj
    · exact h.not_raised j err hj
  cases hst with
  | @registerRaises i hi hstatus =>
    exfalso
    have := hexit i
    unfold exitStatus at hstatus
    split_ifs at hstatus
    omega
  | @getAppCounterRaises i hi hc =>
    exfalso
    have hpos := left_pos (s := s) (i := i) (by rw [hi]; rfl)
    have := h.missing hc
    omega
  | _ => exact hmove rfl (by simp)

/-- With non-negative exit codes, every command keeps the invariant. -/
theorem CounterInv.step (hexit : ∀ i, 0 ≤ exit_code i) (h : CounterInv es s)
    (hst : AppStep exit_code s e s') : CounterInv (es ++ [e]) s' := by
  have hraised := h.not_raised_step hexit hst
  have hcounts := hst.counts hraised
  have honce := h.once
  have hlast := h.last
  have hreads : ∀ {i}, ¬ (s.phase i).unchecked → .getAppCounter i ∈ es ++ [e] := fun hi =>
    List.mem_append_left _ (h.reads _ hi)
  have hmoved : ∀ {t : AppState ι} {i p}, t.phase = Function.update s.phase i p →
      (¬ p.unchecked → .getAppCounter i ∈ es ++ [e]) →
        ∀ j, ¬ (t.phase j).unchecked → .getAppCounter j ∈ es ++ [e] := by
    intro t i p ht hi j hj
    rw [ht, Function.update_apply] at hj
    split_ifs at hj with hji
    · subst hji
      exact hi hj
    · exact hreads hj
  cases hst with
  | @register i status hi _ =>
    obtain ⟨hl, -, hk⟩ := hcounts
    have hes := stops_append_other es (e := .register i) rfl
    refine ⟨hl ▸ h.counter, hl ▸ h.missing, ?_, hraised, by omega, by omega, fun j hj => ?_⟩
    · rw [hl]
      exact AppState.forall_checked rfl (by simp) fun j v _ => h.checked j v
    · exact hmoved rfl (by simp) j hj
  | @registerRaises i => exact absurd (by simp [AppState.set_phase]) (hraised i .attributeError)
  | @getAppCounter i c hi hc =>
    obtain ⟨hl, -, hk⟩ := hcounts
    have hes := stops_append_other es (e := .getAppCounter i) rfl
    refine ⟨hl ▸ h.counter, hl ▸ h.missing, ?_, hraised, by omega, by omega, fun j hj => ?_⟩
    · rw [hl]
      refine AppState.forall_checked rfl (fun v hv => ?_) fun j v _ => h.checked j v
      cases hv
      exact h.counter c hc
    · exact hmoved rfl (by simp) j hj
  | @getAppCounterRaises i => exact absurd (by simp [AppState.set_phase]) (hraised i .attributeError)
  | @createAppCounter i v hi hpos =>
    obtain ⟨hl, -, hk⟩ := hcounts
    have hes := stops_append_other es (e := .createAppCounter i) rfl
    have hle := h.checked i v hi
    refine ⟨fun c hc => ?_, fun hc => ?_, ?_, hraised, by omega, by omega, fun j hj => ?_⟩
    · cases hc
      omega
    · cases hc
    · refine AppState.forall_checked rfl (by simp) fun j v _ hj => ?_
      have := h.checked j v hj
      omega
    · exact hmoved rfl (fun _ => hreads (by simp [hi])) j hj
  | @removeAppCounter i v hi hv =>
    -- this callback is the last one
    obtain ⟨hl, -, hk⟩ := hcounts
    have hes := stops_append_other es (e := .removeAppCounter i) rfl
    have hle := h.checked i v hi
    refine ⟨fun c hc => ?_, fun _ => by omega, ?_, hraised, by omega, by omega, fun j hj => ?_⟩
    · cases hc
    · refine AppState.forall_checked rfl (by simp) fun j v _ hj => ?_
      have := h.checked j v hj
      omega
    · exact hmoved rfl (fun _ => hreads (by simp [hi])) j hj
  | @processStopApp i hi =>
    obtain ⟨hl, -, hk⟩ := hcounts
    have hes := stops_append_processStopApp es i
    refine ⟨hl ▸ h.counter, hl ▸ h.missing, ?_, hraised, by omega, by omega, fun j hj => ?_⟩
    · rw [hl]
      exact AppState.forall_checked rfl (by simp) fun j v _ => h.checked j v
    · exact hmoved rfl (fun _ => hreads (by simp [hi])) j hj

theorem Run.counterInv (hexit : ∀ i, 0 ≤ exit_code i)
    (h : Run (AppStep exit_code) (AppState.initial (Fintype.card ι)) es s) : CounterInv es s :=
  h.inv_hist CounterInv.initial fun _ _ _ _ _ hI hst => hI.step hexit hst

/-- **The application is only stopped after all callbacks have read the counter.** -/
theorem stopsLast_of_run (hexit : ∀ i, 0 ≤ exit_code i)
    (h : Run (AppStep exit_code) (AppState.initial (Fintype.card ι)) es s) : StopsLast es := by
  rintro es₁ i es₂ rfl j
  rw [List.append_cons] at h
  obtain ⟨s₂, h, -⟩ := h.of_append
  obtain ⟨s₁, h₁, hst⟩ := h.of_snoc
  have hinv := Run.counterInv hexit h₁
  cases hst with
  | processStopApp hi =>
    have hpos : 0 < s₁.stopping := numIn_pos_iff.2 ⟨i, by rw [hi]; rfl⟩
    have hleft := hinv.last (by omega)
    refine hinv.reads j fun hj => ?_
    have := left_pos (s := s₁) (i := j) (by cases hp : s₁.phase j <;> simp_all)
    omega

/-! ## Runs without overlapping checks -/

/-- No overlap so far: the counter is exactly the number of callbacks left. -/
structure Exact (es : List (AppEvent ι)) (s : AppState ι) : Prop where
  inv : CounterInv es s
  alone : s.checking ≤ 1
  counter : ∀ c, s.active_containers = some c → c = s.left
  checked : ∀ i v, s.phase i = .checked v → v = s.left
  stopped : s.left = 0 → 0 < stops es + s.stopping

/-- An overlap has happened: whatever is read from now on is too large to stop
    the application. -/
structure Late (es : List (AppEvent ι)) (s : AppState ι) : Prop where
  inv : CounterInv es s
  counter : ∀ c, s.active_containers = some c → (s.left : ℤ) + 1 ≤ c ∨ 0 < s.checking
  checked : ∀ i v, s.phase i = .checked v → (s.left : ℤ) + 1 ≤ v ∨ 1 < s.checking
  running : stops es + s.stopping = 0

omit [DecidableEq ι] in
theorem Exact.initial [Nonempty ι] : Exact [] (AppState.initial (ι := ι) (Fintype.card ι)) := by
  have hleft : (AppState.initial (ι := ι) (Fintype.card ι)).left = Fintype.card ι :=
    numIn_all fun _ => rfl
  have hchecking : (AppState.initial (ι := ι) (Fintype.card ι)).checking = 0 :=
    numIn_eq_zero_iff.2 fun _ => rfl
  refine ⟨CounterInv.initial, ?_, fun c hc => ?_, fun i v hi => ?_, fun hzero => ?_⟩
  · rw [hchecking]
    exact Nat.zero_le 1
  · cases hc
    rw [hleft]
  · cases hi
  · rw [hleft] at hzero
    exact absurd hzero Fintype.card_ne_zero

/-- Without overlap, the counter stays exact. -/
theorem Exact.step (hexit : ∀ i, 0 ≤ exit_code i) (h : Exact es s)
    (hst : AppStep exit_code s e s') (hapart : ChecksApart s e) : Exact (es ++ [e]) s' := by
  have hinv := h.inv.step hexit hst
  have hcounts := hst.counts hinv.not_raised
  have hstopped := h.stopped
  have halone := h.alone
  have hother : ∀ {i v j w}, s.phase i = .checked v → j ≠ i → s.phase j ≠ .checked w := by
    intro i v j w hi hji hj
    have : 2 ≤ s.checking := two_le_numIn (i := j) (j := i) (by simp [hj]) (by simp [hi]) hji
    omega
  cases hst with
  | @register i status hi _ =>
    obtain ⟨hl, hc, hk⟩ := hcounts
    have hes := stops_append_other es (e := .register i) rfl
    refine ⟨hinv, by omega, hl ▸ h.counter, ?_, by omega⟩
    rw [hl]
    exact AppState.forall_checked rfl (by simp) fun j v _ => h.checked j v
  | @registerRaises i => exact absurd (by simp [AppState.set_phase]) (hinv.not_raised i .attributeError)
  | @getAppCounter i c hi hc =>
    obtain ⟨hl, hp, hk⟩ := hcounts
    have hes := stops_append_other es (e := .getAppCounter i) rfl
    have hnone : s.checking = 0 := numIn_eq_zero_iff.2 fun j => by simpa using hapart j
    refine ⟨hinv, by omega, hl ▸ h.counter, ?_, by omega⟩
    rw [hl]
    refine AppState.forall_checked rfl (fun v hv => ?_) fun j v _ hj => ?_
    · cases hv
      exact h.counter c hc
    · exact absurd (hapart j) (by simp [hj])
  | @getAppCounterRaises i =>
    exact absurd (by simp [AppState.set_phase]) (hinv.not_raised i .attributeError)
  | @createAppCounter i v hi hpos =>
    obtain ⟨hl, hp, hk⟩ := hcounts
    have hes := stops_append_other es (e := .createAppCounter i) rfl
    have hv := h.checked i v hi
    refine ⟨hinv, by omega, fun c hc => ?_, ?_, by omega⟩
    · cases hc
      omega
    · exact AppState.forall_checked rfl (by simp) fun j w hji hj => absurd hj (hother hi hji)
  | @removeAppCounter i v hi hv =>
    obtain ⟨hl, hp, hk⟩ := hcounts
    refine ⟨hinv, by omega, fun c hc => ?_, ?_, by omega⟩
    · cases hc
    · exact AppState.forall_checked rfl (by simp) fun j w hji hj => absurd hj (hother hi hji)
  | @processStopApp i hi =>
    obtain ⟨hl, hp, hk⟩ := hcounts
    have hes := stops_append_processStopApp es i
    refine ⟨hinv, by omega, hl ▸ h.counter, ?_, by omega⟩
    rw [hl]
    exact AppState.forall_checked rfl (by simp) fun j v _ => h.checked j v

/-- A check that overlaps another one. -/
theorem Late.of_overlap (h : CounterInv es s) (hinv : CounterInv (es ++ [e]) s')
    (hst : AppStep exit_code s e s') (hover : ¬ ChecksApart s e) : Late (es ++ [e]) s' := by
  have hcounts := hst.counts hinv.not_raised
  cases hst with
  | @getAppCounter i c hi hc =>
    obtain ⟨hl, hp, hk⟩ := hcounts
    have hes := stops_append_other es (e := .getAppCounter i) rfl
    obtain ⟨j, hj⟩ := not_forall.1 hover
    have hpos : 0 < s.checking := numIn_pos_iff.2 ⟨j, not_not.1 hj⟩
    have hleft := left_pos (s := s) (i := i) (by simp [hi])
    have hlast := h.last
    refine ⟨hinv, fun c' hc' => Or.inr (by omega), fun k v hk => Or.inr (by omega), by omega⟩
  | @getAppCounterRaises i =>
    exact absurd (by simp [AppState.set_phase]) (hinv.not_raised i .attributeError)
  | _ => exact absurd trivial hover

/-- After an overlap, the application is never stopped. -/
theorem Late.step (hexit : ∀ i, 0 ≤ exit_code i) (h : Late es s)
    (hst : AppStep exit_code s e s') : Late (es ++ [e]) s' := by
  have hinv := h.inv.step hexit hst
  have hcounts := hst.counts hinv.not_raised
  have hrunning := h.running
  cases hst with
  | @register i status hi _ =>
    obtain ⟨hl, hc, hk⟩ := hcounts
    have hes := stops_append_other es (e := .register i) rfl
    refine ⟨hinv, hl ▸ hc ▸ h.counter, ?_, by omega⟩
    rw [hl, hc]
    exact AppState.forall_checked rfl (by simp) fun j v _ => h.checked j v
  | @registerRaises i => exact absurd (by simp [AppState.set_phase]) (hinv.not_raised i .attributeError)
  | @getAppCounter i c hi hc =>
    obtain ⟨hl, hp, hk⟩ := hcounts
    have hes := stops_append_other es (e := .getAppCounter i) rfl
    refine ⟨hinv, fun c' _ => Or.inr (by omega), ?_, by omega⟩
    refine AppState.forall_checked rfl (fun v hv => ?_) fun j v _ hj => Or.inr ?_
    · cases hv
      have := h.counter c hc
      omega
    · have : 0 < s.checking := numIn_pos_iff.2 ⟨j, by simp [hj]⟩
      omega
  | @getAppCounterRaises i =>
    exact absurd (by simp [AppState.set_phase]) (hinv.not_raised i .attributeError)
  | @createAppCounter i v hi hpos =>
    obtain ⟨hl, hp, hk⟩ := hcounts
    have hes := stops_append_other es (e := .createAppCounter i) rfl
    have hv := h.checked i v hi
    refine ⟨hinv, fun c hc => ?_, ?_, by omega⟩
    · cases hc
      omega
    · refine AppState.forall_checked rfl (by simp) fun j w _ hj => Or.inl ?_
      have := h.inv.checked j w hj
      omega
  | @removeAppCounter i v hi hv =>
    -- a callback that would stop the application has read at most one
    exfalso
    have hle := h.inv.checked i v hi
    have hlate := h.checked i v hi
    have hleft := left_pos (s := s) (i := i) (by simp [hi])
    have := checking_le_left s
    omega
  | @processStopApp i hi =>
    exfalso
    have : 0 < s.stopping := numIn_pos_iff.2 ⟨i, by simp [hi]⟩
    omega

/-- A run has no overlapping checks, or it is late. -/
theorem Run.exact_or_late [Nonempty ι] (hexit : ∀ i, 0 ≤ exit_code i)
    (h : Run (AppStep exit_code) (AppState.initial (Fintype.card ι)) es s) :
    (Run (fun s e s' => AppStep exit_code s e s' ∧ ChecksApart s e)
        (AppState.initial (Fintype.card ι)) es s ∧ Exact es s) ∨ Late es s := by
  induction h with
  | nil => exact .inl ⟨.nil, Exact.initial⟩
  | @snoc es e s s' hr hst ih =>
    rcases ih with ⟨hrun, hexact⟩ | hlate
    · by_cases hapart : ChecksApart s e
      · exact .inl ⟨hrun.snoc ⟨hst, hapart⟩, hexact.step hexit hst hapart⟩
      · exact .inr (.of_overlap hexact.inv (hexact.inv.step hexit hst) hst hapart)
    · exact .inr (hlate.step hexit hst)

/-- **When the application is stopped exactly once.** -/
theorem app_stopped_iff [Nonempty ι] (hexit : ∀ i, 0 ≤ exit_code i)
    (h : Run (AppStep exit_code) (AppState.initial (Fintype.card ι)) es s)
    (hended : ∀ i, (s.phase i).ended) :
    ((stops es = 1 ∧ StopsLast es) ↔
      Run (fun s e s' => AppStep exit_code s e s' ∧ ChecksApart s e)
        (AppState.initial (Fintype.card ι)) es s) ∧
    stops es ≤ 1 ∧ StopsLast es := by
  have hinv := Run.counterInv hexit h
  have hlast := stopsLast_of_run hexit h
  have honce := hinv.once
  have hleft : s.left = 0 := numIn_eq_zero_iff.2 fun i => by
    have := hended i
    cases hi : s.phase i <;> simp_all
  have hstopping : s.stopping = 0 := numIn_eq_zero_iff.2 fun i => by
    have := hended i
    cases hi : s.phase i <;> simp_all
  refine ⟨⟨fun hstops => ?_, fun hrun => ⟨?_, hlast⟩⟩, by omega, hlast⟩
  · rcases Run.exact_or_late hexit h with ⟨hrun, -⟩ | hlate
    · exact hrun
    · have := hlate.running
      omega
  · have hexact : Exact es s := by
      refine hrun.inv_hist (I := Exact) Exact.initial ?_
      intro es s e s' _ hI hst
      exact hI.step hexit hst.1 hst.2
    have := hexact.stopped hleft
    omega

end counter

/-- Two containers that report one after the other. -/
theorem app_stopped_iff_sequential : ∃ (es : List (AppEvent Bool)) (s : AppState Bool),
    Run (AppStep fun _ => 0) (AppState.initial 2) es s ∧ (∀ i, (s.phase i).ended) ∧
      stops es = 1 ∧ StopsLast es := by
  let step := fun s e s' => AppStep (fun _ : Bool => 0) s e s' ∧ ChecksApart s e
  obtain ⟨es, s, hrun, hended⟩ : ∃ es s, Run step (AppState.initial 2) es s ∧
      ∀ i, (s.phase i).ended := by
    have hstatus : exitStatus 0 = some "SUCCESS" := rfl
    have h₀ : Run step (.initial 2) [] (.initial 2) := .nil
    have h₁ := h₀.snoc ⟨AppStep.register (i := true) rfl hstatus, trivial⟩
    have h₂ := h₁.snoc ⟨AppStep.getAppCounter (i := true) rfl rfl, by
      rintro (_ | _) <;> exact Bool.false_ne_true⟩
    have h₃ := h₂.snoc ⟨AppStep.createAppCounter (i := true) rfl (by decide), trivial⟩
    have h₄ := h₃.snoc ⟨AppStep.register (i := false) rfl hstatus, trivial⟩
    have h₅ := h₄.snoc ⟨AppStep.getAppCounter (i := false) rfl rfl, by
      rintro (_ | _) <;> exact Bool.false_ne_true⟩
    have h₆ := h₅.snoc ⟨AppStep.removeAppCounter (i := false) rfl (by decide), trivial⟩
    have h₇ := h₆.snoc ⟨AppStep.processStopApp (i := false) rfl, trivial⟩
    exact ⟨_, _, h₇, fun i => by cases i <;> rfl⟩
  have h := hrun.mono fun _ _ _ hst => hst.1
  have hstopped := (app_stopped_iff (fun _ => le_rfl) h hended).1.2 hrun
  exact ⟨es, s, h, hended, hstopped⟩

/-- Two containers that both read the counter before either writes it: the
    application is never stopped. -/
theorem app_not_stopped : ¬ ∀ (ι : Type) [Fintype ι] [DecidableEq ι] [Nonempty ι]
    (exit_code : ι → ℤ) (es : List (AppEvent ι)) (s : AppState ι), (∀ i, 0 ≤ exit_code i) →
    Run (AppStep exit_code) (AppState.initial (Fintype.card ι)) es s → (∀ i, (s.phase i).ended) →
      stops es = 1 ∧ StopsLast es := by
  intro hall
  have hstatus : exitStatus 0 = some "SUCCESS" := rfl
  have h₀ : Run (AppStep fun _ : Bool => 0) (.initial 2) [] (.initial 2) := .nil
  have h₁ := h₀.snoc (AppStep.register (i := true) rfl hstatus)
  have h₂ := h₁.snoc (AppStep.register (i := false) rfl hstatus)
  have h₃ := h₂.snoc (AppStep.getAppCounter (i := true) rfl rfl)
  have h₄ := h₃.snoc (AppStep.getAppCounter (i := false) rfl rfl)
  have h₅ := h₄.snoc (AppStep.createAppCounter (i := true) rfl (by decide))
  have h₆ := h₅.snoc (AppStep.createAppCounter (i := false) rfl (by decide))
  obtain ⟨hstops, -⟩ := hall Bool (fun _ => 0) _ _ (fun _ => le_rfl) h₆ fun i => by
    cases i <;> rfl
  exact absurd hstops (by decide)

end ServerlessYarn
