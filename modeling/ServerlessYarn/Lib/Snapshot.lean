/-
  Clients that update a shared value through snapshots.

  Every client loads the shared value, and later saves its own update of what
  it has loaded; an update may fail, and then nothing is saved.  Some clients
  do so under one lock.

  * `Run.exclusive`: clients under the lock never overlap each other;
  * `Run.serial`: if no client saves between the load and the save of another
    one, the lock aside, every state reached is that of a serial execution of
    the clients that are done.
-/
import Mathlib.Data.List.Nodup
import Mathlib.Logic.Function.Basic
import ServerlessYarn.Lib.Run

namespace Snapshot

/-- Where a client is. -/
inductive Phase (σ : Type*) where
  | idle
  | loaded (snapshot : σ)
  | done

/-- The shared value, the holder of the lock and the clients. -/
structure State (ι σ : Type*) where
  shared : σ
  holder : Option ι
  phase : ι → Phase σ

/-- Nothing has happened yet. -/
def State.initial {ι σ : Type*} (x : σ) : State ι σ := ⟨x, none, fun _ => .idle⟩

inductive Event (ι : Type*) where
  | acquire (c : ι)
  | load (c : ι)
  | save (c : ι)
  | release (c : ι)

section set
variable {ι σ : Type*} [DecidableEq ι] (s : State ι σ)

/-- Move a client. -/
def State.set (c : ι) (p : Phase σ) : State ι σ := { s with phase := Function.update s.phase c p }

@[simp] theorem State.set_shared (c : ι) (p : Phase σ) : (s.set c p).shared = s.shared := rfl

@[simp] theorem State.set_holder (c : ι) (p : Phase σ) : (s.set c p).holder = s.holder := rfl

@[simp] theorem State.set_phase_self (c : ι) (p : Phase σ) : (s.set c p).phase c = p :=
  Function.update_self ..

theorem State.set_phase_of_ne {c c' : ι} (p : Phase σ) (h : c' ≠ c) :
    (s.set c p).phase c' = s.phase c' :=
  Function.update_of_ne h ..

end set

variable {ι σ : Type*} [DecidableEq ι] (locks : ι → Prop) (update : ι → σ → Option σ)

/-- The shared value after a client has run alone. -/
def change (c : ι) (x : σ) : σ := (update c x).getD x

/-- One step of one client. -/
inductive Step (s : State ι σ) : Event ι → State ι σ → Prop
  | acquire {c} (hc : locks c) (hidle : s.phase c = .idle) (hfree : s.holder = none) :
      Step s (.acquire c) { s with holder := some c }
  | load {c} (hidle : s.phase c = .idle) (hlock : locks c → s.holder = some c) :
      Step s (.load c) (s.set c (.loaded s.shared))
  | save {c x} (hloaded : s.phase c = .loaded x) :
      Step s (.save c) ({ s with shared := (update c x).getD s.shared }.set c .done)
  | release {c} (hdone : s.phase c = .done) (hheld : s.holder = some c) :
      Step s (.release c) { s with holder := none }

/-- The client has loaded the value and not yet saved it. -/
def Busy (s : State ι σ) (c : ι) : Prop := ∃ x, s.phase c = .loaded x

/-- A client that changes the value saves it while no other client is busy, except
    that clients under the lock need not care about each other. -/
def Isolated (s : State ι σ) : Event ι → Prop
  | .save c => ∀ x, s.phase c = .loaded x → (update c x).isSome →
      ∀ c', c' ≠ c → Busy s c' → locks c ∧ locks c'
  | _ => True

/-- The state is that of a serial execution of the clients that are done. -/
def Serial (x : σ) (s : State ι σ) : Prop :=
  ∃ order : List ι, order.Nodup ∧ (∀ c, c ∈ order ↔ s.phase c = .done) ∧
    s.shared = order.foldl (fun x c => change update c x) x

variable {locks update} {x : σ} {s s' : State ι σ} {e : Event ι} {es : List (Event ι)}

theorem Busy.of_set {c c' : ι} {p : Phase σ} (h : Busy (s.set c p) c') (hne : c' ≠ c) :
    Busy s c' := by
  obtain ⟨y, hy⟩ := h
  rw [s.set_phase_of_ne p hne] at hy
  exact ⟨y, hy⟩

theorem Busy.of_done {c c' : ι} (h : Busy (s.set c .done) c') : c' ≠ c ∧ Busy s c' := by
  have hne : c' ≠ c := by
    rintro rfl
    obtain ⟨y, hy⟩ := h
    simp at hy
  exact ⟨hne, h.of_set hne⟩

/-! ## The lock -/

/-- A busy client under the lock holds it. -/
def Exclusive (locks : ι → Prop) (s : State ι σ) : Prop :=
  ∀ c, locks c → Busy s c → s.holder = some c

theorem Exclusive.step (h : Exclusive locks s) (hst : Step locks update s e s') :
    Exclusive locks s' := by
  intro c hc hbusy
  cases hst with
  | acquire _ _ hfree =>
    -- no client under the lock is busy while it is free
    exact absurd ((h c hc hbusy).symm.trans hfree) (by simp)
  | @load d hidle hlock =>
    by_cases hcd : c = d
    · subst hcd
      exact hlock hc
    · exact h c hc (hbusy.of_set hcd)
  | save _ => exact h c hc (Busy.of_done (s := { s with shared := _ }) hbusy).2
  | @release d hdone hheld =>
    obtain ⟨y, hy⟩ := hbusy
    have hcd : d = c := Option.some.inj (hheld.symm.trans (h c hc ⟨y, hy⟩))
    rw [hcd] at hdone
    exact absurd (hdone.symm.trans hy) (by simp)

omit [DecidableEq ι] in
theorem Exclusive.initial : Exclusive locks (State.initial x) := by
  rintro c - ⟨y, hy⟩
  cases hy

omit [DecidableEq ι] in
theorem Exclusive.unique (h : Exclusive locks s) {c c' : ι} (hc : locks c) (hc' : locks c')
    (hbusy : Busy s c) (hbusy' : Busy s c') : c' = c :=
  Option.some.inj ((h c' hc' hbusy').symm.trans (h c hc hbusy))

/-- **Clients under the lock never overlap.** -/
theorem Run.exclusive (h : Run (Step locks update) (.initial x) es s) {c c' : ι} (hc : locks c)
    (hc' : locks c') (hbusy : Busy s c) (hbusy' : Busy s c') : c' = c := by
  have hexcl : Exclusive locks s := h.inv (fun _ _ _ hI hst => hI.step hst) Exclusive.initial
  exact hexcl.unique hc hc' hbusy hbusy'

/-! ## Serial executions -/

/-- The invariant of an isolated run: besides being serial, what a client has
    loaded is still the shared value. -/
structure Fresh (locks : ι → Prop) (update : ι → σ → Option σ) (x : σ) (s : State ι σ) : Prop where
  serial : Serial update x s
  exclusive : Exclusive locks s
  current : ∀ c y, s.phase c = .loaded y → y = s.shared

omit [DecidableEq ι] in
theorem Fresh.initial : Fresh locks update x (State.initial x) := by
  refine ⟨⟨[], List.nodup_nil, ?_, rfl⟩, Exclusive.initial, ?_⟩
  · intro c
    simp [State.initial]
  · intro c y hy
    cases hy

omit [DecidableEq ι] in
/-- In an isolated run nobody else is busy when a client changes the value. -/
theorem Fresh.alone (h : Fresh locks update x s) {c : ι} {y : σ} (hloaded : s.phase c = .loaded y)
    (hsome : (update c y).isSome) (hiso : Isolated locks update s (.save c)) {c' : ι}
    (hne : c' ≠ c) : ¬ Busy s c' := by
  intro hbusy
  obtain ⟨hc, hc'⟩ := hiso y hloaded hsome c' hne hbusy
  exact hne (h.exclusive.unique hc hc' ⟨y, hloaded⟩ hbusy)

/-- A save appends the client to the serial execution. -/
theorem Serial.save (h : Serial update x s) {c : ι} (hloaded : s.phase c = .loaded s.shared) :
    Serial update x ({ s with shared := (update c s.shared).getD s.shared }.set c .done) := by
  obtain ⟨order, hnodup, hdone, hshared⟩ := h
  have hnot : c ∉ order := by
    rw [hdone, hloaded]
    simp
  refine ⟨order ++ [c], ?_, fun c' => ?_, ?_⟩
  · exact hnodup.append (List.nodup_singleton c) (by simpa using hnot)
  · by_cases hne : c' = c
    · simp [hne]
    · rw [State.set_phase_of_ne _ _ hne]
      simp [hdone, hne]
  · rw [List.foldl_append, ← hshared]
    rfl

theorem Fresh.step (h : Fresh locks update x s) (hst : Step locks update s e s')
    (hiso : Isolated locks update s e) : Fresh locks update x s' := by
  have hexcl := h.exclusive.step hst
  cases hst with
  | acquire => exact ⟨h.serial, hexcl, h.current⟩
  | release => exact ⟨h.serial, hexcl, h.current⟩
  | @load c hidle hlock =>
    obtain ⟨order, hnodup, hdone, hshared⟩ := h.serial
    refine ⟨⟨order, hnodup, fun c' => ?_, hshared⟩, hexcl, fun c' y hy => ?_⟩
    · by_cases hne : c' = c
      · subst hne
        simp [hdone, hidle]
      · rw [hdone, s.set_phase_of_ne _ hne]
    · by_cases hne : c' = c
      · subst hne
        simpa using hy.symm
      · rw [s.set_phase_of_ne _ hne] at hy
        exact h.current c' y hy
  | @save c y hloaded =>
    obtain rfl := h.current c y hloaded
    refine ⟨h.serial.save hloaded, hexcl, fun c' y hy => ?_⟩
    obtain ⟨hne, hbusy⟩ := Busy.of_done (s := { s with shared := _ }) ⟨y, hy⟩
    rw [State.set_phase_of_ne _ _ hne] at hy
    rcases hsome : update c s.shared with _ | z
    · -- nothing is saved
      exact h.current c' y hy
    · exact absurd hbusy (h.alone hloaded (by simp [hsome]) hiso hne)

/-- **Isolated runs are serial.** -/
theorem Run.serial
    (h : Run (fun s e s' => Step locks update s e s' ∧ Isolated locks update s e) (.initial x) es s) :
    Serial update x s := by
  have hfresh : Fresh locks update x s :=
    h.inv (fun _ _ _ hI hst => hI.step hst.1 hst.2) Fresh.initial
  exact hfresh.serial

end Snapshot
