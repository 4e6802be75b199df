/-
  A loop over a stream that goes on until a step stops it.

  * `getElem?_run`: what the step at an index has given;
  * `run_stopped_iff`: what has stopped the loop;
  * `run_goes_on_iff`: when nothing has.
-/
import Mathlib.Data.List.Basic

namespace Until

variable {α β ε : Type*} {step : α → Except ε β} {l : List α}

/-- What the steps have given, and what has stopped them. -/
def run (step : α → Except ε β) : List α → List β × Option ε
  | [] => ([], none)
  | a :: l =>
    match step a with
    | .ok b => (b :: (run step l).1, (run step l).2)
    | .error e => ([], some e)

theorem run_cons_ok {a : α} {b : β} (h : step a = .ok b) :
    run step (a :: l) = (b :: (run step l).1, (run step l).2) := by
  rw [run, h]

theorem run_cons_error {a : α} {e : ε} (h : step a = .error e) : run step (a :: l) = ([], some e) := by
  rw [run, h]

/-- The steps before an index go on. -/
def GoesOn (step : α → Except ε β) (l : List α) (i : ℕ) : Prop :=
  ∀ a ∈ l.take i, ∃ b, step a = .ok b

theorem goesOn_cons {a : α} {i : ℕ} :
    GoesOn step (a :: l) (i + 1) ↔ (∃ b, step a = .ok b) ∧ GoesOn step l i := by
  simp [GoesOn]

/-- **What the step at an index has given.** -/
theorem getElem?_run {i : ℕ} {b : β} :
    (run step l).1[i]? = some b ↔ GoesOn step l i ∧ ∃ a, l[i]? = some a ∧ step a = .ok b := by
  induction l generalizing i with
  | nil => simp [run]
  | cons a l ih =>
    cases hstep : step a with
    | error e =>
      rw [run_cons_error hstep]
      cases i with
      | zero => simp [hstep]
      | succ i => simp [goesOn_cons, hstep]
    | ok b' =>
      rw [run_cons_ok hstep]
      cases i with
      | zero => simp [GoesOn, hstep]
      | succ i => simp [goesOn_cons, hstep, ih]

/-- **What has stopped the loop**: the first step that did not go on. -/
theorem run_stopped_iff {e : ε} :
    (run step l).2 = some e ↔ ∃ i a, GoesOn step l i ∧ l[i]? = some a ∧ step a = .error e := by
  induction l with
  | nil => simp [run]
  | cons a l ih =>
    cases hstep : step a with
    | error e' =>
      rw [run_cons_error hstep, Option.some.injEq]
      constructor
      · rintro rfl
        exact ⟨0, a, by simp [GoesOn], rfl, hstep⟩
      · rintro ⟨_ | i, a', hgoes, ha', hstep'⟩
        · obtain rfl := Option.some.inj ha'
          exact Except.error.inj (hstep.symm.trans hstep')
        · obtain ⟨b, hb⟩ := (goesOn_cons.1 hgoes).1
          rw [hstep] at hb
          cases hb
    | ok b =>
      rw [run_cons_ok hstep, ih]
      constructor
      · rintro ⟨i, a', hgoes, ha', hstep'⟩
        exact ⟨i + 1, a', goesOn_cons.2 ⟨⟨b, hstep⟩, hgoes⟩, ha', hstep'⟩
      · rintro ⟨_ | i, a', hgoes, ha', hstep'⟩
        · obtain rfl := Option.some.inj ha'
          rw [hstep] at hstep'
          cases hstep'
        · exact ⟨i, a', (goesOn_cons.1 hgoes).2, ha', hstep'⟩

theorem run_goes_on_iff : (run step l).2 = none ↔ ∀ a ∈ l, ∃ b, step a = .ok b := by
  induction l with
  | nil => simp [run]
  | cons a l ih =>
    cases hstep : step a with
    | error e => simp [run_cons_error hstep, hstep]
    | ok b => simp [run_cons_ok hstep, hstep, ih]

end Until
