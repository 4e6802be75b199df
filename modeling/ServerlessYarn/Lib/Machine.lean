/-
  Machines that may fail.

  A machine computes its next state or fails.  It is safe from a state if it fails in none
  of the states that it reaches from there.

  * `safe_iff`: safety, unrolled by one step;
  * `safe_iff_forall`: it is safe iff every state it reaches meets the condition under which
    its own step does not fail.
-/
import Mathlib.Logic.Relation

namespace Machine

variable {ε σ : Type*} {next : σ → Except ε σ} {s s' : σ}

/-- The machine gets from the one state to the other. -/
abbrev Steps (next : σ → Except ε σ) : σ → σ → Prop :=
  Relation.ReflTransGen fun s s' => next s = .ok s'

/-- The machine fails in no state that it reaches. -/
def Safe (next : σ → Except ε σ) (s : σ) : Prop :=
  ∀ s', Steps next s s' → ∃ s'', next s' = .ok s''

/-- Safety, unrolled by one step. -/
theorem safe_iff : Safe next s ↔ ∃ s', next s = .ok s' ∧ Safe next s' := by
  constructor
  · intro h
    obtain ⟨s', hs'⟩ := h s .refl
    exact ⟨s', hs', fun t ht => h t (.head hs' ht)⟩
  · rintro ⟨s', hs', h⟩ t ht
    rcases Relation.ReflTransGen.cases_head ht with rfl | ⟨u, hu, ht⟩
    · exact ⟨s', hs'⟩
    · obtain rfl : s' = u := Except.ok.inj (hs'.symm.trans hu)
      exact h t ht

theorem safe_iff_of_ok (h : next s = .ok s') : Safe next s ↔ Safe next s' := by
  rw [safe_iff]
  constructor
  · rintro ⟨t, ht, hsafe⟩
    obtain rfl : s' = t := Except.ok.inj (h.symm.trans ht)
    exact hsafe
  · intro hsafe
    exact ⟨s', h, hsafe⟩

theorem not_safe_of_error {e : ε} (h : next s = .error e) : ¬ Safe next s := by
  intro hsafe
  obtain ⟨s', hs'⟩ := hsafe s .refl
  rw [h] at hs'
  cases hs'

/-- What every step preserves holds of every state reached. -/
theorem Steps.inv {I : σ → Prop} (hstep : ∀ s s', I s → next s = .ok s' → I s') (hI : I s)
    (h : Steps next s s') : I s' := by
  induction h with
  | refl => exact hI
  | tail _ hst ih => exact hstep _ _ ih hst

/-- **Safety, state by state**: under an invariant, the machine is safe iff every state it
    reaches meets the condition of its step. -/
theorem safe_iff_forall {I C : σ → Prop} (hstep : ∀ s s', I s → next s = .ok s' → I s')
    (hclear : ∀ s, I s → ((∃ s', next s = .ok s') ↔ C s)) (hI : I s) :
    Safe next s ↔ ∀ s', Steps next s s' → C s' :=
  forall₂_congr fun s' hs' => hclear s' (Steps.inv hstep hI hs')

end Machine
