/-
  Counting the parties that are in a phase.

  A finite number of parties take steps, each in a phase of its own.

  * `numIn_update`: how a count moves when one party changes its phase;
  * `numIn_pos_iff`, `numIn_eq_zero_iff`, `two_le_numIn`: small counts.
-/
import Mathlib.Algebra.BigOperators.Group.Finset.Piecewise
import Mathlib.Data.Finset.Card
import Mathlib.Data.Fintype.Card

namespace Parties

variable {ι P : Type*} [Fintype ι]

/-- The number of parties in a phase of a kind. -/
def numIn (q : P → Bool) (phase : ι → P) : ℕ := ∑ i, if q (phase i) then 1 else 0

variable {q : P → Bool} {phase : ι → P} {i j : ι}

theorem numIn_eq_card : numIn q phase = (Finset.univ.filter fun i => q (phase i)).card := by
  rw [numIn, Finset.card_filter]

/-- One party changes its phase. -/
theorem numIn_update [DecidableEq ι] (p : P) :
    numIn q (Function.update phase i p) + (if q (phase i) then 1 else 0) =
      numIn q phase + if q p then 1 else 0 := by
  have hcomp : (fun j => if q (Function.update phase i p j) then 1 else 0) =
      Function.update (fun j => if q (phase j) then 1 else 0) i (if q p then 1 else 0) := by
    funext j
    by_cases hj : j = i
    · subst hj
      simp
    · simp [Function.update_of_ne hj]
  unfold numIn
  rw [hcomp, Finset.sum_update_of_mem (Finset.mem_univ i), Finset.sdiff_singleton_eq_erase,
    ← Finset.add_sum_erase _ (fun j => if q (phase j) then 1 else 0) (Finset.mem_univ i)]
  omega

theorem numIn_pos_iff : 0 < numIn q phase ↔ ∃ i, q (phase i) := by
  rw [numIn_eq_card, Finset.card_pos]
  constructor
  · rintro ⟨i, hi⟩
    exact ⟨i, (Finset.mem_filter.1 hi).2⟩
  · rintro ⟨i, hi⟩
    exact ⟨i, Finset.mem_filter.2 ⟨Finset.mem_univ i, hi⟩⟩

theorem numIn_eq_zero_iff : numIn q phase = 0 ↔ ∀ i, q (phase i) = false := by
  rw [← Nat.not_lt.trans Nat.le_zero, numIn_pos_iff]
  simp

/-- Two parties in such a phase. -/
theorem two_le_numIn (hi : q (phase i)) (hj : q (phase j)) (hij : i ≠ j) : 2 ≤ numIn q phase := by
  rw [numIn_eq_card]
  refine Finset.one_lt_card.2 ⟨i, ?_, j, ?_, hij⟩
  · exact Finset.mem_filter.2 ⟨Finset.mem_univ i, hi⟩
  · exact Finset.mem_filter.2 ⟨Finset.mem_univ j, hj⟩

theorem numIn_mono {q' : P → Bool} (h : ∀ p, q p → q' p) : numIn q phase ≤ numIn q' phase := by
  rw [numIn_eq_card, numIn_eq_card]
  exact Finset.card_le_card fun i hi =>
    Finset.mem_filter.2 ⟨Finset.mem_univ i, h _ (Finset.mem_filter.1 hi).2⟩

theorem numIn_all (h : ∀ i, q (phase i)) : numIn q phase = Fintype.card ι := by
  rw [numIn_eq_card, Finset.filter_true_of_mem fun i _ => h i, Finset.card_univ]

end Parties
