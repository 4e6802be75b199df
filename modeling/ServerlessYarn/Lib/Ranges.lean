/-
  Consecutive ranges.

  `consecutive start lens` are the ranges of the given lengths, as start and
  length, each of which starts where the one before it ends.

  * `consecutive_pairwise`: their starts increase, if none of them is empty;
  * `flatMap_consecutive`: the slices of a list along them make up the list.
-/
import Mathlib.Algebra.BigOperators.Group.List.Basic
import Mathlib.Algebra.Order.Ring.Nat

/-- Consecutive ranges of the given lengths. -/
def consecutive : ℕ → List ℕ → List (ℕ × ℕ)
  | _, [] => []
  | start, len :: lens => (start, len) :: consecutive (start + len) lens

theorem le_of_mem_consecutive {lens : List ℕ} {start : ℕ} {range : ℕ × ℕ}
    (h : range ∈ consecutive start lens) : start ≤ range.1 := by
  induction lens generalizing start with
  | nil => cases h
  | cons len lens ih =>
    rcases List.mem_cons.1 h with rfl | h
    · exact Nat.le_refl start
    · exact Nat.le_trans (Nat.le_add_right start len) (ih h)

/-- The starts increase. -/
theorem consecutive_pairwise {lens : List ℕ} (hpos : ∀ len ∈ lens, 0 < len) (start : ℕ) :
    (consecutive start lens).Pairwise fun r r' => r.1 < r'.1 := by
  induction lens generalizing start with
  | nil => exact List.Pairwise.nil
  | cons len lens ih =>
    have hlen : 0 < len := hpos len List.mem_cons_self
    have hrest := ih (fun l hl => hpos l (List.mem_cons_of_mem _ hl)) (start + len)
    refine List.pairwise_cons.2 ⟨fun r hr => ?_, hrest⟩
    have hle := le_of_mem_consecutive hr
    show start < r.1
    omega

/-- The slices of a list along ranges that end where it does. -/
theorem flatMap_consecutive {α : Type*} (l : List α) {lens : List ℕ} {start : ℕ}
    (h : start + lens.sum = l.length) :
    ((consecutive start lens).flatMap fun r => (l.drop r.1).take r.2) = l.drop start := by
  induction lens generalizing start with
  | nil =>
    rw [List.sum_nil, add_zero] at h
    rw [h, List.drop_length]
    rfl
  | cons len lens ih =>
    rw [List.sum_cons, ← add_assoc] at h
    show (l.drop start).take len ++ (consecutive (start + len) lens).flatMap _ = _
    rw [ih h, ← List.drop_drop, List.take_append_drop]
