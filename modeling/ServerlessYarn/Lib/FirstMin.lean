/-
  The first minimiser of a function on a set.

  A search that goes through the candidates in increasing order and only moves on
  to a strictly better one keeps the first minimiser of those it has seen.

  * `FirstMin.keep`, `FirstMin.take`: one more candidate;
  * `FirstMin.extend`: candidates that cannot improve on the best may be left out.
-/
import Mathlib.Order.Bounds.Basic

/-- `i` is the least element of `S` at which `f` is minimal on `S`. -/
def FirstMin {ι β : Type*} [LinearOrder ι] [LinearOrder β] (S : Set ι) (f : ι → β) (i : ι) : Prop :=
  IsLeast {i | i ∈ S ∧ ∀ j ∈ S, f i ≤ f j} i

namespace FirstMin

variable {ι β : Type*} [LinearOrder ι] [LinearOrder β] {S T : Set ι} {f : ι → β} {i n : ι}

theorem mem (h : FirstMin S f i) : i ∈ S := h.1.1

theorem le (h : FirstMin S f i) {j : ι} (hj : j ∈ S) : f i ≤ f j := h.1.2 j hj

theorem singleton (f : ι → β) (i : ι) : FirstMin {i} f i := by
  constructor
  · refine ⟨rfl, ?_⟩
    rintro j rfl
    exact le_rfl
  · rintro j ⟨rfl, -⟩
    exact le_rfl

/-- Only the values on the set count. -/
theorem congr {g : ι → β} (h : FirstMin S f i) (hfg : ∀ j ∈ S, f j = g j) : FirstMin S g i := by
  constructor
  · refine ⟨h.mem, fun j hj => ?_⟩
    rw [← hfg i h.mem, ← hfg j hj]
    exact h.le hj
  · rintro j ⟨hj, hmin⟩
    refine h.2 ⟨hj, fun k hk => ?_⟩
    rw [hfg j hj, hfg k hk]
    exact hmin k hk

/-- Later candidates that are no better change nothing. -/
theorem extend (h : FirstMin S f i) (hST : S ⊆ T) (hT : ∀ j ∈ T, j ∉ S → i ≤ j ∧ f i ≤ f j) :
    FirstMin T f i := by
  have hle : ∀ j ∈ T, f i ≤ f j := by
    intro j hj
    by_cases hjS : j ∈ S
    · exact h.le hjS
    · exact (hT j hj hjS).2
  constructor
  · exact ⟨hST h.mem, hle⟩
  · rintro j ⟨hj, hmin⟩
    by_cases hjS : j ∈ S
    · exact h.2 ⟨hjS, fun k hk => hmin k (hST hk)⟩
    · exact (hT j hj hjS).1

/-- **A candidate that is no better is passed over.** -/
theorem keep (h : FirstMin S f i) (hn : i ≤ n) (hle : f i ≤ f n) : FirstMin (insert n S) f i := by
  refine h.extend (Set.subset_insert n S) fun j hj hjS => ?_
  rcases Set.mem_insert_iff.1 hj with rfl | hj
  · exact ⟨hn, hle⟩
  · exact absurd hj hjS

/-- **A better candidate is taken.** -/
theorem take (h : FirstMin S f i) (hlt : f n < f i) : FirstMin (insert n S) f n := by
  have hless : ∀ j ∈ S, f n < f j := fun j hj => hlt.trans_le (h.le hj)
  constructor
  · refine ⟨Set.mem_insert n S, fun j hj => ?_⟩
    rcases Set.mem_insert_iff.1 hj with rfl | hj
    · exact le_rfl
    · exact (hless j hj).le
  · rintro j ⟨hj, hmin⟩
    rcases Set.mem_insert_iff.1 hj with rfl | hj
    · exact le_rfl
    · exact absurd (hmin n (Set.mem_insert n S)) (not_le.2 (hless j hj))

end FirstMin
