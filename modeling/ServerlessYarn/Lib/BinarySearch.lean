/-
  Binary search in a sorted list.

  `bsearch cmp l` looks for an element where `cmp`, the comparison of the key with
  the element, is zero, halving the range as the C library does.

  * `bsearch_eq_some_iff`: if the comparison decreases along the list, the search
    finds the element with comparison zero, if there is one;
  * `bsearch_sorted`: a list with distinct keys can be sorted and searched by key.
-/
import Mathlib.Algebra.Order.Ring.Int
import Mathlib.Data.List.Pairwise

/-- The search in the positions from `lo` on and before `hi`. -/
def bsearchFrom {α : Type*} (cmp : α → ℤ) (l : List α) (lo hi : ℕ) : Option α :=
  if lo < hi then
    match l[(lo + hi) / 2]? with
    | none => none
    | some x =>
      if cmp x < 0 then bsearchFrom cmp l lo ((lo + hi) / 2)
      else if 0 < cmp x then bsearchFrom cmp l ((lo + hi) / 2 + 1) hi
      else some x
  else none
termination_by hi - lo

/-- `bsearch` -/
def bsearch {α : Type*} (cmp : α → ℤ) (l : List α) : Option α :=
  bsearchFrom cmp l 0 l.length

section
variable {α : Type*} {cmp : α → ℤ} {l : List α}

/-- The comparison decreases along the list: its elements increase. -/
def Increasing (cmp : α → ℤ) (l : List α) : Prop :=
  l.Pairwise fun x y => cmp y < cmp x

theorem Increasing.lt {i j : ℕ} {x y : α} (h : Increasing cmp l) (hx : l[i]? = some x)
    (hy : l[j]? = some y) (hij : i < j) : cmp y < cmp x := by
  obtain ⟨hi, rfl⟩ := List.getElem?_eq_some_iff.1 hx
  obtain ⟨hj, rfl⟩ := List.getElem?_eq_some_iff.1 hy
  exact List.pairwise_iff_getElem.1 h i j hi hj hij

/-- What is left of the range holds every element with comparison zero. -/
theorem bsearchFrom_eq_some_iff (h : Increasing cmp l) {x : α} {lo hi : ℕ} (hhi : hi ≤ l.length) :
    bsearchFrom cmp l lo hi = some x ↔ ∃ i, lo ≤ i ∧ i < hi ∧ l[i]? = some x ∧ cmp x = 0 := by
  induction lo, hi using bsearchFrom.induct cmp l with
  | case1 lo hi hlt hmid =>
    have hle := List.getElem?_eq_none_iff.1 hmid
    omega
  | case2 lo hi hlt mid hmid hneg ih =>
    rw [bsearchFrom, if_pos hlt]
    simp only [hmid, if_pos hneg]
    rw [ih (by omega)]
    constructor
    · rintro ⟨i, hlo, hi', hx, hzero⟩
      exact ⟨i, hlo, by omega, hx, hzero⟩
    · rintro ⟨i, hlo, hi', hx, hzero⟩
      refine ⟨i, hlo, ?_, hx, hzero⟩
      by_contra hge
      rcases Nat.lt_or_eq_of_le (not_lt.1 hge) with hgt | heq
      · have := h.lt hmid hx hgt
        omega
      · rw [← heq, hmid] at hx
        cases hx
        omega
  | case3 lo hi hlt mid hmid hneg hpos ih =>
    rw [bsearchFrom, if_pos hlt]
    simp only [hmid, if_neg hneg, if_pos hpos]
    rw [ih hhi]
    constructor
    · rintro ⟨i, hlo, hi', hx, hzero⟩
      exact ⟨i, by omega, hi', hx, hzero⟩
    · rintro ⟨i, hlo, hi', hx, hzero⟩
      refine ⟨i, ?_, hi', hx, hzero⟩
      by_contra hlt'
      rcases Nat.lt_or_eq_of_le (Nat.lt_succ_iff.1 (not_le.1 hlt')) with hlt'' | heq
      · have := h.lt hx hmid hlt''
        omega
      · rw [heq, hmid] at hx
        cases hx
        omega
  | case4 lo hi hlt mid hmid hneg hpos =>
    have hmid0 : cmp mid = 0 := by omega
    rw [bsearchFrom, if_pos hlt]
    simp only [hmid, if_neg hneg, if_neg hpos]
    constructor
    · intro hx
      cases hx
      exact ⟨_, by omega, by omega, hmid, hmid0⟩
    · rintro ⟨i, hlo, hi', hx, hzero⟩
      rcases Nat.lt_trichotomy i ((lo + hi) / 2) with hlt' | heq | hgt
      · have := h.lt hx hmid hlt'
        omega
      · rw [heq, hmid] at hx
        exact hx
      · have := h.lt hmid hx hgt
        omega
  | case5 lo hi hge =>
    rw [bsearchFrom, if_neg hge]
    constructor
    · intro hx
      cases hx
    · rintro ⟨i, hlo, hi', -⟩
      omega

/-- **The search is complete on sorted lists.** -/
theorem bsearch_eq_some_iff (h : Increasing cmp l) {x : α} :
    bsearch cmp l = some x ↔ x ∈ l ∧ cmp x = 0 := by
  unfold bsearch
  rw [bsearchFrom_eq_some_iff h (Nat.le_refl _)]
  constructor
  · rintro ⟨i, -, -, hx, hzero⟩
    exact ⟨List.mem_of_getElem? hx, hzero⟩
  · rintro ⟨hx, hzero⟩
    obtain ⟨i, hi⟩ := List.mem_iff_getElem?.1 hx
    exact ⟨i, Nat.zero_le i, (List.getElem?_eq_some_iff.1 hi).1, hi, hzero⟩

/-! ## Sorting by a key -/

variable (key : α → ℕ)

/-- Sorted by distinct keys, the elements increase. -/
theorem increasing_mergeSort (h : (l.map key).Nodup) (n : ℕ) :
    Increasing (fun x => (n : ℤ) - key x) (l.mergeSort fun x y => key x ≤ key y) := by
  have htrans : ∀ x y z : α, decide (key x ≤ key y) = true → decide (key y ≤ key z) = true →
      decide (key x ≤ key z) = true := by
    intro x y z hxy hyz
    exact decide_eq_true (Nat.le_trans (of_decide_eq_true hxy) (of_decide_eq_true hyz))
  have htotal : ∀ x y : α, (decide (key x ≤ key y) || decide (key y ≤ key x)) = true := by
    intro x y
    rcases Nat.le_total (key x) (key y) with hle | hle
    · simp [hle]
    · simp [hle]
  have hsorted := List.pairwise_mergeSort htrans htotal l
  have hdistinct : (l.mergeSort fun x y => key x ≤ key y).Pairwise fun x y => key x ≠ key y :=
    List.pairwise_map.1 (((List.mergeSort_perm l _).map key).nodup_iff.2 h)
  refine (hsorted.and hdistinct).imp ?_
  rintro x y ⟨hle, hne⟩
  have hle' : key x ≤ key y := of_decide_eq_true hle
  show (n : ℤ) - key y < n - key x
  omega

/-- **A list with distinct keys can be sorted and searched.** -/
theorem bsearch_sorted (h : (l.map key).Nodup) {n : ℕ} {x : α} :
    bsearch (fun x => (n : ℤ) - key x) (l.mergeSort fun x y => key x ≤ key y) = some x ↔
      x ∈ l ∧ key x = n := by
  rw [bsearch_eq_some_iff (increasing_mergeSort key h n), List.mem_mergeSort]
  constructor
  · rintro ⟨hx, hzero⟩
    exact ⟨hx, by omega⟩
  · rintro ⟨hx, rfl⟩
    exact ⟨hx, Int.sub_self _⟩

end
