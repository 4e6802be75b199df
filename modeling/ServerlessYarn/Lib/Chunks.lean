/-
  Lists of sizes cut into chunks.

  * `chunks xs s`: the chunks of at most `s` that items of the sizes `xs` are
    cut into, each item on its own;
  * `evenSplit n k`: the size `n` split as evenly as possible into `k` parts.

  * `sum_evenSplit`, `chunks_evenSplit`: the parts add up, and their chunks in
    closed form.
-/
import Mathlib.Algebra.BigOperators.Group.List.Basic
import Mathlib.Algebra.Order.Floor.Div
import Mathlib.Algebra.Order.BigOperators.Group.List
import Mathlib.Data.Rat.Floor
import Mathlib.GroupTheory.GroupAction.Ring

namespace Chunks

/-- The quotient rounded up, by whether there is a remainder. -/
theorem ceilDiv_eq_div_add (n : ℕ) {k : ℕ} (hk : 0 < k) :
    n ⌈/⌉ k = n / k + if n % k = 0 then 0 else 1 := by
  have hmod := Nat.mod_lt n hk
  have hdiv := Nat.div_add_mod n k
  have hsplit : n + k - 1 = n % k + k - 1 + k * (n / k) := by omega
  rw [Nat.ceilDiv_eq_add_pred_div, hsplit, Nat.add_mul_div_left _ _ hk, Nat.add_comm]
  congr 1
  split_ifs with h
  · exact Nat.div_eq_of_lt (by omega)
  · have hone : n % k + k - 1 = n % k - 1 + k := by omega
    rw [hone, Nat.add_div_right _ hk, Nat.div_eq_of_lt (by omega)]

/-- The number of chunks of at most `s`. -/
def chunks (xs : List ℕ) (s : ℕ) : ℕ := (xs.map (· ⌈/⌉ s)).sum

theorem chunks_append (xs ys : List ℕ) (s : ℕ) : chunks (xs ++ ys) s = chunks xs s + chunks ys s := by
  simp [chunks]

theorem chunks_replicate (k x s : ℕ) : chunks (List.replicate k x) s = k * (x ⌈/⌉ s) := by
  simp [chunks]

theorem chunks_one (xs : List ℕ) : chunks xs 1 = xs.sum := by
  simp [chunks]

theorem le_ceilDiv_mul {s : ℕ} (hs : 0 < s) (x : ℕ) : x ≤ s * (x ⌈/⌉ s) :=
  (ceilDiv_le_iff_le_mul hs).1 le_rfl

/-- `n` units in `k` parts that differ by at most one. -/
def evenSplit (n k : ℕ) : List ℕ :=
  List.replicate (k - n % k) (n / k) ++ List.replicate (n % k) (n / k + 1)

theorem length_evenSplit (n : ℕ) {k : ℕ} (hk : 0 < k) : (evenSplit n k).length = k := by
  have := Nat.mod_lt n hk
  simp only [evenSplit, List.length_append, List.length_replicate]
  omega

/-- The parts add up. -/
theorem sum_evenSplit (n : ℕ) {k : ℕ} (hk : 0 < k) : (evenSplit n k).sum = n := by
  have hmod := Nat.mod_lt n hk
  have hdiv := Nat.div_add_mod n k
  simp only [evenSplit, List.sum_append, List.sum_replicate, smul_eq_mul]
  obtain ⟨m, hm⟩ : ∃ m, k = n % k + m := ⟨k - n % k, by omega⟩
  have hsub : k - n % k = m := by omega
  rw [hsub]
  calc m * (n / k) + n % k * (n / k + 1) = (n % k + m) * (n / k) + n % k := by ring
    _ = k * (n / k) + n % k := by rw [← hm]
    _ = n := hdiv

theorem chunks_evenSplit (n k s : ℕ) : chunks (evenSplit n k) s =
    (k - n % k) * ((n / k) ⌈/⌉ s) + n % k * ((n / k + 1) ⌈/⌉ s) := by
  rw [evenSplit, chunks_append, chunks_replicate, chunks_replicate]

end Chunks
