/-
  The fewest chunks over all splits of a size into non-empty parts.

  * `max_le_chunks`: a lower bound that only depends on the size and the number of
    parts;
  * `exists_chunks_eq_max`: some split attains it;
  * `chunks_evenSplit_mul`: the room of the chunks of the even split, with the
    places that stay free;
  * `chunks_evenSplit_le_max`: when the even split is one with the fewest chunks.
-/
import ServerlessYarn.Lib.Chunks

namespace Chunks

variable {n k s : ℕ}

/-! ## The lower bound -/

theorem ceilDiv_mul_lt (hs : 0 < s) (x : ℕ) : s * (x ⌈/⌉ s) < x + s := by
  rw [Nat.ceilDiv_eq_add_pred_div]
  have := Nat.mul_div_le (x + s - 1) s
  omega

theorem ceilDiv_pos (hs : 0 < s) {x : ℕ} (hx : 1 ≤ x) : 1 ≤ x ⌈/⌉ s := by
  by_contra hlt
  have hzero : x ⌈/⌉ s = 0 := by omega
  have hle := le_ceilDiv_mul hs x
  rw [hzero] at hle
  omega

/-- The chunks have room for all. -/
theorem sum_le_mul_chunks (hs : 0 < s) (xs : List ℕ) : xs.sum ≤ s * chunks xs s := by
  induction xs with
  | nil => simp
  | cons x xs ih =>
    have hx := le_ceilDiv_mul hs x
    simp only [chunks, List.map_cons, List.sum_cons, Nat.mul_add] at ih ⊢
    omega

theorem length_le_chunks (hs : 0 < s) {xs : List ℕ} (hxs : ∀ x ∈ xs, 1 ≤ x) :
    xs.length ≤ chunks xs s := by
  induction xs with
  | nil => simp
  | cons x xs ih =>
    have hx := ceilDiv_pos hs (hxs x List.mem_cons_self)
    have hrest := ih fun y hy => hxs y (List.mem_cons_of_mem x hy)
    simp only [chunks, List.map_cons, List.sum_cons, List.length_cons] at hrest ⊢
    omega

/-- **A lower bound**: a chunk for every part, and room for all. -/
theorem max_le_chunks (hs : 0 < s) {xs : List ℕ} (hxs : ∀ x ∈ xs, 1 ≤ x) :
    max xs.length (xs.sum ⌈/⌉ s) ≤ chunks xs s :=
  max_le (length_le_chunks hs hxs) ((ceilDiv_le_iff_le_mul hs).2 (sum_le_mul_chunks hs xs))

/-! ## The bound is attained -/

/-- Parts of at most one chunk. -/
theorem chunks_eq_length (hs : 0 < s) {xs : List ℕ} (hxs : ∀ x ∈ xs, 1 ≤ x ∧ x ≤ s) :
    chunks xs s = xs.length := by
  induction xs with
  | nil => rfl
  | cons x xs ih =>
    obtain ⟨hone, hle⟩ := hxs x List.mem_cons_self
    have hx : x ⌈/⌉ s = 1 := by
      refine le_antisymm ?_ (ceilDiv_pos hs hone)
      rw [ceilDiv_le_iff_le_mul hs]
      omega
    have hrest := ih fun y hy => hxs y (List.mem_cons_of_mem x hy)
    simp only [chunks, List.map_cons, List.sum_cons, List.length_cons] at hrest ⊢
    omega

theorem mem_evenSplit {x : ℕ} (h : x ∈ evenSplit n k) :
    x = n / k ∨ (x = n / k + 1 ∧ 0 < n % k) := by
  rw [evenSplit, List.mem_append, List.mem_replicate, List.mem_replicate] at h
  omega

/-- When all parts fit in one chunk each, the even split takes one for each. -/
theorem chunks_evenSplit_of_le (hs : 0 < s) (hk : 0 < k) (hkn : k ≤ n) (h : n ≤ k * s) :
    chunks (evenSplit n k) s = k := by
  have hdiv := Nat.div_add_mod n k
  have hone : 1 ≤ n / k := (Nat.one_le_div_iff hk).2 hkn
  have hle : n / k ≤ s := Nat.div_le_of_le_mul h
  have hlt : 0 < n % k → n / k < s := by
    intro hr
    refine lt_of_le_of_ne hle ?_
    rintro heq
    rw [heq] at hdiv
    omega
  refine (chunks_eq_length hs ?_).trans (length_evenSplit n hk)
  intro x hx
  rcases mem_evenSplit hx with rfl | ⟨rfl, hr⟩
  · exact ⟨hone, hle⟩
  · exact ⟨by omega, hlt hr⟩

theorem ceilDiv_add_mul (hs : 0 < s) (x m : ℕ) : (x + m * s) ⌈/⌉ s = x ⌈/⌉ s + m := by
  rw [Nat.ceilDiv_eq_add_pred_div, Nat.ceilDiv_eq_add_pred_div, ← Nat.add_mul_div_right _ _ hs]
  congr 1
  omega

/-- **The bound is attained**: by the even split if every part fits in one chunk,
    else by full chunks and one large part. -/
theorem exists_chunks_eq_max (hs : 0 < s) (hk : 0 < k) (hkn : k ≤ n) :
    ∃ xs : List ℕ, xs.length = k ∧ xs.sum = n ∧ (∀ x ∈ xs, 1 ≤ x) ∧
      chunks xs s = max k (n ⌈/⌉ s) := by
  rcases le_or_gt n ((k - 1) * s) with hle | hgt
  · have hks : n ≤ k * s := hle.trans (Nat.mul_le_mul_right s (Nat.sub_le k 1))
    refine ⟨evenSplit n k, length_evenSplit n hk, sum_evenSplit n hk, ?_, ?_⟩
    · have hone : 1 ≤ n / k := (Nat.one_le_div_iff hk).2 hkn
      intro x hx
      rcases mem_evenSplit hx with rfl | ⟨rfl, -⟩
      · exact hone
      · omega
    · rw [chunks_evenSplit_of_le hs hk hkn hks, max_eq_left]
      rw [ceilDiv_le_iff_le_mul hs, Nat.mul_comm]
      exact hks
  · -- `k - 1` full chunks, and what is left over
    have hfull : n - (k - 1) * s + (k - 1) * s = n := by omega
    have hceil : n ⌈/⌉ s = (n - (k - 1) * s) ⌈/⌉ s + (k - 1) := by
      conv_lhs => rw [← hfull]
      exact ceilDiv_add_mul hs _ _
    have hpos := ceilDiv_pos hs (x := n - (k - 1) * s) (by omega)
    refine ⟨(n - (k - 1) * s) :: List.replicate (k - 1) s, ?_, ?_, ?_, ?_⟩
    · simp only [List.length_cons, List.length_replicate]
      omega
    · simp only [List.sum_cons, List.sum_replicate, smul_eq_mul]
      exact hfull
    · intro x hx
      rcases List.mem_cons.1 hx with rfl | hx
      · omega
      · rw [List.eq_of_mem_replicate hx]
        exact hs
    · have hself : s ⌈/⌉ s = 1 := by
        refine le_antisymm ?_ (ceilDiv_pos hs hs)
        rw [ceilDiv_le_iff_le_mul hs]
        omega
      have hrest : chunks (List.replicate (k - 1) s) s = k - 1 := by
        rw [chunks_replicate, hself, Nat.mul_one]
      have hsplit : chunks ((n - (k - 1) * s) :: List.replicate (k - 1) s) s =
          (n - (k - 1) * s) ⌈/⌉ s + chunks (List.replicate (k - 1) s) s := by
        simp [chunks]
      rw [hsplit, hrest, ← hceil, max_eq_right (by omega)]

/-! ## The even split -/

/-- The places that the chunks of the even split leave free: with `n / k` a multiple
    of `s`, all but one in the last chunk of every larger part. -/
def freePlaces (n k s : ℕ) : ℕ :=
  if n / k % s = 0 then n % k * (s - 1) else k * (s - n / k % s) - n % k

/-- **The room of the chunks** of the even split. -/
theorem chunks_evenSplit_mul (hs : 0 < s) (hk : 0 < k) :
    s * chunks (evenSplit n k) s = n + freePlaces n k s := by
  have hmod := Nat.mod_lt n hk
  have hdiv := Nat.div_add_mod n k
  have hqmod := Nat.mod_lt (n / k) hs
  have hqdiv := Nat.div_add_mod (n / k) s
  have hlarger : s * ((n / k + 1) ⌈/⌉ s) = n / k + (s - n / k % s) := by
    have hsplit : n / k + 1 = n / k % s + 1 + n / k / s * s := by
      rw [Nat.mul_comm (n / k / s) s]
      omega
    have hone : (n / k % s + 1) ⌈/⌉ s = 1 := by
      refine le_antisymm ?_ (ceilDiv_pos hs (by omega))
      rw [ceilDiv_le_iff_le_mul hs]
      omega
    rw [hsplit, ceilDiv_add_mul hs, hone, Nat.mul_add, Nat.mul_one]
    omega
  have hsmaller : s * ((n / k) ⌈/⌉ s) = n / k + if n / k % s = 0 then 0 else s - n / k % s := by
    rw [ceilDiv_eq_div_add _ hs, Nat.mul_add]
    split_ifs <;> omega
  obtain ⟨m, hm⟩ : ∃ m, k = n % k + m := ⟨k - n % k, by omega⟩
  have hsub : k - n % k = m := by omega
  have hcalc : s * chunks (evenSplit n k) s =
      m * (s * ((n / k) ⌈/⌉ s)) + n % k * (s * ((n / k + 1) ⌈/⌉ s)) := by
    rw [chunks_evenSplit, hsub]
    ring
  have hsum : m * (n / k) + n % k * (n / k) + n % k = n := by
    calc m * (n / k) + n % k * (n / k) + n % k = (n % k + m) * (n / k) + n % k := by ring
      _ = n := by rw [← hm, hdiv]
  rw [hcalc, hsmaller, hlarger, freePlaces]
  by_cases hzero : n / k % s = 0
  · rw [if_pos hzero, if_pos hzero, hzero, Nat.sub_zero, Nat.add_zero, Nat.mul_add]
    obtain ⟨t, rfl⟩ : ∃ t, s = t + 1 := ⟨s - 1, by omega⟩
    rw [Nat.mul_add, Nat.add_sub_cancel]
    omega
  · rw [if_neg hzero, if_neg hzero, Nat.mul_add, Nat.mul_add]
    have hfree : m * (s - n / k % s) + n % k * (s - n / k % s) = k * (s - n / k % s) := by
      calc m * (s - n / k % s) + n % k * (s - n / k % s) =
          (n % k + m) * (s - n / k % s) := by ring
        _ = k * (s - n / k % s) := by rw [← hm]
    have hbound : k ≤ k * (s - n / k % s) := Nat.le_mul_of_pos_right k (by omega)
    omega

/-- **The even split is one with the fewest chunks** if each part fits in one chunk
    or all the chunks together leave less than one free. -/
theorem chunks_evenSplit_le_max (hs : 0 < s) (hk : 0 < k) (hkn : k ≤ n) :
    chunks (evenSplit n k) s ≤ max k (n ⌈/⌉ s) ↔ n ≤ k * s ∨ freePlaces n k s < s := by
  have hroom := chunks_evenSplit_mul (n := n) hs hk
  have hceil := le_ceilDiv_mul hs n
  have hceil' := ceilDiv_mul_lt hs n
  rw [le_max_iff]
  constructor
  · rintro (hle | hle)
    · left
      have := Nat.mul_le_mul_left s hle
      rw [Nat.mul_comm k s]
      omega
    · right
      have := Nat.mul_le_mul_left s hle
      omega
  · rintro (hle | hlt)
    · exact Or.inl (chunks_evenSplit_of_le hs hk hkn hle).le
    · right
      by_contra hgt
      have := Nat.mul_le_mul_left s (show n ⌈/⌉ s + 1 ≤ chunks (evenSplit n k) s by omega)
      rw [Nat.mul_add, Nat.mul_one] at this
      omega

end Chunks
