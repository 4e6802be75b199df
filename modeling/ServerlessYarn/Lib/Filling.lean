/-
  An amount filled into a row of bins, from the first bin on.

  Every bin takes what the bins before it left, up to its capacity.

  * `sum_filled`: the bins together take the amount, or all they can hold;
  * `filled_full`, `filled_last`, `filled_empty`: the bins before, at and after the
    one where the amount ends;
  * `sum_filled_le_iff`: several amounts, each filled into the empty row, fit together
    iff at most one is positive or all of them fit in the first bin with room.
-/
import Mathlib.Algebra.BigOperators.Group.Finset.Basic
import Mathlib.Algebra.Order.BigOperators.Group.Finset
import Mathlib.Algebra.Order.BigOperators.Group.List
import Mathlib.Tactic.Linarith
import Mathlib.Tactic.Ring

namespace Filling

open Finset

variable {α : Type*} [CommRing α] [LinearOrder α] {f : ℕ → α} {a : α}

/-- What bin `i` takes of the amount `a`. -/
def filled (f : ℕ → α) (a : α) (i : ℕ) : α := max 0 (min (f i) (a - ∑ j ∈ range i, f j))

/-! ## One amount -/

theorem filled_nonneg (f : ℕ → α) (a : α) (i : ℕ) : 0 ≤ filled f a i := le_max_left _ _

theorem filled_le {i : ℕ} (hf : 0 ≤ f i) : filled f a i ≤ f i := max_le hf (min_le_left _ _)

variable [IsStrictOrderedRing α]

/-- A bin before the end of the amount is full. -/
theorem filled_full {i : ℕ} (hf : 0 ≤ f i) (h : ∑ j ∈ range (i + 1), f j ≤ a) : filled f a i = f i := by
  rw [sum_range_succ] at h
  rw [filled, min_eq_left (by linarith), max_eq_right hf]

/-- The bin in which the amount ends. -/
theorem filled_last {i : ℕ} (hle : ∑ j ∈ range i, f j ≤ a) (h : a ≤ ∑ j ∈ range (i + 1), f j) :
    filled f a i = a - ∑ j ∈ range i, f j := by
  rw [sum_range_succ] at h
  rw [filled, min_eq_right (by linarith), max_eq_right (by linarith)]

/-- The bins after the end of the amount stay empty. -/
theorem filled_empty {i : ℕ} (h : a ≤ ∑ j ∈ range i, f j) : filled f a i = 0 := by
  rw [filled]
  exact max_eq_left ((min_le_right _ _).trans (by linarith))

/-- **The bins together** take the amount, or all they can hold. -/
theorem sum_filled (ha : 0 ≤ a) : ∀ {m : ℕ}, (∀ i < m, 0 ≤ f i) →
    ∑ i ∈ range m, filled f a i = min a (∑ i ∈ range m, f i) := by
  intro m
  induction m with
  | zero =>
    intro _
    rw [sum_range_zero, sum_range_zero, min_eq_right ha]
  | succ m ih =>
    intro hf
    have hm := hf m (Nat.lt_succ_self m)
    rw [sum_range_succ, ih fun i hi => hf i (Nat.lt_succ_of_lt hi)]
    rcases le_total a (∑ i ∈ range m, f i) with hle | hge
    · -- the amount ends before
      rw [filled_empty hle, min_eq_left hle, add_zero, sum_range_succ, min_eq_left (by linarith)]
    · rw [min_eq_right hge]
      rcases le_total a (∑ i ∈ range (m + 1), f i) with hle | hge'
      · rw [filled_last hge hle, min_eq_left hle]
        ring
      · rw [filled_full hm hge', min_eq_right hge', sum_range_succ]

theorem sum_range_mono (hf : ∀ i, 0 ≤ f i) {i k : ℕ} (h : i ≤ k) :
    ∑ j ∈ range i, f j ≤ ∑ j ∈ range k, f j :=
  sum_le_sum_of_subset_of_nonneg (range_mono h) fun j _ _ => hf j

omit [IsStrictOrderedRing α] in
/-- The first bin with room. -/
theorem filled_first (ha : 0 ≤ a) {k : ℕ} (hk : 0 ≤ f k) (h : ∀ i < k, f i = 0) :
    filled f a k = min (f k) a := by
  have hzero : ∑ j ∈ range k, f j = 0 := sum_eq_zero fun j hj => h j (mem_range.1 hj)
  rw [filled, hzero, sub_zero, max_eq_right (le_min hk ha)]

/-! ## Several amounts -/

/-- At most one of the amounts is positive. -/
def AtMostOne : List α → Prop
  | [] => True
  | a :: as => if 0 < a then ∀ b ∈ as, b = 0 else AtMostOne as

omit [IsStrictOrderedRing α] in
/-- With at most one positive amount the sum of what a function makes of them is one
    of its values, if it makes nothing of nothing. -/
theorem sum_map_of_atMostOne {g : α → α} (hg : g 0 = 0) {as : List α} (has : ∀ a ∈ as, 0 ≤ a)
    (h : AtMostOne as) : (as.map g).sum = 0 ∨ ∃ a ∈ as, (as.map g).sum = g a := by
  induction as with
  | nil => exact Or.inl rfl
  | cons a as ih =>
    rw [AtMostOne] at h
    rw [List.map_cons, List.sum_cons]
    split_ifs at h with hpos
    · have hzero : (as.map g).sum = 0 := by
        refine List.sum_eq_zero fun y hy => ?_
        obtain ⟨b, hb, rfl⟩ := List.mem_map.1 hy
        rw [h b hb, hg]
      exact Or.inr ⟨a, List.mem_cons_self, by rw [hzero, add_zero]⟩
    · obtain rfl : a = 0 := le_antisymm (not_lt.1 hpos) (has a List.mem_cons_self)
      rw [hg, zero_add]
      rcases ih (fun b hb => has b (List.mem_cons_of_mem _ hb)) h with hzero | ⟨b, hb, hsum⟩
      · exact Or.inl hzero
      · exact Or.inr ⟨b, List.mem_cons_of_mem _ hb, hsum⟩

theorem sum_min_nonneg {c : α} (hc : 0 ≤ c) {as : List α} (has : ∀ a ∈ as, 0 ≤ a) :
    0 ≤ (as.map (min c ·)).sum := by
  refine List.sum_nonneg fun y hy => ?_
  obtain ⟨b, hb, rfl⟩ := List.mem_map.1 hy
  exact le_min hc (has b hb)

/-- Amounts that fill less than a bin are not cut off by it. -/
theorem sum_le_of_sum_min_le {c d : α} (hd : d < c) : ∀ {as : List α}, (∀ a ∈ as, 0 ≤ a) →
    0 ≤ c → (as.map (min c ·)).sum ≤ d → as.sum ≤ d := by
  intro as has hc
  induction as generalizing d with
  | nil => exact id
  | cons a as ih =>
    intro hle
    have hrest := fun b hb => has b (List.mem_cons_of_mem a hb)
    have hnonneg := sum_min_nonneg hc hrest
    rw [List.map_cons, List.sum_cons] at hle
    have hlt : a < c := by
      by_contra hge
      rw [min_eq_left (not_lt.1 hge)] at hle
      linarith
    rw [min_eq_right hlt.le] at hle
    have ha := has a List.mem_cons_self
    have hsum := ih (d := d - a) (by linarith) hrest (by linarith)
    rw [List.sum_cons]
    linarith

/-- **Amounts in one bin**: together they fit only if one at most is positive or none
    is cut off. -/
theorem atMostOne_or_sum_le {c : α} (hc : 0 < c) : ∀ {as : List α}, (∀ a ∈ as, 0 ≤ a) →
    (as.map (min c ·)).sum ≤ c → AtMostOne as ∨ as.sum ≤ c := by
  intro as has hle
  induction as with
  | nil => exact Or.inl trivial
  | cons a as ih =>
    have hrest := fun b hb => has b (List.mem_cons_of_mem a hb)
    have hnonneg := sum_min_nonneg hc.le hrest
    rw [List.map_cons, List.sum_cons] at hle
    rw [AtMostOne, List.sum_cons]
    split_ifs with hpos
    · by_cases hzero : ∀ b ∈ as, b = 0
      · exact Or.inl hzero
      · -- a second positive amount: neither fills the bin
        right
        push Not at hzero
        obtain ⟨b, hb, hne⟩ := hzero
        have hbpos : 0 < min c b := lt_min hc (lt_of_le_of_ne (hrest b hb) hne.symm)
        have hbsum : min c b ≤ (as.map (min c ·)).sum :=
          List.single_le_sum (fun y hy => by
            obtain ⟨x, hx, rfl⟩ := List.mem_map.1 hy
            exact le_min hc.le (hrest x hx)) _ (List.mem_map_of_mem hb)
        have hlt : a < c := by
          by_contra hge
          rw [min_eq_left (not_lt.1 hge)] at hle
          linarith
        rw [min_eq_right hlt.le] at hle
        have hsum := sum_le_of_sum_min_le (d := c - a) (by linarith) hrest hc.le (by linarith)
        linarith
    · obtain rfl : a = 0 := le_antisymm (not_lt.1 hpos) (has a List.mem_cons_self)
      rw [min_eq_right hc.le, zero_add] at hle
      rw [zero_add]
      exact ih hrest hle

/-- **Several amounts, each filled into the empty row**, fit together iff at most one
    is positive or all of them fit in the first bin with room. -/
theorem sum_filled_le_iff {m : ℕ} (hf : ∀ i < m, 0 ≤ f i) {as : List α} (has : ∀ a ∈ as, 0 ≤ a)
    (htotal : ∀ a ∈ as, a ≤ ∑ i ∈ range m, f i) :
    (∀ i < m, (as.map fun a => filled f a i).sum ≤ f i) ↔
      AtMostOne as ∨ ∃ k < m, (∀ i < k, f i = 0) ∧ as.sum ≤ f k := by
  constructor
  · intro hfit
    by_cases hroom : ∃ k < m, 0 < f k
    · classical
      obtain ⟨hk, hpos⟩ := Nat.find_spec hroom
      have hfirst : ∀ i < Nat.find hroom, f i = 0 := by
        intro i hi
        have him := hi.trans hk
        by_contra hne
        exact Nat.find_min hroom hi ⟨him, lt_of_le_of_ne (hf i him) (Ne.symm hne)⟩
      have hmin : (as.map fun a => filled f a (Nat.find hroom)) = as.map (min (f (Nat.find hroom)) ·) :=
        List.map_congr_left fun a ha => filled_first (has a ha) hpos.le hfirst
      have hle := hfit _ hk
      rw [hmin] at hle
      rcases atMostOne_or_sum_le hpos has hle with hone | hsum
      · exact Or.inl hone
      · exact Or.inr ⟨_, hk, hfirst, hsum⟩
    · -- no room at all: nothing to fill in
      left
      push Not at hroom
      have hzero : ∑ i ∈ range m, f i ≤ 0 := sum_nonpos fun i hi => hroom i (mem_range.1 hi)
      have hall : ∀ a ∈ as, a = 0 := fun a ha =>
        le_antisymm ((htotal a ha).trans hzero) (has a ha)
      clear has htotal hfit
      induction as with
      | nil => trivial
      | cons a as ih =>
        rw [AtMostOne, if_neg (hall a List.mem_cons_self).le.not_gt]
        exact ih fun b hb => hall b (List.mem_cons_of_mem a hb)
  · rintro (hone | ⟨k, hk, hfirst, hsum⟩) i hi
    · have hzero : filled f 0 i = 0 := by
        rw [filled]
        refine max_eq_left ((min_le_right _ _).trans ?_)
        have := sum_nonneg fun j (hj : j ∈ range i) => hf j ((mem_range.1 hj).trans hi)
        linarith
      rcases sum_map_of_atMostOne (g := fun a => filled f a i) hzero has hone with h0 | ⟨a, -, h⟩
      · rw [h0]
        exact hf i hi
      · rw [h]
        exact filled_le (hf i hi)
    · rcases lt_trichotomy i k with hik | rfl | hki
      · rw [hfirst i hik]
        refine (List.sum_eq_zero fun y hy => ?_).le
        obtain ⟨a, -, rfl⟩ := List.mem_map.1 hy
        exact le_antisymm ((filled_le (hf i hi)).trans_eq (hfirst i hik)) (filled_nonneg f a i)
      · refine le_trans (List.sum_le_sum fun a ha => ?_) ((List.map_id as).symm ▸ hsum)
        rw [filled_first (has a ha) (hf i hi) hfirst]
        exact min_le_right _ _
      · -- bin `k` holds each of the amounts
        have hbefore : f k ≤ ∑ j ∈ range i, f j :=
          single_le_sum (fun j hj => hf j ((mem_range.1 hj).trans hi)) (mem_range.2 hki)
        have hzero : (as.map fun a => filled f a i).sum = 0 := by
          refine List.sum_eq_zero fun y hy => ?_
          obtain ⟨a, ha, rfl⟩ := List.mem_map.1 hy
          have hak : a ≤ f k := (List.single_le_sum has a ha).trans hsum
          exact filled_empty (hak.trans hbefore)
        rw [hzero]
        exact hf i hi

end Filling
