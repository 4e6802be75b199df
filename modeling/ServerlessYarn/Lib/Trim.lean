/-
  Lists without what stands at their two ends.

  * `trim_eq_self_iff`: nothing is taken from a list whose ends stay;
  * `trim_cons`, `trim_concat`: the elements at the ends are dropped one by one;
  * `trim_append_cons`: an element that stays parts the list;
  * `count_trim`: what is not dropped is there as often as before.
-/
import Mathlib.Data.List.DropRight
import Mathlib.Data.List.TakeWhile

namespace Trim

variable {α : Type*} {p : α → Bool}

/-- Drop from both ends what satisfies `p`. -/
def trim (p : α → Bool) (s : List α) : List α :=
  ((s.dropWhile p).reverse.dropWhile p).reverse

theorem trim_sublist (p : α → Bool) (s : List α) : (trim p s).Sublist s := by
  unfold trim
  have hright := (List.dropWhile_sublist (l := (s.dropWhile p).reverse) p).reverse
  rw [List.reverse_reverse] at hright
  exact hright.trans (List.dropWhile_sublist p)

theorem dropWhile_eq_self {s : List α} : s.dropWhile p = s ↔ ∀ a ∈ s.head?, p a = false := by
  cases s with
  | nil => simp
  | cons a s =>
    by_cases ha : p a = true
    · have hne : s.dropWhile p ≠ a :: s := by
        intro h
        have hle := (List.dropWhile_sublist (l := s) p).length_le
        rw [h, List.length_cons] at hle
        omega
      simp [ha, hne]
    · simp [ha]

/-- Nothing is dropped if both ends stay. -/
theorem trim_eq_self_iff {s : List α} :
    trim p s = s ↔ (∀ a ∈ s.head?, p a = false) ∧ ∀ a ∈ s.getLast?, p a = false := by
  constructor
  · intro h
    have hleft : s.dropWhile p = s := by
      refine (List.dropWhile_sublist p).eq_of_length_le ?_
      have hright := (List.dropWhile_sublist (l := (s.dropWhile p).reverse) p).reverse
      rw [List.reverse_reverse] at hright
      calc s.length = (trim p s).length := by rw [h]
        _ ≤ (s.dropWhile p).length := hright.length_le
    unfold trim at h
    rw [hleft] at h
    refine ⟨dropWhile_eq_self.1 hleft, ?_⟩
    have hrev := congrArg List.reverse h
    rw [List.reverse_reverse] at hrev
    rw [← List.head?_reverse]
    exact dropWhile_eq_self.1 hrev
  · rintro ⟨hfirst, hlast⟩
    unfold trim
    rw [dropWhile_eq_self.2 hfirst, dropWhile_eq_self.2 (by rwa [List.head?_reverse]),
      List.reverse_reverse]

theorem trim_cons {a : α} (ha : p a = true) (s : List α) : trim p (a :: s) = trim p s := by
  unfold trim
  rw [List.dropWhile_cons_of_pos ha]

theorem trim_concat {a : α} (ha : p a = true) (s : List α) (hs : ∃ b ∈ s, p b = false) :
    trim p (s ++ [a]) = trim p s := by
  unfold trim
  have hdrop : (s ++ [a]).dropWhile p = s.dropWhile p ++ [a] := by
    rw [List.dropWhile_append, if_neg]
    obtain ⟨b, hb, hpb⟩ := hs
    rw [List.isEmpty_iff, List.dropWhile_eq_nil_iff]
    intro hall
    rw [hall b hb] at hpb
    cases hpb
  rw [hdrop, List.reverse_append, List.reverse_singleton, List.singleton_append,
    List.dropWhile_cons_of_pos ha]

/-! ## Around an element that stays -/

theorem dropWhile_append_cons {b : α} (hb : p b = false) (s t : List α) :
    (s ++ b :: t).dropWhile p = s.dropWhile p ++ b :: t := by
  induction s with
  | nil => simp [hb]
  | cons a s ih =>
    by_cases ha : p a = true
    · rw [List.cons_append, List.dropWhile_cons_of_pos ha, List.dropWhile_cons_of_pos ha, ih]
    · rw [List.cons_append, List.dropWhile_cons_of_neg ha, List.dropWhile_cons_of_neg ha,
        List.cons_append]

theorem rdropWhile_append_cons {b : α} (hb : p b = false) (s t : List α) :
    (s ++ b :: t).rdropWhile p = s ++ b :: t.rdropWhile p := by
  unfold List.rdropWhile
  have hreverse : (s ++ b :: t).reverse = t.reverse ++ b :: s.reverse := by simp
  rw [hreverse, dropWhile_append_cons hb]
  simp

theorem rdropWhile_eq_self {s : List α} :
    s.rdropWhile p = s ↔ ∀ a ∈ s.getLast?, p a = false := by
  rw [← List.head?_reverse, ← dropWhile_eq_self]
  unfold List.rdropWhile
  constructor
  · intro h
    have hreverse := congrArg List.reverse h
    rwa [List.reverse_reverse] at hreverse
  · intro h
    rw [h, List.reverse_reverse]

theorem trim_append_cons {b : α} (hb : p b = false) (s t : List α) :
    trim p (s ++ b :: t) = s.dropWhile p ++ b :: t.rdropWhile p := by
  have htrim : trim p (s ++ b :: t) = ((s ++ b :: t).dropWhile p).rdropWhile p := rfl
  rw [htrim, dropWhile_append_cons hb, rdropWhile_append_cons hb]

variable [DecidableEq α]

theorem count_dropWhile {a : α} (ha : p a = false) (s : List α) :
    (s.dropWhile p).count a = s.count a := by
  induction s with
  | nil => rfl
  | cons b s ih =>
    by_cases hb : p b = true
    · have hne : b ≠ a := by
        rintro rfl
        rw [ha] at hb
        cases hb
      rw [List.dropWhile_cons_of_pos hb, ih, List.count_cons_of_ne hne]
    · rw [List.dropWhile_cons_of_neg hb]

/-- What is not dropped is there as often as before. -/
theorem count_trim {a : α} (ha : p a = false) (s : List α) : (trim p s).count a = s.count a := by
  unfold trim
  rw [List.count_reverse, count_dropWhile ha, List.count_reverse, count_dropWhile ha]

end Trim
