/-
  A search for a minimum whose "no value yet" is one of the values.

  The scan keeps the best candidate and its value, and starts with a marker for "none
  yet".  A candidate whose own value is the marker is therefore replaced by whatever
  comes next: the scan settles on the first candidate that nothing after it replaces.

  * `scan_eq_settled`: the scan, from the start;
  * `settled_mem`, `isSome_settled`: where it settles;
  * `settled_le`: without the marker among the values it settles on a minimum.
-/
import Mathlib.Order.Lattice

namespace Sentinel

variable {α β : Type*} [LinearOrder β] {m : β} {f : α → β}

/-- The scan, with the best candidate and its value. -/
def scan (m : β) (f : α → β) : List α → Option α → β → Option α
  | [], best, _ => best
  | a :: l, best, current =>
    if current = m ∨ f a < current then scan m f l (some a) (f a) else scan m f l best current

/-- The first candidate that nothing after it replaces: the last one, or one whose value
    is not the marker and no larger than those after it. -/
def settled (m : β) (f : α → β) : List α → Option α
  | [] => none
  | a :: l => if l = [] ∨ (f a ≠ m ∧ ∀ b ∈ l, f a ≤ f b) then some a else settled m f l

theorem scan_some {b : α} : ∀ (l : List α), scan m f l (some b) (f b) = settled m f (b :: l) := by
  intro l
  induction l generalizing b with
  | nil => exact (if_pos (Or.inl rfl)).symm
  | cons a l ih =>
    rw [scan, settled]
    by_cases hreplace : f b = m ∨ f a < f b
    · -- replaced: nothing keeps `b`
      rw [if_pos hreplace, ih, if_neg]
      rintro (hnil | ⟨hne, hle⟩)
      · cases hnil
      · rcases hreplace with heq | hlt
        · exact hne heq
        · exact absurd (hle a List.mem_cons_self) (not_le.2 hlt)
    · rw [if_neg hreplace, ih]
      obtain ⟨hne, hge⟩ := not_or.1 hreplace
      have hba : f b ≤ f a := not_lt.1 hge
      rw [settled]
      by_cases hle : ∀ c ∈ l, f b ≤ f c
      · rw [if_pos (Or.inr ⟨hne, hle⟩), if_pos]
        refine Or.inr ⟨hne, fun c hc => ?_⟩
        rcases List.mem_cons.1 hc with rfl | hc
        · exact hba
        · exact hle c hc
      · -- a later candidate replaces both
        have hnil : l ≠ [] := by
          rintro rfl
          exact hle fun c hc => absurd hc List.not_mem_nil
        have hless : ∃ c ∈ l, f c < f b := by
          by_contra hnone
          exact hle fun c hc => not_lt.1 fun hlt => hnone ⟨c, hc, hlt⟩
        obtain ⟨c, hc, hlt⟩ := hless
        rw [if_neg, if_neg, settled, if_neg]
        · rintro (h | ⟨-, h⟩)
          · exact hnil h
          · exact absurd (h c hc) (not_le.2 (hlt.trans_le hba))
        · rintro (h | ⟨-, h⟩)
          · cases h
          · exact absurd (h c (List.mem_cons_of_mem a hc)) (not_le.2 hlt)
        · rintro (h | ⟨-, h⟩)
          · exact hnil h
          · exact hle h

/-- **The scan, from the start**, settles on a candidate if there is one. -/
theorem scan_eq_settled (l : List α) : scan m f l none m = settled m f l := by
  cases l with
  | nil => rfl
  | cons a l => rw [scan, if_pos (Or.inl rfl), scan_some]

theorem settled_mem {a : α} : ∀ {l : List α}, settled m f l = some a → a ∈ l := by
  intro l
  induction l with
  | nil => intro h; cases h
  | cons b l ih =>
    intro h
    rw [settled] at h
    split_ifs at h
    · rw [Option.some.inj h]
      exact List.mem_cons_self
    · exact List.mem_cons_of_mem b (ih h)

theorem isSome_settled {l : List α} (h : l ≠ []) : (settled m f l).isSome := by
  induction l with
  | nil => exact absurd rfl h
  | cons b l ih =>
    rw [settled]
    split_ifs with hkeep
    · rfl
    · exact ih fun hnil => hkeep (Or.inl hnil)

/-- **Without the marker among the values** the scan settles on a minimum. -/
theorem settled_le {a : α} : ∀ {l : List α}, (∀ b ∈ l, f b ≠ m) → settled m f l = some a →
    ∀ b ∈ l, f a ≤ f b := by
  intro l
  induction l with
  | nil => intro _ h; cases h
  | cons b l ih =>
    intro hm h c hc
    have hrest := fun x hx => hm x (List.mem_cons_of_mem b hx)
    rw [settled] at h
    split_ifs at h with hkeep
    · obtain rfl := Option.some.inj h
      rcases List.mem_cons.1 hc with rfl | hc
      · exact le_rfl
      · rcases hkeep with rfl | ⟨-, hle⟩
        · exact absurd hc List.not_mem_nil
        · exact hle c hc
    · have hmin := ih hrest h
      rcases List.mem_cons.1 hc with rfl | hc
      · obtain ⟨-, hnot⟩ := not_or.1 hkeep
        by_contra hlt
        refine hnot ⟨hm c List.mem_cons_self, fun x hx => ?_⟩
        exact (not_le.1 hlt).le.trans (hmin x hx)
      · exact hmin c hc

end Sentinel
