/-
  The first place where a list stands in another one.

  * `position_eq_some_iff`: it stands there, and nowhere before;
  * `position_append`: what comes after it does not count;
  * `position_eq_none_of_lt`: it is not found before all of it is there;
  * `position_block`, `position_line`: what does not contain its first element is passed over;
  * `exists_position_lt_iff`: it is found before a bound iff it stands somewhere before it;
  * `infix_separated`: what does not contain the separator stands on one side of it.
-/
import Mathlib.Data.List.Basic
import Mathlib.Data.List.Infix
import Mathlib.Data.Nat.Find

namespace Search

variable {α : Type*} {needle s t : List α} {i : ℕ}

theorem prefix_drop_append (h : i + needle.length ≤ s.length) :
    needle <+: (s ++ t).drop i ↔ needle <+: s.drop i := by
  rw [List.drop_append_of_le_length (by omega)]
  constructor
  · intro hprefix
    refine List.prefix_of_prefix_length_le hprefix (List.prefix_append _ _) ?_
    rw [List.length_drop]
    omega
  · exact List.prefix_append_of_prefix

/-- What does not contain the separator stands on one side of it. -/
theorem infix_separated {c : α} (hne : needle ≠ []) (hc : c ∉ needle) :
    needle <:+: s ++ c :: t ↔ needle <:+: s ∨ needle <:+: t := by
  have hhead : ∀ part, part <:+: needle → part <+: c :: t → part = [] := by
    rintro part hpart ⟨rest, hrest⟩
    cases part with
    | nil => rfl
    | cons a part => exact absurd (hpart.subset ((List.cons.inj hrest).1 ▸ List.mem_cons_self)) hc
  rw [List.infix_append_iff_ne_nil, List.infix_cons_iff]
  constructor
  · rintro (h | (h | h) | ⟨t₁, t₂, -, ht₂, rfl, -, h⟩)
    · exact Or.inl h
    · exact absurd (hhead needle (List.infix_refl _) h) hne
    · exact Or.inr h
    · exact absurd (hhead t₂ (List.suffix_append _ _).isInfix h) ht₂
  · rintro (h | h)
    · exact Or.inl h
    · exact Or.inr (Or.inl (Or.inr h))

variable [DecidableEq α]

/-- The first position at which `needle` stands in a list. -/
def position (needle : List α) : List α → Option ℕ
  | [] => if needle = [] then some 0 else none
  | a :: s => if needle <+: a :: s then some 0 else (position needle s).map (· + 1)

/-- It stands there, and nowhere before. -/
theorem position_eq_some_iff (hne : needle ≠ []) :
    position needle s = some i ↔ needle <+: s.drop i ∧ ∀ j < i, ¬ needle <+: s.drop j := by
  induction s generalizing i with
  | nil => simp [position, hne]
  | cons a s ih =>
    rw [position]
    split_ifs with hstarts
    · constructor
      · intro h
        obtain rfl := Option.some.inj h
        exact ⟨hstarts, fun j hj => absurd hj (Nat.not_lt_zero j)⟩
      · rintro ⟨-, hbefore⟩
        cases i with
        | zero => rfl
        | succ i => exact absurd hstarts (hbefore 0 (Nat.succ_pos i))
    · cases i with
      | zero => simp [hstarts]
      | succ i =>
        rw [Option.map_eq_some_iff]
        simp only [Nat.add_right_cancel_iff, exists_eq_right, ih, List.drop_succ_cons]
        refine and_congr_right fun _ => ⟨fun h j hj => ?_, fun h j hj => ?_⟩
        · cases j with
          | zero => exact hstarts
          | succ j => exact h j (Nat.lt_of_succ_lt_succ hj)
        · exact h (j + 1) (Nat.succ_lt_succ hj)

/-- **What comes after it does not count.** -/
theorem position_append (hne : needle ≠ []) (h : i + needle.length ≤ s.length) :
    position needle (s ++ t) = some i ↔ position needle s = some i := by
  rw [position_eq_some_iff hne, position_eq_some_iff hne, prefix_drop_append h]
  refine and_congr_right fun _ => forall₂_congr fun j hj => not_congr ?_
  exact prefix_drop_append (by omega)

theorem length_le_of_position (hne : needle ≠ []) (h : position needle s = some i) :
    i + needle.length ≤ s.length := by
  have hlength := ((position_eq_some_iff hne).1 h).1.length_le
  have hpos := List.length_pos_iff.2 hne
  rw [List.length_drop] at hlength
  omega

/-- **It is not found before all of it is there.** -/
theorem position_eq_none_of_lt (hne : needle ≠ []) (h : position needle (s ++ t) = some i)
    (hlt : s.length < i + needle.length) : position needle s = none := by
  cases hfound : position needle s with
  | none => rfl
  | some j =>
    have hle := length_le_of_position hne hfound
    have heq := ((position_append (t := t) hne hle).2 hfound).symm.trans h
    obtain rfl := Option.some.inj heq
    omega

/-- It is found at the beginning. -/
theorem position_of_prefix (hne : needle ≠ []) (h : needle <+: s) : position needle s = some 0 :=
  (position_eq_some_iff hne).2 ⟨h, fun j hj => absurd hj (Nat.not_lt_zero j)⟩

/-- What does not contain its first element is passed over. -/
theorem position_block {c : α} {block : List α} (hc : c ∉ block) :
    position (c :: needle) (block ++ t) = (position (c :: needle) t).map (· + block.length) := by
  induction block with
  | nil => simp
  | cons b block ih =>
    rw [List.mem_cons, not_or] at hc
    have hhere : ¬ c :: needle <+: b :: (block ++ t) := fun h => hc.1 (List.cons_prefix_cons.1 h).1
    rw [List.cons_append, position, if_neg hhere, ih hc.2, Option.map_map]
    rfl

/-- So is what only begins like it. -/
theorem position_line {c : α} {line : List α} (hhere : ¬ c :: needle <+: c :: (line ++ t)) (hc : c ∉ line) :
    position (c :: needle) (c :: (line ++ t)) = (position (c :: needle) t).map (· + (line.length + 1)) := by
  rw [position, if_neg hhere, position_block hc, Option.map_map]
  rfl

/-- **It is found before a bound iff** it stands somewhere before it. -/
theorem exists_position_lt_iff (hne : needle ≠ []) {bound : ℕ} :
    (∃ i, position needle s = some i ∧ i < bound) ↔ ∃ i < bound, needle <+: s.drop i := by
  constructor
  · rintro ⟨i, hi, hlt⟩
    exact ⟨i, hlt, ((position_eq_some_iff hne).1 hi).1⟩
  · intro hex
    obtain ⟨hlt, hstarts⟩ := Nat.find_spec hex
    refine ⟨Nat.find hex, (position_eq_some_iff hne).2 ⟨hstarts, fun j hj h => ?_⟩, hlt⟩
    exact Nat.find_min hex hj ⟨hj.trans hlt, h⟩

end Search
