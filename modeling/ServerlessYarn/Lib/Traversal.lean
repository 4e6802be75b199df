/-
  Lists taken through a function that may fail.

  * `mapM_eq_ok_iff`: element by element;
  * `mapM_map`: what is done to each result can be done at the end.
-/
import Mathlib.Data.List.Forall2

namespace Traversal

variable {ε α β γ : Type} {f : α → Except ε β}

/-- A result is reached through a result of each element, in order. -/
theorem mapM_eq_ok_iff {l : List α} {bs : List β} :
    l.mapM f = .ok bs ↔ List.Forall₂ (fun a b => f a = .ok b) l bs := by
  induction l generalizing bs with
  | nil =>
    constructor
    · intro h
      cases h
      exact .nil
    · intro h
      cases h
      rfl
  | cons a l ih =>
    rw [List.mapM_cons]
    constructor
    · intro h
      cases hb : f a with
      | error e =>
        rw [hb] at h
        cases h
      | ok b =>
        cases hbs : l.mapM f with
        | error e =>
          rw [hb, hbs] at h
          cases h
        | ok bs' =>
          rw [hb, hbs] at h
          cases h
          exact .cons hb (ih.1 hbs)
    · intro h
      cases h with
      | cons hb hbs =>
        rw [hb, ih.2 hbs]
        rfl

theorem exists_of_mem_forall₂ {R : α → β → Prop} {l : List α} {bs : List β}
    (h : List.Forall₂ R l bs) {b : β} (hb : b ∈ bs) : ∃ a ∈ l, R a b := by
  induction h with
  | nil => cases hb
  | @cons a b' l bs hab _ ih =>
    rcases List.mem_cons.1 hb with rfl | hb
    · exact ⟨a, List.mem_cons_self, hab⟩
    · obtain ⟨a', ha', hab'⟩ := ih hb
      exact ⟨a', List.mem_cons_of_mem _ ha', hab'⟩

theorem mapM_map (f : α → Except ε β) (g : β → γ) (l : List α) :
    l.mapM (fun a => (f a).map g) = (l.mapM f).map (List.map g) := by
  induction l with
  | nil => rfl
  | cons a l ih =>
    rw [List.mapM_cons, List.mapM_cons, ih]
    cases f a with
    | error e => rfl
    | ok b => cases l.mapM f <;> rfl

/-- The results are those of a function without failures. -/
theorem mapM_eq_ok_map_iff {g : α → β} {l : List α} :
    l.mapM f = .ok (l.map g) ↔ ∀ a ∈ l, f a = .ok (g a) := by
  rw [mapM_eq_ok_iff, List.forall₂_map_right_iff, List.forall₂_same]

end Traversal
