/-
  Texts made up of components with a separator before each.

  * `notMem_of_mem_splitOn`: what is between separators has none of them;
  * `splitOn_prefixed`: splitting gives the components back;
  * `prefixed_prefix_iff`: with a separator at their ends, the texts extend each other iff
    the components do;
  * `prefixed_length_lt`: more components make a longer text.
-/
import Mathlib.Data.List.Basic
import Mathlib.Data.List.Infix

namespace Components

variable {α : Type*} {sep : α}

/-- The components, with the separator before each. -/
def prefixed (sep : α) (l : List (List α)) : List α := l.flatMap fun c => sep :: c

@[simp] theorem prefixed_nil : prefixed sep [] = [] := rfl

@[simp] theorem prefixed_cons (c : List α) (l : List (List α)) :
    prefixed sep (c :: l) = sep :: (c ++ prefixed sep l) := rfl

theorem prefixed_append (l l' : List (List α)) : prefixed sep (l ++ l') = prefixed sep l ++ prefixed sep l' :=
  List.flatMap_append

/-- The separator at the front, and between the components. -/
theorem cons_intercalate {l : List (List α)} (h : l ≠ []) : sep :: [sep].intercalate l = prefixed sep l := by
  induction l with
  | nil => exact absurd rfl h
  | cons c l ih =>
    cases l with
    | nil => simp [List.intercalate_singleton]
    | cons c' l =>
      rw [List.intercalate_cons_cons, prefixed_cons, ← ih (List.cons_ne_nil c' l)]
      simp

section
variable [DecidableEq α]

/-- What is between separators has none of them. -/
theorem notMem_of_mem_splitOn {s part : List α} (h : part ∈ s.splitOn sep) : sep ∉ part := by
  induction s generalizing part with
  | nil =>
    rw [List.splitOn_nil, List.mem_singleton] at h
    rw [h]
    exact List.not_mem_nil
  | cons c s ih =>
    rw [List.splitOn_cons_eq_if_modifyHead] at h
    split_ifs at h with hc
    · rcases List.mem_cons.1 h with rfl | h
      · exact List.not_mem_nil
      · exact ih h
    · cases hs : s.splitOn sep with
      | nil => exact absurd hs (List.splitOn_ne_nil _ _)
      | cons first rest =>
        rw [hs] at h ih
        rcases List.mem_cons.1 h with rfl | h
        · intro hmem
          rcases List.mem_cons.1 hmem with rfl | hmem
          · exact hc (beq_self_eq_true _)
          · exact ih List.mem_cons_self hmem
        · exact ih (List.mem_cons_of_mem _ h)

theorem splitOn_prefixed {l : List (List α)} (hl : ∀ c ∈ l, sep ∉ c) {s : List α} (hs : sep ∉ s)
    (t : List α) : (s ++ (prefixed sep l ++ sep :: t)).splitOn sep = s :: l ++ t.splitOn sep := by
  induction l generalizing s with
  | nil => exact List.splitOn_append_cons_self_of_not_mem hs t
  | cons c l ih =>
    have hrest := ih (fun c' hc' => hl c' (List.mem_cons_of_mem _ hc')) (hl c List.mem_cons_self)
    rw [prefixed_cons, List.cons_append, List.append_assoc,
      List.splitOn_append_cons_self_of_not_mem hs, hrest]
    rfl

/-- **Texts that end with a separator extend each other iff their components do**, if
    none of these is empty. -/
theorem prefixed_prefix_iff {l l' : List (List α)} (hl : ∀ c ∈ l, c ≠ [] ∧ sep ∉ c)
    (hl' : ∀ c ∈ l', sep ∉ c) : prefixed sep l ++ [sep] <+: prefixed sep l' ++ [sep] ↔ l <+: l' := by
  constructor
  · rintro ⟨t, ht⟩
    have hsplit := congrArg (List.splitOn sep) ht
    have hleft := splitOn_prefixed (s := []) (fun c hc => (hl c hc).2) List.not_mem_nil t
    have hright := splitOn_prefixed (s := []) hl' List.not_mem_nil ([] : List α)
    rw [List.append_assoc, List.singleton_append] at hsplit
    rw [List.nil_append] at hleft hright
    rw [hleft, hright, List.splitOn_nil] at hsplit
    have hcomponents : l ++ t.splitOn sep = l' ++ [[]] := List.tail_eq_of_cons_eq hsplit
    rcases List.prefix_concat_iff.1 ⟨t.splitOn sep, hcomponents⟩ with rfl | hstart
    · exact absurd rfl (hl [] (List.mem_append_right l' List.mem_cons_self)).1
    · exact hstart
  · rintro ⟨rest, rfl⟩
    rw [prefixed_append]
    cases rest with
    | nil => exact ⟨[], by simp⟩
    | cons c rest => exact ⟨c ++ prefixed sep rest ++ [sep], by simp⟩

end

/-- More components make a longer text. -/
theorem prefixed_length_lt {l l' : List (List α)} (h : l <+: l') (hlt : l.length < l'.length) :
    (prefixed sep l).length < (prefixed sep l').length := by
  obtain ⟨rest, rfl⟩ := h
  cases rest with
  | nil => simp at hlt
  | cons c rest => simp [prefixed_append]

end Components
