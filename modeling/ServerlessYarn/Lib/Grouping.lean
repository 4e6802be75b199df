/-
  Values grouped by a key.

  `groupPairs l` collects the values of a list of pairs under their keys, in the
  order of the list.

  * `get?_groupPairs`: the values of one key;
  * `eq_of_perm_of_keys`: a list is determined by its members and the strict order
    of their keys;
  * `flatMap_filter_perm`: the groups together are the members that have their keys;
  * `count_flatMap_key`: how often something is made up by the members;
  * `flatMap_eq_flatMap_filter_iff`: which members add nothing.
-/
import ServerlessYarn.Lib.Dict
import Mathlib.Data.List.Flatten
import Mathlib.Data.List.Sort

namespace Dict

variable {κ α : Type*} [DecidableEq κ]

/-- `d.computeIfAbsent(k, …).add(a)`. -/
def addTo (d : Dict κ (List α)) (k : κ) (a : α) : Dict κ (List α) :=
  d.set k ((d.get? k).getD [] ++ [a])

/-- The values of a list of pairs, under their keys. -/
def groupPairs (l : List (κ × α)) : Dict κ (List α) := l.foldl (fun d e => d.addTo e.1 e.2) empty

/-- The values of one key of a list of pairs. -/
def valuesOf (l : List (κ × α)) (k : κ) : List α := (l.filter (·.1 = k)).map Prod.snd

theorem valuesOf_cons (e : κ × α) (l : List (κ × α)) (k : κ) :
    valuesOf (e :: l) k = if e.1 = k then e.2 :: valuesOf l k else valuesOf l k := by
  unfold valuesOf
  by_cases h : e.1 = k <;> simp [h]

theorem mem_valuesOf {l : List (κ × α)} {k : κ} {a : α} : a ∈ valuesOf l k ↔ (k, a) ∈ l := by
  unfold valuesOf
  simp only [List.mem_map, List.mem_filter, decide_eq_true_eq, Prod.exists, exists_eq_right]

theorem nodup_valuesOf {l : List (κ × α)} (h : l.Nodup) (k : κ) : (valuesOf l k).Nodup := by
  refine List.Nodup.map_on (fun e he e' he' heq => ?_) (h.filter _)
  have hk := of_decide_eq_true (List.mem_filter.1 he).2
  have hk' := of_decide_eq_true (List.mem_filter.1 he').2
  exact Prod.ext (hk.trans hk'.symm) heq

theorem get?_foldl_addTo (l : List (κ × α)) (d : Dict κ (List α)) (k : κ) :
    (l.foldl (fun d e => d.addTo e.1 e.2) d).get? k =
      if valuesOf l k = [] then d.get? k else some ((d.get? k).getD [] ++ valuesOf l k) := by
  induction l generalizing d with
  | nil => simp [valuesOf]
  | cons e l ih =>
    rw [List.foldl_cons, ih, valuesOf_cons, addTo]
    by_cases h : e.1 = k
    · subst h
      rw [if_pos rfl, get?_set_self]
      by_cases hnil : valuesOf l e.1 = [] <;> simp [hnil]
    · rw [if_neg h, get?_set_of_ne _ _ (Ne.symm h)]

/-- The group of a key, if there is one. -/
theorem get?_groupPairs (l : List (κ × α)) (k : κ) :
    (groupPairs l).get? k = if valuesOf l k = [] then none else some (valuesOf l k) := by
  unfold groupPairs
  rw [get?_foldl_addTo]
  rfl

end Dict

/-- Two lists in the strict order of their keys are equal if they are permutations. -/
theorem eq_of_perm_of_keys {α : Type*} {f : α → ℕ} {l l' : List α} (h : l.Perm l')
    (hl : l.Pairwise fun a b => f a < f b) (hl' : l'.Pairwise fun a b => f a < f b) : l = l' :=
  h.eq_of_pairwise (fun _ _ _ _ hab hba => absurd hba (Nat.lt_asymm hab)) hl hl'

/-- The groups of different keys, one after the other, are the members with these keys. -/
theorem flatMap_filter_perm {κ α : Type*} [DecidableEq κ] (key : α → κ) (l : List α) {ks : List κ}
    (h : ks.Nodup) :
    (ks.flatMap fun k => l.filter fun a => key a = k).Perm (l.filter fun a => key a ∈ ks) := by
  induction ks with
  | nil => simp
  | cons k ks ih =>
    obtain ⟨hk, hks⟩ := List.nodup_cons.1 h
    have hfirst : (l.filter fun a => key a ∈ k :: ks).filter (fun a => key a = k) =
        l.filter fun a => key a = k := by
      rw [List.filter_filter]
      refine List.filter_congr fun a _ => ?_
      rw [Bool.eq_iff_iff]
      simp +contextual
    have hrest : (l.filter fun a => key a ∈ k :: ks).filter (fun a => !decide (key a = k)) =
        l.filter fun a => key a ∈ ks := by
      rw [List.filter_filter]
      refine List.filter_congr fun a _ => ?_
      rw [Bool.eq_iff_iff]
      simp only [Bool.and_eq_true, Bool.not_eq_true', decide_eq_false_iff_not, decide_eq_true_eq,
        List.mem_cons]
      constructor
      · rintro ⟨hne, hmem⟩
        exact hmem.resolve_left hne
      · intro hmem
        exact ⟨fun heq => hk (heq ▸ hmem), .inr hmem⟩
    have hsplit := List.filter_append_perm (fun a => decide (key a = k))
      (l.filter fun a => key a ∈ k :: ks)
    rw [hfirst, hrest] at hsplit
    rw [List.flatMap_cons]
    exact ((ih hks).append_left _).trans hsplit

/-- What each member makes up carries the member as its key. -/
theorem count_flatMap_key {α β : Type*} [DecidableEq α] [DecidableEq β] {f : α → List β} {key : β → α}
    (hkey : ∀ a, ∀ b ∈ f a, key b = a) (l : List α) (b : β) :
    (l.flatMap f).count b = l.count (key b) * (f (key b)).count b := by
  induction l with
  | nil => simp
  | cons a l ih =>
    rw [List.flatMap_cons, List.count_append, ih]
    by_cases ha : a = key b
    · rw [← ha, List.count_cons_self]
      ring
    · have hnone : (f a).count b = 0 := List.count_eq_zero.2 fun hb => ha (hkey a b hb).symm
      rw [hnone, List.count_cons_of_ne ha, Nat.zero_add]

/-- Dropping members changes what a list makes up only if one of them adds something. -/
theorem flatMap_eq_flatMap_filter_iff {α β : Type*} (g : α → List β) (q : α → Bool) (l : List α) :
    l.flatMap g = (l.filter q).flatMap g ↔ ∀ a ∈ l, q a = false → g a = [] := by
  induction l with
  | nil => simp
  | cons a l ih =>
    rw [List.forall_mem_cons, List.flatMap_cons]
    cases hq : q a with
    | true =>
      rw [List.filter_cons_of_pos hq, List.flatMap_cons, List.append_cancel_left_eq, ih]
      simp
    | false =>
      rw [List.filter_cons_of_neg (by simp [hq])]
      constructor
      · intro h
        have hle : ((l.filter q).flatMap g).length ≤ (l.flatMap g).length :=
          ((List.filter_sublist).flatMap g).length_le
        have hlen := congrArg List.length h
        rw [List.length_append] at hlen
        have hnil : g a = [] := List.length_eq_zero_iff.1 (by omega)
        rw [hnil, List.nil_append] at h
        exact ⟨fun _ => hnil, ih.1 h⟩
      · rintro ⟨hnil, hrest⟩
        rw [hnil rfl, List.nil_append, ih]
        exact hrest
