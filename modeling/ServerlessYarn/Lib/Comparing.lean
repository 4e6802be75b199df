/-
  Sorting by a comparison that may raise, and comparisons that mix two orders.

  * `sortBy_ok`: a stable insertion sort by a total preorder returns a sorted
    permutation;
  * `sortBy_returns`, `sortBy_perm`: by a comparison that does not raise it returns, and
    what it returns by any comparison is a permutation;
  * `forall₂_of_perm`: two sorted permutations are the same up to equivalent elements;
  * `mixedLE_trans_iff`: comparing some elements by a key and all others by their text
    is transitive exactly when no other element lies, by its text, between two elements
    that their keys order the other way.
-/
import Mathlib.Data.List.Sort
import Mathlib.Data.Prod.Lex

namespace Comparing

/-! ## Sorting -/

section sorting

variable {ε α : Type}

/-- Insert behind all elements that are not greater. -/
def insertBy (lt : α → α → Except ε Bool) (a : α) : List α → Except ε (List α)
  | [] => .ok [a]
  | b :: l => do
    let less ← lt a b
    if less then return a :: b :: l else return b :: (← insertBy lt a l)

/-- Insert the elements one after the other. -/
def sortBy (lt : α → α → Except ε Bool) (l : List α) : Except ε (List α) :=
  l.foldlM (fun sorted a => insertBy lt a sorted) []

variable {lt : α → α → Except ε Bool} {le : α → α → Prop}

theorem insertBy_ok [DecidableRel le] {S : α → Prop} (htotal : ∀ a b, S a → S b → le a b ∨ le b a)
    (htrans : ∀ a b c, S a → S b → S c → le a b → le b c → le a c)
    (hlt : ∀ a b, S a → S b → lt a b = .ok (decide ¬ le b a)) {a : α} (ha : S a) {l : List α}
    (hl : ∀ b ∈ l, S b) (hsorted : l.Pairwise le) :
    ∃ out, insertBy lt a l = .ok out ∧ out.Perm (a :: l) ∧ out.Pairwise le := by
  induction l with
  | nil => exact ⟨[a], rfl, .refl _, List.pairwise_singleton _ _⟩
  | cons b l ih =>
    have hb : S b := hl b List.mem_cons_self
    rw [List.pairwise_cons] at hsorted
    unfold insertBy
    rw [hlt a b ha hb]
    by_cases hba : le b a
    · obtain ⟨out, hout, hperm, hpair⟩ := ih (fun c hc => hl c (List.mem_cons_of_mem _ hc)) hsorted.2
      rw [decide_eq_false (not_not.2 hba), hout]
      refine ⟨b :: out, rfl, (hperm.cons b).trans (.swap a b l), ?_⟩
      rw [List.pairwise_cons]
      refine ⟨fun c hc => ?_, hpair⟩
      rcases List.mem_cons.1 (hperm.mem_iff.1 hc) with rfl | hc
      · exact hba
      · exact hsorted.1 c hc
    · rw [decide_eq_true hba]
      refine ⟨a :: b :: l, rfl, .refl _, ?_⟩
      have hab : le a b := (htotal a b ha hb).resolve_right hba
      rw [List.pairwise_cons, List.pairwise_cons]
      refine ⟨fun c hc => ?_, hsorted⟩
      rcases List.mem_cons.1 hc with rfl | hc
      · exact hab
      · exact htrans a b c ha hb (hl c (List.mem_cons_of_mem _ hc)) hab (hsorted.1 c hc)

theorem insertBy_perm {a : α} {l out : List α} (h : insertBy lt a l = .ok out) :
    out.Perm (a :: l) := by
  induction l generalizing out with
  | nil =>
    cases h
    exact .refl _
  | cons b l ih =>
    unfold insertBy at h
    cases hless : lt a b with
    | error e =>
      rw [hless] at h
      cases h
    | ok less =>
      rw [hless] at h
      cases less with
      | true =>
        cases h
        exact .refl _
      | false =>
        cases hrest : insertBy lt a l with
        | error e =>
          rw [hrest] at h
          cases h
        | ok rest =>
          rw [hrest] at h
          cases h
          exact ((ih hrest).cons b).trans (.swap a b l)

/-- Whatever the comparison, what the sort returns is a permutation. -/
theorem sortBy_perm {l out : List α} (h : sortBy lt l = .ok out) : out.Perm l := by
  suffices hloop : ∀ sorted : List α,
      l.foldlM (fun sorted a => insertBy lt a sorted) sorted = .ok out → out.Perm (sorted ++ l) from
    hloop [] h
  clear h
  induction l with
  | nil =>
    intro sorted h
    cases h
    rw [List.append_nil]
  | cons a l ih =>
    intro sorted h
    rw [List.foldlM_cons] at h
    cases hnext : insertBy lt a sorted with
    | error e =>
      rw [hnext] at h
      cases h
    | ok next =>
      rw [hnext] at h
      exact (ih next h).trans (((insertBy_perm hnext).append_right l).trans List.perm_middle.symm)

theorem insertBy_returns {a : α} {l : List α} (h : ∀ b ∈ l, ∃ less, lt a b = .ok less) :
    ∃ out, insertBy lt a l = .ok out := by
  induction l with
  | nil => exact ⟨[a], rfl⟩
  | cons b l ih =>
    obtain ⟨less, hless⟩ := h b List.mem_cons_self
    obtain ⟨out, hout⟩ := ih fun c hc => h c (List.mem_cons_of_mem _ hc)
    unfold insertBy
    rw [hless, hout]
    cases less with
    | true => exact ⟨a :: b :: l, rfl⟩
    | false => exact ⟨b :: out, rfl⟩

/-- A sort returns if no comparison of its elements raises. -/
theorem sortBy_returns {S : α → Prop} (hlt : ∀ a b, S a → S b → ∃ less, lt a b = .ok less)
    {l : List α} (hl : ∀ a ∈ l, S a) : ∃ out, sortBy lt l = .ok out := by
  suffices hloop : ∀ sorted : List α, (∀ a ∈ sorted, S a) →
      ∃ out, l.foldlM (fun sorted a => insertBy lt a sorted) sorted = .ok out from
    hloop [] fun a ha => absurd ha List.not_mem_nil
  induction l with
  | nil => exact fun sorted _ => ⟨sorted, rfl⟩
  | cons a l ih =>
    intro sorted hsorted
    have ha : S a := hl a List.mem_cons_self
    obtain ⟨next, hnext⟩ := insertBy_returns fun b hb => hlt a b ha (hsorted b hb)
    obtain ⟨out, hout⟩ := ih (fun b hb => hl b (List.mem_cons_of_mem _ hb)) next fun b hb => by
      rcases List.mem_cons.1 ((insertBy_perm hnext).mem_iff.1 hb) with rfl | hb
      · exact ha
      · exact hsorted b hb
    refine ⟨out, ?_⟩
    rw [List.foldlM_cons, hnext]
    exact hout

/-- **A sort by a total preorder** returns a sorted permutation. -/
theorem sortBy_ok [DecidableRel le] {S : α → Prop} (htotal : ∀ a b, S a → S b → le a b ∨ le b a)
    (htrans : ∀ a b c, S a → S b → S c → le a b → le b c → le a c)
    (hlt : ∀ a b, S a → S b → lt a b = .ok (decide ¬ le b a)) {l : List α} (hl : ∀ a ∈ l, S a) :
    ∃ out, sortBy lt l = .ok out ∧ out.Perm l ∧ out.Pairwise le := by
  suffices h : ∀ sorted : List α, (∀ a ∈ sorted, S a) → sorted.Pairwise le →
      ∃ out, l.foldlM (fun sorted a => insertBy lt a sorted) sorted = .ok out ∧
        out.Perm (sorted ++ l) ∧ out.Pairwise le by
    exact h [] (fun a ha => absurd ha List.not_mem_nil) .nil
  induction l with
  | nil =>
    intro sorted _ hsorted
    exact ⟨sorted, rfl, by rw [List.append_nil], hsorted⟩
  | cons a l ih =>
    intro sorted hS hsorted
    obtain ⟨next, hnext, hperm, hpair⟩ :=
      insertBy_ok htotal htrans hlt (hl a List.mem_cons_self) hS hsorted
    obtain ⟨out, hout, hperm', hpair'⟩ := ih (fun b hb => hl b (List.mem_cons_of_mem _ hb)) next
      (fun b hb => by
        rcases List.mem_cons.1 (hperm.mem_iff.1 hb) with rfl | hb
        · exact hl b List.mem_cons_self
        · exact hS b hb) hpair
    refine ⟨out, ?_, hperm'.trans ?_, hpair'⟩
    · rw [List.foldlM_cons, hnext]
      exact hout
    · exact (hperm.append_right l).trans List.perm_middle.symm

theorem imp_of_countP_eq {p q : α → Bool} {l : List α} (himp : ∀ a ∈ l, p a → q a)
    (h : l.countP p = l.countP q) : ∀ a ∈ l, q a → p a := by
  induction l with
  | nil => exact fun a ha => absurd ha List.not_mem_nil
  | cons b l ih =>
    have htail : ∀ a ∈ l, p a → q a := fun a ha => himp a (List.mem_cons_of_mem _ ha)
    have hle : l.countP p ≤ l.countP q := List.countP_mono_left htail
    have hb := himp b List.mem_cons_self
    rw [List.countP_cons, List.countP_cons] at h
    intro a ha hq
    rcases List.mem_cons.1 ha with rfl | ha
    · by_contra hp
      rw [if_neg hp, if_pos hq] at h
      omega
    · refine ih htail ?_ a ha hq
      split_ifs at h with hp hq'
      · omega
      · exact absurd (hb hp) hq'
      · omega
      · omega

/-- **Two sorted permutations** are the same up to equivalent elements. -/
theorem forall₂_of_perm [DecidableRel le] {S : α → Prop}
    (htotal : ∀ a b, S a → S b → le a b ∨ le b a)
    (htrans : ∀ a b c, S a → S b → S c → le a b → le b c → le a c) {l l' : List α}
    (hl : ∀ a ∈ l, S a) (hperm : l.Perm l') (h : l.Pairwise le) (h' : l'.Pairwise le) :
    List.Forall₂ (fun a b => le a b ∧ le b a) l l' := by
  -- how many elements are smaller
  let rank (a : α) : ℕ := l.countP fun b => ¬ le a b
  have hmono {a b : α} (ha : a ∈ l) (hb : b ∈ l) (hab : le a b) : rank a ≤ rank b := by
    refine List.countP_mono_left fun c hc hac => ?_
    simp only [decide_not, Bool.not_eq_eq_eq_not, Bool.not_true, decide_eq_false_iff_not] at hac ⊢
    exact fun hbc => hac (htrans a b c (hl a ha) (hl b hb) (hl c hc) hab hbc)
  have hequiv {a b : α} (ha : a ∈ l) (hb : b ∈ l) (hrank : rank a = rank b) : le a b := by
    by_contra hab
    have hba : le b a := (htotal a b (hl a ha) (hl b hb)).resolve_left hab
    have hrefl : le b b := (htotal b b (hl b hb) (hl b hb)).elim id id
    have hsame := imp_of_countP_eq (p := fun c => ¬ le b c) (q := fun c => ¬ le a c) ?_ hrank.symm b hb
      (by simpa using hab)
    · exact absurd hrefl (by simpa using hsame)
    · intro c hc hbc
      simp only [decide_not, Bool.not_eq_eq_eq_not, Bool.not_true, decide_eq_false_iff_not] at hbc ⊢
      exact fun hac => hbc (htrans b a c (hl b hb) (hl a ha) (hl c hc) hba hac)
  have hranked : (l.map rank).Pairwise (· ≤ ·) := by
    rw [List.pairwise_map]
    exact h.imp_of_mem fun ha hb hab => hmono ha hb hab
  have hranked' : (l'.map rank).Pairwise (· ≤ ·) := by
    rw [List.pairwise_map]
    exact h'.imp_of_mem fun ha hb hab => hmono (hperm.mem_iff.2 ha) (hperm.mem_iff.2 hb) hab
  have hranks : l.map rank = l'.map rank :=
    (hperm.map rank).eq_of_pairwise (fun a b _ _ hab hba => le_antisymm hab hba) hranked hranked'
  have hforall : List.Forall₂ (fun a b => rank a = rank b) l l' := by
    rwa [← List.forall₂_eq_eq_eq, List.forall₂_map_left_iff, List.forall₂_map_right_iff] at hranks
  rw [List.forall₂_iff_zip] at hforall ⊢
  refine ⟨hforall.1, fun hmem => ?_⟩
  have ha := (List.of_mem_zip hmem).1
  have hb := hperm.mem_iff.2 (List.of_mem_zip hmem).2
  exact ⟨hequiv ha hb (hforall.2 hmem), hequiv hb ha (hforall.2 hmem).symm⟩

end sorting

/-! ## Three-way comparisons -/

section threeWay

variable {β γ : Type*} [LinearOrder β] [LinearOrder γ]

/-- `-1`, `0` or `1`. -/
def threeWay (a b : β) : ℤ := if a < b then -1 else if b < a then 1 else 0

theorem threeWay_swap (a b : β) : threeWay b a = -threeWay a b := by
  unfold threeWay
  rcases lt_trichotomy a b with h | rfl | h
  · rw [if_neg h.asymm, if_pos h, if_pos h, Int.neg_neg]
  · simp
  · rw [if_pos h, if_neg h.asymm, if_pos h]

theorem threeWay_nonpos_iff {a b : β} : threeWay a b ≤ 0 ↔ a ≤ b := by
  unfold threeWay
  split_ifs with h h'
  · simp [h.le]
  · simp [h']
  · simp [not_lt.1 h']

/-- Comparing the first components, and the second ones if those are equal. -/
theorem threeWay_toLex (b b' : β) (c c' : γ) :
    threeWay (toLex (b, c)) (toLex (b', c')) =
      if b < b' then -1 else if b' < b then 1 else threeWay c c' := by
  unfold threeWay
  simp only [Prod.Lex.toLex_lt_toLex]
  rcases lt_trichotomy b b' with h | rfl | h
  · simp [h]
  · simp
  · simp [h, h.asymm, h.ne']

end threeWay

/-! ## Mixed comparisons -/

section mixed

variable {α β γ : Type*} [LinearOrder β] [LinearOrder γ]

/-- Two elements that have a key are compared by it, all others by their text. -/
def MixedLE (text : α → β) (key : α → Option γ) (a b : α) : Prop :=
  match key a, key b with
  | some k, some k' => k ≤ k'
  | _, _ => text a ≤ text b

variable {text : α → β} {key : α → Option γ}

theorem mixedLE_some {a b : α} {k k' : γ} (ha : key a = some k) (hb : key b = some k') :
    MixedLE text key a b ↔ k ≤ k' := by
  unfold MixedLE
  rw [ha, hb]

theorem mixedLE_none_left {a b : α} (ha : key a = none) : MixedLE text key a b ↔ text a ≤ text b := by
  unfold MixedLE
  rw [ha]

theorem mixedLE_none_right {a b : α} (hb : key b = none) : MixedLE text key a b ↔ text a ≤ text b := by
  unfold MixedLE
  rw [hb]
  cases key a <;> rfl

instance (a b : α) : Decidable (MixedLE text key a b) :=
  match ha : key a, hb : key b with
  | some _, some _ => decidable_of_iff _ (mixedLE_some ha hb).symm
  | none, _ => decidable_of_iff _ (mixedLE_none_left ha).symm
  | some _, none => decidable_of_iff _ (mixedLE_none_right hb).symm

theorem mixedLE_total (a b : α) : MixedLE text key a b ∨ MixedLE text key b a := by
  cases ha : key a with
  | none =>
    rw [mixedLE_none_left ha, mixedLE_none_right ha]
    exact le_total _ _
  | some k =>
    cases hb : key b with
    | none =>
      rw [mixedLE_none_left hb, mixedLE_none_right hb]
      exact le_total _ _
    | some k' =>
      rw [mixedLE_some ha hb, mixedLE_some hb ha]
      exact le_total _ _

/-- An element without a key lies, by its text, between two elements that their keys
    order the other way. -/
def Between (text : α → β) (key : α → Option γ) (x u y : α) : Prop :=
  ∃ kx ky, key x = some kx ∧ key y = some ky ∧ key u = none ∧ kx ≤ ky ∧
    text y < text u ∧ text u < text x

/-- **When a mixed comparison is transitive**: exactly when nothing lies between. -/
theorem mixedLE_trans_iff {S : α → Prop} (hsep : ∀ a b, text a = text b → key a = key b) :
    (∀ a b c, S a → S b → S c → MixedLE text key a b → MixedLE text key b c →
      MixedLE text key a c) ↔
    ∀ x u y, S x → S u → S y → ¬ Between text key x u y := by
  constructor
  · rintro h x u y hx hu hy ⟨kx, ky, hkx, hky, hku, hle, hyu, hux⟩
    have hxu := h x y u hx hy hu ((mixedLE_some hkx hky).2 hle) ((mixedLE_none_right hku).2 hyu.le)
    rw [mixedLE_none_right hku] at hxu
    exact absurd hux (not_lt.2 hxu)
  · intro h a b c ha hb hc hab hbc
    have hne {x y : α} (hxy : key x ≠ key y) (hle : text x ≤ text y) : text x < text y :=
      lt_of_le_of_ne hle fun heq => hxy (hsep x y heq)
    rcases hka : key a with _ | ka <;> rcases hkb : key b with _ | kb <;> rcases hkc : key c with _ | kc
    · rw [mixedLE_none_left hka] at hab ⊢
      rw [mixedLE_none_left hkb] at hbc
      exact hab.trans hbc
    · rw [mixedLE_none_left hka] at hab ⊢
      rw [mixedLE_none_left hkb] at hbc
      exact hab.trans hbc
    · rw [mixedLE_none_left hka] at hab ⊢
      rw [mixedLE_none_right hkc] at hbc
      exact hab.trans hbc
    · -- only the first has no key
      rw [mixedLE_none_left hka] at hab ⊢
      rw [mixedLE_some hkb hkc] at hbc
      by_contra hlt
      rw [not_le] at hlt
      exact h b a c hb ha hc ⟨kb, kc, hkb, hkc, hka, hbc, hlt, hne (by rw [hka, hkb]; simp) hab⟩
    · rw [mixedLE_none_right hkb] at hab
      rw [mixedLE_none_left hkb] at hbc
      rw [mixedLE_none_right hkc]
      exact hab.trans hbc
    · -- only the one in the middle has no key
      rw [mixedLE_none_right hkb] at hab
      rw [mixedLE_none_left hkb] at hbc
      rw [mixedLE_some hka hkc]
      by_contra hlt
      rw [not_le] at hlt
      exact h c b a hc hb ha ⟨kc, ka, hkc, hka, hkb, hlt.le, hne (by rw [hka, hkb]; simp) hab,
        hne (by rw [hkb, hkc]; simp) hbc⟩
    · -- only the last has no key
      rw [mixedLE_none_right hkc] at hbc ⊢
      rw [mixedLE_some hka hkb] at hab
      by_contra hlt
      rw [not_le] at hlt
      exact h a c b ha hc hb ⟨ka, kb, hka, hkb, hkc, hab, hne (by rw [hkb, hkc]; simp) hbc, hlt⟩
    · rw [mixedLE_some hka hkb] at hab
      rw [mixedLE_some hkb hkc] at hbc
      rw [mixedLE_some hka hkc]
      exact hab.trans hbc

end mixed

end Comparing
