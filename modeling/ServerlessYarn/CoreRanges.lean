/-
  ServerlessYARN model — core lists written as ranges (`get_integer_list_range` of
  `scripts/hosts/init_host_node_rescaler.py`).

  The text holds single numbers and ranges `a-b` with both ends, separated by commas.
  `readRanges` reads it back; a single number is the range from itself to itself.

  * `integerListRange_eq`: the text is made up by the ranges of the list;
  * `readRanges_integerListRange`: which are read back from it, for any list;
  * `expandRanges_integerListRange`: of an increasing list, the text stands for exactly
    that list, and none of its ranges could be merged with the next one.
-/
import ServerlessYarn.CoreOverlap
import ServerlessYarn.Lib.NumberRanges
import ServerlessYarn.Lib.Traversal

namespace ServerlessYarn

open NumberRanges

/-- A range of the text. -/
def readRange (part : List Char) : Py (ℕ × ℕ) :=
  match part.splitOn '-' with
  | [core] => do
    let core ← pyInt core
    return (core, core)
  | [first, last] => do
    let first ← pyInt first
    let last ← pyInt last
    return (first, last)
  | _ => .error .valueError

/-- The ranges of a text; an empty one has none. -/
def readRanges (text : List Char) : Py (List (ℕ × ℕ)) :=
  if text = [] then return [] else (text.splitOn ',').mapM readRange

/-- The cores of a text. -/
def expandRanges (text : List Char) : Py (List ℕ) := do
  let ranges ← readRanges text
  return ranges.flatMap numbers

/-- A stretch as `get_integer_list_range` writes it. -/
def stretchText (item : List ℕ) : String :=
  String.intercalate "-" (([item.headD 0, item.getLastD 0].take item.length).map toString)

/-- The text is made up by the stretches of consecutive cores. -/
theorem integerListRange_eq (list_num : List ℕ) :
    integerListRange list_num = String.intercalate "," ((stretches list_num).map stretchText) := by
  rw [← splitBy_offset]
  rfl

/-! ## Reading it back -/

theorem notMem_toDigits {c : Char} (hc : c.isDigit = false) (n : ℕ) : c ∉ Nat.toDigits 10 n := by
  intro hmem
  have hdigit := Nat.isDigit_of_mem_toDigits (by decide) (by decide) hmem
  rw [hc] at hdigit
  cases hdigit

/-- The first and the last core of a stretch, or its only one. -/
def stretchEnds (item : List ℕ) : List ℕ := [item.headD 0, item.getLastD 0].take item.length

@[simp] theorem stretchEnds_singleton (a : ℕ) : stretchEnds [a] = [a] := rfl

@[simp] theorem stretchEnds_cons_cons (a b : ℕ) (g : List ℕ) :
    stretchEnds (a :: b :: g) = [a, (a :: b :: g).getLastD 0] := by
  rw [stretchEnds, List.length_cons, List.length_cons, List.take_of_length_le (Nat.le_add_left 2 _)]
  rfl

theorem toList_stretchText (item : List ℕ) : (stretchText item).toList =
    ['-'].intercalate ((stretchEnds item).map (Nat.toDigits 10)) := by
  rw [stretchText, String.toList_intercalate, List.map_map]
  congr 1
  exact List.map_congr_left fun n _ => Nat.toList_repr

theorem splitOn_stretchText {item : List ℕ} (h : item ≠ []) :
    (stretchText item).toList.splitOn '-' = (stretchEnds item).map (Nat.toDigits 10) := by
  rw [toList_stretchText]
  refine List.splitOn_intercalate '-' (fun s hs => ?_) ?_
  · obtain ⟨n, -, rfl⟩ := List.mem_map.1 hs
    exact notMem_toDigits (by decide) n
  · cases item with
    | nil => exact absurd rfl h
    | cons a item => exact List.cons_ne_nil _ _

/-- A stretch is read back as its range. -/
theorem readRange_stretchText {item : List ℕ} (h : item ≠ []) :
    readRange (stretchText item).toList = .ok (bounds item) := by
  unfold readRange
  rw [splitOn_stretchText h]
  match item with
  | [a] =>
    simp only [stretchEnds_singleton, List.map, pyInt_toDigits]
    rfl
  | a :: b :: g =>
    simp only [stretchEnds_cons_cons, List.map, pyInt_toDigits]
    rfl

/-- The text of a stretch is not empty. -/
theorem stretchText_ne_nil {item : List ℕ} (h : item ≠ []) : (stretchText item).toList ≠ [] := by
  intro hnil
  have hsplit := splitOn_stretchText h
  rw [hnil, List.splitOn_nil] at hsplit
  have hempty : [] ∈ (stretchEnds item).map (Nat.toDigits 10) := hsplit ▸ List.mem_cons_self
  obtain ⟨n, -, hn⟩ := List.mem_map.1 hempty
  exact Nat.toDigits_ne_nil hn

/-- There is no comma in it. -/
theorem comma_notMem_stretchText (item : List ℕ) : ',' ∉ (stretchText item).toList := by
  have hdigits := notMem_toDigits (c := ',') (by decide)
  rw [toList_stretchText]
  match item with
  | [] => exact List.not_mem_nil
  | [a] => simp [List.intercalate_singleton, hdigits]
  | a :: b :: g => simp [List.intercalate_cons_cons, List.intercalate_singleton, hdigits]

/-- The ranges of the text are those of the list. -/
theorem readRanges_integerListRange (list_num : List ℕ) :
    readRanges (integerListRange list_num).toList = .ok (ranges list_num) := by
  have hitem : ∀ item ∈ stretches list_num, item ≠ [] :=
    fun item hitem hnil => List.nil_notMem_splitBy _ list_num (hnil ▸ hitem)
  rw [integerListRange_eq, String.toList_intercalate, List.map_map, ranges]
  rcases hs : stretches list_num with _ | ⟨item, items⟩
  · rfl
  rw [hs] at hitem
  have hsplit : (",".toList.intercalate ((item :: items).map (String.toList ∘ stretchText))).splitOn ',' =
      (item :: items).map (String.toList ∘ stretchText) := by
    refine List.splitOn_intercalate ',' (fun s hs => ?_) (List.cons_ne_nil _ _)
    obtain ⟨g, -, rfl⟩ := List.mem_map.1 hs
    exact comma_notMem_stretchText g
  unfold readRanges
  rw [if_neg, hsplit]
  · rw [List.mapM_map]
    exact Traversal.mapM_eq_ok_map_iff.2 fun g hg => readRange_stretchText (hitem g hg)
  · intro hnil
    rw [hnil, List.splitOn_nil] at hsplit
    have hhead := (List.cons_eq_cons.1 hsplit).1
    exact stretchText_ne_nil (hitem item List.mem_cons_self) hhead.symm

/-- **Core lists survive their range encoding.** -/
theorem expandRanges_integerListRange {list_num : List ℕ} (h : list_num.Pairwise (· < ·)) :
    expandRanges (integerListRange list_num).toList = .ok list_num ∧
      ∃ ranges, readRanges (integerListRange list_num).toList = .ok ranges ∧
        (∀ r ∈ ranges, r.1 ≤ r.2) ∧ ranges.IsChain fun r r' => r.2 + 1 < r'.1 := by
  have hread := readRanges_integerListRange list_num
  refine ⟨?_, _, hread, fun r => bounds_le, ranges_apart h⟩
  show (readRanges _ >>= _) = _
  rw [hread]
  exact congrArg Except.ok (flatMap_numbers_ranges list_num)

/-- Single cores, a pair and a longer stretch. -/
theorem expandRanges_sample : expandRanges (integerListRange [0, 1, 2, 5, 7, 8]).toList =
      .ok [0, 1, 2, 5, 7, 8] ∧
    ∃ ranges, readRanges (integerListRange [0, 1, 2, 5, 7, 8]).toList = .ok ranges ∧
      (∀ r ∈ ranges, r.1 ≤ r.2) ∧ ranges.IsChain fun r r' => r.2 + 1 < r'.1 :=
  expandRanges_integerListRange (by decide)

end ServerlessYarn
