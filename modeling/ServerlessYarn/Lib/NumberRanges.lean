/-
  Numbers written as ranges.

  A list of numbers is cut into its stretches of consecutive numbers, and each stretch
  is written as a range, from its first number to its last one.

  * `splitBy_map`: cutting a list commutes with a map that keeps the cuts;
  * `splitBy_offset`: the stretches are the groups by the distance to the position;
  * `flatMap_numbers_ranges`: the numbers of the ranges are those of the list;
  * `ranges_apart`: no two neighbouring ranges of an increasing list could be merged.
-/
import Mathlib.Algebra.Order.Ring.Int
import Mathlib.Data.List.SplitBy

namespace NumberRanges

/-! ## Cutting a list -/

section
variable {α β : Type*} {r : α → α → Bool} {r' : β → β → Bool} {f : α → β}

theorem splitByLoop_map {l : List α} {a : α}
    (h : (a :: l).IsChain fun x y => r x y = r' (f x) (f y)) (g : List α) (gs : List (List α)) :
    (List.splitBy.loop r l a g gs).map (List.map f) =
      List.splitBy.loop r' (l.map f) (f a) (g.map f) (gs.map (List.map f)) := by
  induction l generalizing a g gs with
  | nil => simp [List.splitBy.loop]
  | cons b l ih =>
    obtain ⟨hab, hl⟩ := List.isChain_cons_cons.1 h
    rw [List.map_cons, List.splitBy.loop, List.splitBy.loop, ← hab]
    cases r a b with
    | true => exact ih hl (a :: g) gs
    | false =>
      have := ih hl [] ((a :: g).reverse :: gs)
      rwa [List.map_cons, List.map_reverse, List.map_cons] at this

/-- Where `f` keeps the cuts, the pieces of the image are the images of the pieces. -/
theorem splitBy_map {l : List α} (h : l.IsChain fun x y => r x y = r' (f x) (f y)) :
    (l.splitBy r).map (List.map f) = (l.map f).splitBy r' := by
  cases l with
  | nil => rfl
  | cons a l => exact splitByLoop_map h [] []

end

/-! ## Stretches of consecutive numbers -/

/-- The stretches of consecutive numbers of a list. -/
def stretches (l : List ℕ) : List (List ℕ) := l.splitBy fun x y => x + 1 == y

theorem zipIdx_isChain {α : Type*} (l : List α) (n : ℕ) :
    (l.zipIdx n).IsChain fun x y => y.2 = x.2 + 1 := by
  induction l generalizing n with
  | nil => exact List.isChain_nil
  | cons a l ih =>
    refine (ih (n + 1)).cons fun y hy => ?_
    cases l with
    | nil => cases hy
    | cons b l =>
      obtain rfl : (b, n + 1) = y := Option.some.inj hy
      rfl

/-- Numbers are grouped by their distance to their position into stretches. -/
theorem splitBy_offset (l : List ℕ) :
    (l.zipIdx.splitBy fun x y => (x.1 : ℤ) - x.2 == (y.1 : ℤ) - y.2).map (List.map Prod.fst) =
      stretches l := by
  have hcuts : l.zipIdx.IsChain fun x y =>
      ((x.1 : ℤ) - x.2 == (y.1 : ℤ) - y.2) = (x.1 + 1 == y.1) := by
    refine (zipIdx_isChain l 0).imp fun x y hxy => ?_
    rw [Bool.eq_iff_iff, beq_iff_eq, beq_iff_eq, hxy]
    push_cast
    omega
  have hstretches : (l.zipIdx.splitBy fun x y => (x.1 : ℤ) - x.2 == (y.1 : ℤ) - y.2).map (List.map Prod.fst) =
      (l.zipIdx.map Prod.fst).splitBy fun x y => x + 1 == y := splitBy_map hcuts
  rw [hstretches, List.zipIdx_map_fst]
  rfl

/-! ## Ranges -/

/-- The range of a stretch. -/
def bounds (g : List ℕ) : ℕ × ℕ := (g.headD 0, g.getLastD 0)

/-- The numbers of a range, both ends included. -/
def numbers (r : ℕ × ℕ) : List ℕ := List.range' r.1 (r.2 + 1 - r.1)

/-- The ranges of the stretches of a list. -/
def ranges (l : List ℕ) : List (ℕ × ℕ) := (stretches l).map bounds

theorem getLastD_of_isChain {a d : ℕ} {g : List ℕ} (h : (a :: g).IsChain fun x y => x + 1 = y) :
    (a :: g).getLastD d = a + g.length ∧ a :: g = List.range' a (g.length + 1) := by
  induction g generalizing a with
  | nil => exact ⟨rfl, rfl⟩
  | cons b g ih =>
    obtain ⟨rfl, hg⟩ := List.isChain_cons_cons.1 h
    obtain ⟨hlast, hnumbers⟩ := ih hg
    refine ⟨?_, ?_⟩
    · show ((a + 1) :: g).getLastD d = _
      rw [hlast, List.length_cons]
      omega
    · rw [List.range'_succ, List.length_cons, ← hnumbers]

theorem isChain_and {α : Type*} {R S : α → α → Prop} {l : List α} (h : l.IsChain R) (h' : l.IsChain S) :
    l.IsChain fun x y => R x y ∧ S x y := by
  induction l with
  | nil => exact List.isChain_nil
  | cons a l ih =>
    obtain ⟨hhead, hl⟩ := List.isChain_cons.1 h
    obtain ⟨hhead', hl'⟩ := List.isChain_cons.1 h'
    exact (ih hl hl').cons fun b hb => ⟨hhead b hb, hhead' b hb⟩

theorem isChain_of_mem_stretches {l g : List ℕ} (h : g ∈ stretches l) :
    g.IsChain fun x y => x + 1 = y :=
  (List.isChain_of_mem_splitBy h).imp fun _ _ hxy => beq_iff_eq.1 hxy

/-- The numbers of the range of a stretch are the stretch. -/
theorem numbers_bounds {l g : List ℕ} (h : g ∈ stretches l) : numbers (bounds g) = g := by
  cases g with
  | nil => exact absurd h (List.nil_notMem_splitBy _ l)
  | cons a g =>
    obtain ⟨hlast, hnumbers⟩ := getLastD_of_isChain (d := 0) (isChain_of_mem_stretches h)
    show List.range' a ((a :: g).getLastD 0 + 1 - a) = a :: g
    rw [hlast, hnumbers]
    congr 1
    omega

/-- The numbers of the ranges are those of the list. -/
theorem flatMap_numbers_ranges (l : List ℕ) : (ranges l).flatMap numbers = l := by
  have hpieces : (stretches l).map (numbers ∘ bounds) = stretches l :=
    (List.map_congr_left fun _ => numbers_bounds).trans (List.map_id _)
  rw [ranges, List.flatMap_map, List.flatMap_def]
  show ((stretches l).map (numbers ∘ bounds)).flatten = l
  rw [hpieces]
  exact List.flatten_splitBy _ l

/-- Ranges go up. -/
theorem bounds_le {l : List ℕ} {r : ℕ × ℕ} (h : r ∈ ranges l) : r.1 ≤ r.2 := by
  obtain ⟨g, hg, rfl⟩ := List.mem_map.1 h
  cases g with
  | nil => exact absurd hg (List.nil_notMem_splitBy _ l)
  | cons a g =>
    have hlast := (getLastD_of_isChain (d := 0) (isChain_of_mem_stretches hg)).1
    show a ≤ (a :: g).getLastD 0
    omega

/-- **Two neighbouring ranges of an increasing list leave a number out.** -/
theorem ranges_apart {l : List ℕ} (h : l.Pairwise (· < ·)) :
    (ranges l).IsChain fun r r' => r.2 + 1 < r'.1 := by
  have hflat : (stretches l).flatten.Pairwise (· < ·) := by
    rwa [stretches, List.flatten_splitBy]
  have hless := (List.pairwise_flatten.1 hflat).2.isChain
  have hcut := List.isChain_getLast_head_splitBy (fun x y => x + 1 == y) l
  rw [ranges, List.isChain_map]
  refine (isChain_and hless hcut).imp fun g g' hgg' => ?_
  obtain ⟨hlt, hg, hg', hne⟩ := hgg'
  have hlast := hlt _ (g.getLast_mem hg) _ (g'.head_mem hg')
  have hnext : g.getLast hg + 1 ≠ g'.head hg' := by simpa using hne
  have hend : (bounds g).2 = g.getLast hg := by
    simp [bounds, List.getLast?_eq_some_getLast hg]
  have hstart : (bounds g').1 = g'.head hg' := by
    simp [bounds, List.head?_eq_some_head hg']
  omega

end NumberRanges
