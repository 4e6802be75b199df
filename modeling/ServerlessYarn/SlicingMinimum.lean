/-
  ServerlessYARN model — the minimum of mappers that the search reports
  (`plugins/modules/get_mappers.py`).

  The module prints the chunks of the even split as the least number of mappers.
  The even split is the one with the fewest chunks only when its chunks leave
  little room; a split into full chunks and one large file has fewer otherwise.
  From 2^53 blocks on the estimate may also be off because of its rounded quotients.

  * `mem_stdout_atLeast`, `mem_stdout_chosen`: what a search prints;
  * `minimumHolds_iff`: when every printed minimum is one.
-/
import ServerlessYarn.Lib.FewestChunks
import ServerlessYarn.SlicingSearch

namespace ServerlessYarn

open Binary64 Chunks

/-! ## The claim of the lines -/

/-- The blocks of each file, for given numbers of blocks and files. -/
structure BlockCounts (blocks files : ℕ) where
  counts : List ℕ
  length_eq : counts.length = files
  sum_eq : counts.sum = blocks
  one_le : ∀ b ∈ counts, 1 ≤ b

/-- A line is right about files with these blocks: the chunks are at least the
    mappers it promises, and enough if it promises enough. -/
def MappersLine.Holds (max_mappers : ℤ) (counts : List ℕ) : MappersLine → Prop
  | .atLeast slicing estimated_mappers => estimated_mappers ≤ chunks counts slicing.toNat
  | .chosen best_slicing best_estimated_mappers =>
    max_mappers ≤ best_estimated_mappers → max_mappers ≤ chunks counts best_slicing.toNat

/-- Every line that the module prints is right, however the blocks are spread. -/
def MinimumHolds (blocks files : ℕ) (max_mappers : ℤ) (mode : String) : Prop :=
  ∀ m, getMappers blocks files max_mappers mode = .ok m →
    ∀ bs : BlockCounts blocks files, ∀ line ∈ m.stdout, line.Holds max_mappers bs.counts

/-! ## What the search examines -/

/-- The search is for a multiple of `max_mappers`. -/
def Proportional (files : ℕ) (max_mappers : ℤ) (mode : String) : Prop :=
  mode = "nearest-multiple" ∧ max_mappers < files

instance (files : ℕ) (max_mappers : ℤ) (mode : String) :
    Decidable (Proportional files max_mappers mode) :=
  inferInstanceAs (Decidable (_ ∧ _))

/-- The module gets as far as the loop. -/
structure Searches (blocks files : ℕ) (max_mappers : ℤ) (mode : String) : Prop where
  files_pos : 0 < files
  blocks_pos : 0 < blocks
  not_distcp : mode ≠ "distcp-default"
  not_mapred : mode ≠ "mapred-default"
  not_bestEffort : ¬ (mode = "best-effort" ∧ max_mappers ≤ files)
  not_nearest : ¬ (mode = "nearest-multiple" ∧ (files : ℤ) = max_mappers)
  more_blocks : max_mappers < blocks
  ne_zero : max_mappers ≠ 0
  converts : Converts ((blocks : ℚ) / files)
  no_multiple : Proportional files max_mappers mode → ¬ max_mappers ∣ (blocks : ℤ)

/-- The loop ends with this slicing. -/
def Stops (blocks files : ℕ) (max_mappers : ℤ) (mode : String) (slicing : ℕ) : Prop :=
  if Proportional files max_mappers mode then max_mappers ∣ reported blocks files slicing
  else reported blocks files slicing ≤ max_mappers

instance (blocks files : ℕ) (max_mappers : ℤ) (mode : String) (slicing : ℕ) :
    Decidable (Stops blocks files max_mappers mode slicing) :=
  inferInstanceAs (Decidable (if Proportional files max_mappers mode then
    max_mappers ∣ reported blocks files slicing
  else reported blocks files slicing ≤ max_mappers))

/-- A loop that starts at slicing `a` gets to this one. -/
def Reached (blocks files : ℕ) (max_mappers : ℤ) (mode : String) (a slicing : ℕ) : Prop :=
  a ≤ slicing ∧ ∀ t, a ≤ t → t < slicing → ¬ Stops blocks files max_mappers mode t

/-- The module examines this slicing. -/
structure Examined (blocks files : ℕ) (max_mappers : ℤ) (mode : String) (slicing : ℕ) : Prop where
  searches : Searches blocks files max_mappers mode
  reached : Reached blocks files max_mappers mode 2 slicing
  le : slicing ≤ lastSlicing blocks files

/-- The loop over `n` slicings from `a` on. -/
def searchLoop (blocks files : ℕ) (max_mappers : ℤ) (mode : String) (a n : ℕ) (best : BestSlicing) :
    BestSlicing × List MappersLine :=
  slicingLoop (avgBlocks blocks files) blocks files max_mappers (decide (Proportional files max_mappers mode))
    ((List.range' a n).map fun slicing : ℕ => (slicing : ℤ)) best

section
variable {B F : ℕ} {M : ℤ} {mode : String}

/-! ## The lines of the loop -/

theorem reached_iff (a s : ℕ) : Reached B F M mode a s ↔
    s = a ∨ (¬ Stops B F M mode a ∧ Reached B F M mode (a + 1) s) := by
  constructor
  · rintro ⟨hle, hon⟩
    rcases hle.eq_or_lt with rfl | hlt
    · exact Or.inl rfl
    · exact Or.inr ⟨hon a le_rfl hlt, hlt, fun t hat => hon t (by omega)⟩
  · rintro (rfl | ⟨hstop, hle, hon⟩)
    · exact ⟨le_rfl, fun t _ _ => by omega⟩
    · refine ⟨by omega, fun t hat hts => ?_⟩
      rcases hat.eq_or_lt with rfl | hlt
      · exact hstop
      · exact hon t hlt hts

/-- One turn of the loop: it prints the estimate, and the best stays or becomes this
    slicing. -/
theorem searchLoop_succ (B F : ℕ) (M : ℤ) (mode : String) {a : ℕ} (ha : 2 ≤ a) (n : ℕ)
    (best : BestSlicing) :
    ∃ best' : BestSlicing, (best' = best ∨ best'.best_slicing = a ∧
        best'.best_estimated_mappers = reported B F a) ∧
      searchLoop B F M mode a (n + 1) best =
        if Stops B F M mode a then (best', [.atLeast a (reported B F a)])
        else ((searchLoop B F M mode (a + 1) n best').1,
          .atLeast a (reported B F a) :: (searchLoop B F M mode (a + 1) n best').2) := by
  have hest := estimatedMappers_eq_reported B F ha
  by_cases hprop : Proportional F M mode
  · have hstop : Stops B F M mode a ↔ (reported B F a).fmod M = 0 := by
      rw [Stops, if_pos hprop]
      exact ⟨Int.fmod_eq_zero_of_dvd, Int.dvd_of_fmod_eq_zero⟩
    refine ⟨best.multiple a (reported B F a) ((reported B F a).fmod M), ?_, ?_⟩
    · rw [BestSlicing.multiple]
      split_ifs
      · exact Or.inr ⟨rfl, rfl⟩
      · exact Or.inl rfl
    · simp only [searchLoop, List.range'_succ, List.map_cons, slicingLoop, hest, hprop, hstop,
        decide_true, Bool.not_true, Bool.false_eq_true, if_false, decide_eq_true_eq]
  · have hstop : Stops B F M mode a ↔ reported B F a - M ≤ 0 := by
      rw [Stops, if_neg hprop]
      omega
    refine ⟨best.nearest a (reported B F a) (reported B F a - M), ?_, ?_⟩
    · rw [BestSlicing.nearest]
      split_ifs
      · exact Or.inr ⟨rfl, rfl⟩
      · exact Or.inl rfl
    · simp only [searchLoop, List.range'_succ, List.map_cons, slicingLoop, hest, hprop, hstop,
        decide_false, Bool.not_false, if_true, decide_eq_true_eq]

/-- **The lines of the loop**: one for every slicing that it gets to. -/
theorem mem_searchLoop_lines {n : ℕ} {line : MappersLine} :
    ∀ {a : ℕ} {best : BestSlicing}, 2 ≤ a → (line ∈ (searchLoop B F M mode a n best).2 ↔
      ∃ s, Reached B F M mode a s ∧ s < a + n ∧ line = .atLeast s (reported B F s)) := by
  induction n with
  | zero =>
    intro a best _
    constructor
    · intro hline
      exact absurd hline List.not_mem_nil
    · rintro ⟨s, hs, hlt, -⟩
      have := hs.1
      omega
  | succ n ih =>
    intro a best ha
    obtain ⟨best', -, heq⟩ := searchLoop_succ B F M mode ha n best
    rw [heq]
    by_cases hstop : Stops B F M mode a
    · rw [if_pos hstop, List.mem_singleton]
      constructor
      · rintro rfl
        exact ⟨a, (reached_iff a a).2 (Or.inl rfl), by omega, rfl⟩
      · rintro ⟨s, hs, -, rfl⟩
        rcases (reached_iff a s).1 hs with rfl | ⟨hon, -⟩
        · rfl
        · exact absurd hstop hon
    · rw [if_neg hstop, List.mem_cons, ih (by omega)]
      constructor
      · rintro (rfl | ⟨s, hs, hlt, rfl⟩)
        · exact ⟨a, (reached_iff a a).2 (Or.inl rfl), by omega, rfl⟩
        · exact ⟨s, (reached_iff a s).2 (Or.inr ⟨hstop, hs⟩), by omega, rfl⟩
      · rintro ⟨s, hs, hlt, rfl⟩
        rcases (reached_iff a s).1 hs with rfl | ⟨-, hlater⟩
        · exact Or.inl rfl
        · exact Or.inr ⟨s, hlater, by omega, rfl⟩

/-- The best slicing is the one that the loop starts with or one that it gets to. -/
theorem searchLoop_best (B F : ℕ) (M : ℤ) (mode : String) {n : ℕ} :
    ∀ {a : ℕ} (best : BestSlicing), 2 ≤ a →
    (searchLoop B F M mode a n best).1 = best ∨ ∃ s, Reached B F M mode a s ∧ s < a + n ∧
      (searchLoop B F M mode a n best).1.best_slicing = s ∧
      (searchLoop B F M mode a n best).1.best_estimated_mappers = reported B F s := by
  induction n with
  | zero =>
    intro a best _
    exact Or.inl rfl
  | succ n ih =>
    intro a best ha
    obtain ⟨best', hbest', heq⟩ := searchLoop_succ B F M mode ha n best
    have hself : Reached B F M mode a a := (reached_iff a a).2 (Or.inl rfl)
    rw [heq]
    by_cases hstop : Stops B F M mode a
    · rw [if_pos hstop]
      rcases hbest' with rfl | ⟨hs, he⟩
      · exact Or.inl rfl
      · exact Or.inr ⟨a, hself, by omega, hs, he⟩
    · rw [if_neg hstop]
      rcases ih best' (show 2 ≤ a + 1 by omega) with hsame | ⟨s, hs, hlt, hslicing, hmappers⟩
      · simp only [hsame]
        rcases hbest' with rfl | ⟨hs, he⟩
        · exact Or.inl rfl
        · exact Or.inr ⟨a, hself, by omega, hs, he⟩
      · exact Or.inr ⟨s, (reached_iff a s).2 (Or.inr ⟨hstop, hs⟩), by omega, hslicing, hmappers⟩

/-! ## The lines of the module -/

/-- What is left of the module when it gets as far as the loop. -/
theorem getMappers_of_searches (h : Searches B F M mode) :
    getMappers B F M mode = .ok
      ⟨(searchLoop B F M mode 2 (lastSlicing B F - 1) ⟨1, B, B - M, (B : ℤ).fmod M⟩).1.best_slicing,
        (searchLoop B F M mode 2 (lastSlicing B F - 1) ⟨1, B, B - M, (B : ℤ).fmod M⟩).2 ++
          [.chosen
            (searchLoop B F M mode 2 (lastSlicing B F - 1) ⟨1, B, B - M, (B : ℤ).fmod M⟩).1.best_slicing
            (searchLoop B F M mode 2 (lastSlicing B F - 1)
              ⟨1, B, B - M, (B : ℤ).fmod M⟩).1.best_estimated_mappers]⟩ := by
  have hF := h.files_pos
  have hB := h.blocks_pos
  have hM := h.more_blocks
  have hmod : intMod B M = .ok ((B : ℤ).fmod M) := if_neg h.ne_zero
  have hbase : ¬ (Proportional F M mode ∧ (B : ℤ).fmod M = 0) := by
    rintro ⟨hprop, hzero⟩
    exact h.no_multiple hprop (Int.dvd_of_fmod_eq_zero hzero)
  unfold getMappers
  rw [if_neg (by omega), if_neg (by omega), if_neg h.not_distcp, if_neg h.not_mapred,
    if_neg h.not_bestEffort, if_neg h.not_nearest, if_neg (by omega)]
  simp only [Int.cast_natCast, div_avgBlocks hF h.converts, hmod, bind, Except.bind, decide_eq_true_eq]
  rw [Proportional] at hbase
  rw [if_neg hbase, slicingRange_eq]
  rfl

/-- Without a search the module prints nothing or the base slicing. -/
theorem stdout_of_not_searches (h : ¬ Searches B F M mode) {m : Mappers}
    (hm : getMappers B F M mode = .ok m) : ∀ line ∈ m.stdout, line = .chosen 1 B := by
  have hquiet : ∀ k, (.ok ⟨k, []⟩ : Py Mappers) = .ok m → ∀ line ∈ m.stdout, line = .chosen 1 B := by
    intro k hk line hline
    rw [← Except.ok.inj hk] at hline
    exact absurd hline List.not_mem_nil
  rw [getMappers] at hm
  by_cases h1 : (F : ℤ) ≤ 0
  · rw [if_pos h1] at hm
    exact hquiet _ hm
  rw [if_neg h1] at hm
  by_cases h2 : (B : ℤ) ≤ 0
  · rw [if_pos h2] at hm
    exact hquiet _ hm
  rw [if_neg h2] at hm
  by_cases h3 : mode = "distcp-default"
  · rw [if_pos h3] at hm
    exact hquiet _ hm
  rw [if_neg h3] at hm
  by_cases h4 : mode = "mapred-default"
  · rw [if_pos h4] at hm
    exact hquiet _ hm
  rw [if_neg h4] at hm
  by_cases h5 : mode = "best-effort" ∧ M ≤ F
  · rw [if_pos h5] at hm
    exact hquiet _ hm
  rw [if_neg h5] at hm
  by_cases h6 : mode = "nearest-multiple" ∧ (F : ℤ) = M
  · rw [if_pos h6] at hm
    exact hquiet _ hm
  rw [if_neg h6] at hm
  by_cases h7 : (B : ℤ) ≤ M
  · rw [if_pos h7] at hm
    exact hquiet _ hm
  rw [if_neg h7] at hm
  obtain ⟨avg_blocks, havg, hm⟩ := bind_eq_ok.1 hm
  obtain ⟨r, hr, hm⟩ := bind_eq_ok.1 hm
  have hconv : Converts ((B : ℚ) / F) := by
    by_contra hconv
    rw [Int.cast_natCast, Int.cast_natCast, div_overflow (by omega) hconv] at havg
    cases havg
  have hne : M ≠ 0 := by
    rintro rfl
    exact absurd hr (by simp [intMod])
  rw [intMod, if_neg hne] at hr
  injection hr with hr
  split_ifs at hm with h8
  · injection hm with hm
    rw [← hm]
    intro line hline
    exact List.mem_singleton.1 hline
  · refine absurd ⟨by omega, by omega, h3, h4, h5, h6, by omega, hne, hconv, ?_⟩ h
    intro hprop hdvd
    exact h8 ⟨decide_eq_true hprop, hr ▸ Int.fmod_eq_zero_of_dvd hdvd⟩

/-- **The printed minima.** -/
theorem mem_stdout_atLeast {m : Mappers} (hm : getMappers B F M mode = .ok m) {s e : ℤ} :
    .atLeast s e ∈ m.stdout ↔ ∃ t, Examined B F M mode t ∧ s = (t : ℕ) ∧ e = reported B F t := by
  by_cases h : Searches B F M mode
  · have hlast := one_le_lastSlicing B F
    rw [getMappers_of_searches h] at hm
    injection hm with hm
    subst hm
    rw [List.mem_append, mem_searchLoop_lines le_rfl, List.mem_singleton]
    constructor
    · rintro (⟨t, ht, hlt, hline⟩ | hline)
      · injection hline with hs he
        exact ⟨t, ⟨h, ht, by omega⟩, hs, he⟩
      · cases hline
    · rintro ⟨t, ht, rfl, rfl⟩
      have := ht.le
      exact Or.inl ⟨t, ht.reached, by omega, rfl⟩
  · constructor
    · intro hline
      cases stdout_of_not_searches h hm _ hline
    · rintro ⟨t, ht, -⟩
      exact absurd ht.searches h

/-- The chosen slicing is the base or one that was examined. -/
theorem mem_stdout_chosen {m : Mappers} (hm : getMappers B F M mode = .ok m) {s e : ℤ}
    (h : .chosen s e ∈ m.stdout) : (s = 1 ∧ e = B) ∨
      ∃ t, Examined B F M mode t ∧ s = (t : ℕ) ∧ e = reported B F t := by
  by_cases hsearch : Searches B F M mode
  · have hlast := one_le_lastSlicing B F
    rw [getMappers_of_searches hsearch] at hm
    injection hm with hm
    subst hm
    rw [List.mem_append, mem_searchLoop_lines le_rfl, List.mem_singleton] at h
    rcases h with ⟨t, -, -, hline⟩ | hline
    · cases hline
    · injection hline with hs he
      rw [hs, he]
      rcases searchLoop_best B F M mode (n := lastSlicing B F - 1)
          ⟨1, B, B - M, (B : ℤ).fmod M⟩ le_rfl with hsame | ⟨t, ht, hlt, hslicing, hmappers⟩
      · rw [hsame]
        exact Or.inl ⟨rfl, rfl⟩
      · exact Or.inr ⟨t, ⟨hsearch, ht, by omega⟩, hslicing, hmappers⟩
  · injection stdout_of_not_searches hsearch hm _ h with hs he
    exact Or.inl ⟨hs, he⟩

/-! ## When the minimum is one -/

/-- The chunks of the even split are no more than those of any other. -/
def LeastChunks (blocks files slicing : ℕ) : Prop :=
  blocks ≤ files * slicing ∨ freePlaces blocks files slicing < slicing

/-- The estimate is at most the chunks of every split.  Where it is the number of chunks of the
    even split, that is when these are the fewest. -/
def LeastEstimate (blocks files slicing : ℕ) : Prop :=
  if reported blocks files slicing = bestCase blocks files slicing then
    LeastChunks blocks files slicing
  else reported blocks files slicing ≤ max files (blocks ⌈/⌉ slicing)

theorem Examined.files_le {s : ℕ} (h : Examined B F M mode s) : F ≤ B := by
  by_contra hlt
  have hone := lastSlicing_of_le (B := B) h.searches.files_pos (by omega)
  have htwo := h.reached.1
  have hle := h.le
  omega

/-- **Below 2^53 blocks** the estimate is the number of chunks of the even split. -/
theorem Examined.leastEstimate_iff {s : ℕ} (h : Examined B F M mode s) (hB : B < 2 ^ 53) :
    LeastEstimate B F s ↔ LeastChunks B F s := by
  have hs := h.reached.1
  rw [LeastEstimate, if_pos (reported_eq_bestCase h.searches.files_pos h.files_le hB (by omega) h.le)]

/-- The estimate of an examined slicing is at most the chunks of every split iff it is at most
    their bound. -/
theorem Examined.reported_le_iff {s : ℕ} (h : Examined B F M mode s) :
    (∀ bs : BlockCounts B F, reported B F s ≤ chunks bs.counts s) ↔ LeastEstimate B F s := by
  have hs : 0 < s := by
    have := h.reached.1
    omega
  have hF := h.searches.files_pos
  have hbound : LeastEstimate B F s ↔ reported B F s ≤ ((max F (B ⌈/⌉ s) : ℕ) : ℤ) := by
    rw [LeastEstimate, Nat.cast_max]
    split_ifs with heq
    · rw [heq, LeastChunks, ← chunks_evenSplit_le_max hs hF h.files_le, ← Nat.cast_max]
      exact Int.ofNat_le.symm
    · rfl
  rw [hbound]
  constructor
  · intro hall
    obtain ⟨xs, hlength, hsum, hone, hchunks⟩ := exists_chunks_eq_max hs hF h.files_le
    rw [← hchunks]
    exact hall ⟨xs, hlength, hsum, hone⟩
  · intro hle bs
    have hmin := max_le_chunks hs bs.one_le
    rw [bs.length_eq, bs.sum_eq] at hmin
    exact hle.trans (Int.ofNat_le.2 hmin)

/-- **The reported minimum of mappers is one** iff at every slicing that the module
    examines the estimate is at most the fewest chunks: every file fits in one chunk, or
    the chunks of the even split leave fewer places free than one chunk has. -/
theorem minimumHolds_iff (B F : ℕ) (M : ℤ) (mode : String) :
    MinimumHolds B F M mode ↔ ∀ s, Examined B F M mode s → LeastEstimate B F s := by
  constructor
  · intro hmin s hs
    rw [← hs.reported_le_iff]
    intro bs
    have hm := getMappers_of_searches hs.searches
    exact hmin _ hm bs _ ((mem_stdout_atLeast hm).2 ⟨s, hs, rfl, rfl⟩)
  · intro hleast m hm bs line hline
    cases line with
    | atLeast s e =>
      obtain ⟨t, ht, rfl, rfl⟩ := (mem_stdout_atLeast hm).1 hline
      exact ht.reported_le_iff.2 (hleast t ht) bs
    | chosen s e =>
      intro henough
      rcases mem_stdout_chosen hm hline with ⟨rfl, rfl⟩ | ⟨t, ht, rfl, rfl⟩
      · -- the base slicing has a chunk for every block
        have hone : chunks bs.counts (1 : ℤ).toNat = B := (chunks_one bs.counts).trans bs.sum_eq
        rw [hone]
        exact henough
      · exact henough.trans (ht.reported_le_iff.2 (hleast t ht) bs)

end

/-- Six blocks in two files for four mappers: slicing 2 is chosen with a minimum of
    four, but files of two and four blocks have three chunks. -/
theorem minimum_not_reached : ¬ MinimumHolds 6 2 4 "best-effort" ∧
    getMappers (6 : ℕ) (2 : ℕ) 4 "best-effort" = .ok ⟨2, [.atLeast 2 4, .chosen 2 4]⟩ ∧
    chunks [2, 4] 2 = 3 := by
  have hm : getMappers (6 : ℕ) (2 : ℕ) 4 "best-effort" = .ok ⟨2, [.atLeast 2 4, .chosen 2 4]⟩ := by
    decide +kernel
  have hchunks : chunks [2, 4] 2 = 3 := by decide
  refine ⟨?_, hm, hchunks⟩
  intro hmin
  have hline := hmin _ hm ⟨[2, 4], rfl, rfl, by decide⟩ (.atLeast 2 4) List.mem_cons_self
  have hle : (4 : ℤ) ≤ ((3 : ℕ) : ℤ) := hchunks ▸ hline
  omega

end ServerlessYarn
