/-
  ServerlessYARN model — the slicing that a transfer uses
  (`playbooks/manage_app_on_container.yml`: "Get number of files and blocks to
  transfer", "Calculate mappers").

  The playbook cuts two numbers out of the output of two commands and hands them
  to `get_mappers` by their position.  `hdfs dfs -count` comes first, and its second
  column is the number of files; the module takes it for the number of blocks.

  * `blocksPerChunk_eq`: the call that the playbook makes, with files and blocks
    exchanged;
  * `baseAnswered_iff`: when the module answers with the base slicing;
  * `slicing_iff`: when that gives the slicing of the transfer nevertheless.
-/
import ServerlessYarn.Integers
import ServerlessYarn.SlicingSearch

namespace ServerlessYarn

open Binary64 Chunks

/-! ## The playbook -/

/-- What the two commands print about a path: the lines of `hdfs dfs -count` and
    those of `hdfs fsck`. -/
structure PathReport where
  count : List (List Char)
  fsck : List (List Char)

/-- The fields of a line as `awk` sees them. -/
def awkFields (line : List Char) : List (List Char) :=
  (line.splitOnP fun c => c = ' ' || c = '\t').filter (· ≠ [])

/-- `awk '{print $column}'` -/
def awkPrint (column : ℕ) (lines : List (List Char)) : List (List Char) :=
  lines.map fun line => (awkFields line).getD (column - 1) []

/-- `grep -o 'pattern.*'`: from the first match in a line on. -/
def grepOnly (pattern : List Char) (lines : List (List Char)) : List (List Char) :=
  lines.filterMap fun line => line.tails.find? pattern.isPrefixOf

/-- `data_transfer_info.stdout_lines` -/
def dataTransferInfo (r : PathReport) : List (List Char) :=
  awkPrint 2 r.count ++ awkPrint 4 (grepOnly "Total blocks".toList r.fsck)

/-- `stdout_lines[i]` -/
def stdoutLine (stdout_lines : List (List Char)) (i : ℕ) : Py (List Char) :=
  match stdout_lines[i]? with
  | some line => .ok line
  | none => .error .indexError

/-- `main()` of `get_mappers`, whose numbers arrive as texts. -/
def getMappersMain (decimals : Decimals) (number_of_blocks number_of_files max_mappers : List Char)
    (mode : String) : Py Mappers := do
  let number_of_blocks ← readInt decimals.reader number_of_blocks
  let number_of_files ← readInt decimals.reader number_of_files
  let max_mappers ← readInt decimals.reader max_mappers
  getMappers number_of_blocks number_of_files max_mappers mode

/-- `blocks_per_chunk`, which the playbook passes to distcp. -/
def blocksPerChunk (decimals : Decimals) (r : PathReport) (max_mappers : List Char)
    (mappers_assignation : String) : Py ℤ :=
  if mappers_assignation = "distcp-default" ∨ mappers_assignation = "mapred-default" then
    .ok (if mappers_assignation = "distcp-default" then 0 else 1)
  else do
    let data_transfer_info := dataTransferInfo r
    let number_of_blocks ← stdoutLine data_transfer_info 0
    let number_of_files ← stdoutLine data_transfer_info 1
    let mappers_result ←
      getMappersMain decimals number_of_blocks number_of_files max_mappers mappers_assignation
    return mappers_result.slicing

/-! ## What reaches the module -/

/-- The report of a path with `F` files and `B` blocks: the columns of
    `hdfs dfs -count` are the directories, the files, the size and the path, and
    the line of `hdfs fsck` with `Total blocks` has their number after its label. -/
structure PathReport.Describes (r : PathReport) (F B : ℕ) : Prop where
  count : ∃ line dirs size path, r.count = [line] ∧
    awkFields line = dirs :: Nat.toDigits 10 F :: size :: path
  fsck : ∃ line total blocks label rest, grepOnly "Total blocks".toList r.fsck = [line] ∧
    awkFields line = total :: blocks :: label :: Nat.toDigits 10 B :: rest

theorem dataTransferInfo_eq {r : PathReport} {F B : ℕ} (hr : r.Describes F B) :
    dataTransferInfo r = [Nat.toDigits 10 F, Nat.toDigits 10 B] := by
  obtain ⟨line, dirs, size, path, hcount, hline⟩ := hr.count
  obtain ⟨line', total, blocks, label, rest, hfsck, hline'⟩ := hr.fsck
  rw [dataTransferInfo, hcount, hfsck]
  simp [awkPrint, hline, hline']

/-- **The call that the playbook makes**: the files go where the module expects the
    blocks, and the blocks where it expects the files. -/
theorem blocksPerChunk_eq (decimals : Decimals) {r : PathReport} {F B : ℕ} (hr : r.Describes F B)
    (M : ℕ) {mode : String} (hmode : Computed mode) :
    blocksPerChunk decimals r (Nat.toDigits 10 M) mode = (getMappers F B M mode).map Mappers.slicing := by
  have hnot : ¬ (mode = "distcp-default" ∨ mode = "mapred-default") := by
    rcases hmode with rfl | rfl <;> decide
  rw [blocksPerChunk, if_neg hnot, dataTransferInfo_eq hr]
  simp only [stdoutLine, List.getElem?_cons_zero, List.getElem?_cons_succ, getMappersMain,
    decimals.readInt_toDigits, bind, Except.bind]
  cases getMappers F B M mode <;> rfl

/-! ## The base slicing -/

/-- The search keeps the base slicing: the average converts to a `float`, and no later slicing is
    better by its estimate.  Below `max_mappers` files a better one gives enough mappers, and fewer
    than a mapper for every block; from there on, it gives a multiple of `max_mappers` or comes
    closer to one. -/
def BaseKept (blocks files max_mappers : ℕ) : Prop :=
  Converts ((blocks : ℚ) / files) ∧
    if files < max_mappers then
      ∀ s, 2 ≤ s → s ≤ lastSlicing blocks files → (max_mappers : ℤ) ≤ reported blocks files s →
        (blocks : ℤ) ≤ reported blocks files s
    else blocks % max_mappers = 0 ∨ ∀ s, 2 ≤ s → s ≤ lastSlicing blocks files →
      reported blocks files s % max_mappers ≠ 0 ∧
        reported blocks files s % max_mappers ≤ ((blocks % max_mappers : ℕ) : ℤ)

section
variable {B F M : ℕ}

/-- The base slicing is optimal for the estimates. -/
theorem optimal_one_iff (hMB : M < B) :
    Optimal (reported B F) (lastSlicing B F) F M 1 ↔
      if F < M then ∀ s, 2 ≤ s → s ≤ lastSlicing B F → (M : ℤ) ≤ reported B F s →
        (B : ℤ) ≤ reported B F s
      else B % M = 0 ∨ ∀ s, 2 ≤ s → s ≤ lastSlicing B F →
        reported B F s % M ≠ 0 ∧ reported B F s % M ≤ ((B % M : ℕ) : ℤ) := by
  have hone : 1 ∈ Set.Icc 1 (lastSlicing B F) := ⟨le_rfl, one_le_lastSlicing B F⟩
  by_cases hlt : F < M
  · rw [if_pos hlt]
    constructor
    · intro hopt s h2 hs hM
      have hle := (hopt.nearest hlt).le ⟨⟨by omega, hs⟩, hM⟩
      rwa [reported_one] at hle
    · intro hall
      refine ⟨fun _ => ⟨⟨⟨hone, by rw [reported_one]; omega⟩, ?_⟩, fun t ht => ht.1.1.1⟩,
        fun hge => by omega, fun hge => by omega⟩
      rintro t ⟨⟨ht, ht'⟩, hM⟩
      rcases ht.eq_or_lt with rfl | h2
      · exact le_rfl
      · rw [reported_one]
        exact hall t h2 ht' hM
  · rw [if_neg hlt]
    by_cases hzero : B % M = 0
    · -- the base slicing is a multiple, and the first one
      have hdvd : (M : ℤ) ∣ reported B F 1 := by
        rw [reported_one]
        exact Int.natCast_dvd_natCast.2 (Nat.dvd_of_mod_eq_zero hzero)
      refine iff_of_true ⟨fun h => absurd h hlt, fun _ _ => ⟨⟨hone, hdvd⟩, fun t ht => ht.1.1⟩, ?_⟩
        (.inl hzero)
      intro _ hnone
      exact absurd hdvd (hnone 1 hone)
    · have hbase : reported B F 1 % M = ((B % M : ℕ) : ℤ) := by rw [reported_one, Int.natCast_mod]
      have hne : ¬ (M : ℤ) ∣ reported B F 1 := by
        rw [reported_one, Int.natCast_dvd_natCast]
        exact fun hdvd => hzero (Nat.mod_eq_zero_of_dvd hdvd)
      rw [or_iff_right hzero]
      constructor
      · intro hopt
        have hnone : ∀ t ∈ Set.Icc 1 (lastSlicing B F), ¬ (M : ℤ) ∣ reported B F t := by
          intro t ht hdvd
          exact hne (hopt.multiple (not_lt.1 hlt) ⟨t, ht, hdvd⟩).1.2
        intro s h2 hs
        refine ⟨fun h0 => hnone s ⟨by omega, hs⟩ (Int.dvd_of_emod_eq_zero h0), ?_⟩
        have hle := OrderDual.toDual_le_toDual.1
          ((hopt.mostLeft (not_lt.1 hlt) hnone).le (j := s) ⟨by omega, hs⟩)
        rwa [hbase] at hle
      · intro hall
        have hnone : ∀ t ∈ Set.Icc 1 (lastSlicing B F), ¬ (M : ℤ) ∣ reported B F t := by
          rintro t ⟨ht, ht'⟩ hdvd
          rcases ht.eq_or_lt with rfl | h2
          · exact hne hdvd
          · exact (hall t h2 ht').1 (Int.emod_eq_zero_of_dvd hdvd)
        refine ⟨fun h => absurd h hlt, ?_, fun _ _ => ⟨⟨hone, ?_⟩, fun t ht => ht.1.1⟩⟩
        · rintro _ ⟨t, ht, hdvd⟩
          exact absurd hdvd (hnone t ht)
        · rintro t ⟨ht, ht'⟩
          rcases ht.eq_or_lt with rfl | h2
          · exact le_rfl
          · refine OrderDual.toDual_le_toDual.2 ?_
            rw [hbase]
            exact (hall t h2 ht').2

/-- With at most as many blocks as files there is nothing to slice. -/
theorem BaseKept.of_le (hF : 0 < F) (hlt : ¬ F < M) (hle : B ≤ F) : BaseKept B F M := by
  refine ⟨?_, ?_⟩
  · rw [Converts, abs_of_nonneg (nearest_nonneg (by positivity))]
    exact (avgBlocks_le_one hF hle).trans_lt (one_lt_pow₀ one_lt_two (by norm_num))
  · rw [if_neg hlt]
    refine .inr fun s h2 hs => ?_
    rw [lastSlicing_of_le hF hle] at hs
    omega

/-- The modes without a default answer search if there are more blocks than mappers. -/
theorem searched_of_not_default {mode : String} (hmode : Computed mode)
    (h : ¬ (mode = "best-effort" ∧ M ≤ F ∨ mode = "nearest-multiple" ∧ F = M)) : Searched F M mode := by
  obtain ⟨hbest, hnearest⟩ := not_or.1 h
  rcases hmode with rfl | rfl
  · exact .inl ⟨.inl rfl, not_le.1 fun hle => hbest ⟨rfl, hle⟩⟩
  · rcases lt_trichotomy F M with hlt | heq | hgt
    · exact .inl ⟨.inr rfl, hlt⟩
    · exact absurd ⟨rfl, heq⟩ hnearest
    · exact .inr ⟨rfl, hgt⟩

/-- Few blocks get the base slicing. -/
theorem getMappers_of_le (hF : 0 < F) (hB : 0 < B) {mode : String} (hmode : Computed mode)
    (h : ¬ (mode = "best-effort" ∧ M ≤ F ∨ mode = "nearest-multiple" ∧ F = M)) (hle : B ≤ M) :
    getMappers B F M mode = .ok ⟨1, []⟩ := by
  rw [getMappers_of_not_default hF hB hmode h, if_pos hle]

/-- An answer that is not the default is at least the base slicing. -/
theorem one_le_slicing (hF : 0 < F) (hB : 0 < B) (hM : 0 < M) {mode : String} (hmode : Computed mode)
    (h : ¬ (mode = "best-effort" ∧ M ≤ F ∨ mode = "nearest-multiple" ∧ F = M)) {m : Mappers}
    (hm : getMappers B F M mode = .ok m) : 1 ≤ m.slicing := by
  rcases le_or_gt B M with hle | hgt
  · rw [getMappers_of_le hF hB hmode h hle] at hm
    rw [← Except.ok.inj hm]
  · have hsearch := searched_of_not_default hmode h
    by_cases hconv : Converts ((B : ℚ) / F)
    · obtain ⟨m', s, hm', hs, hopt⟩ := getMappers_reported hF hM hgt hsearch hconv
      obtain rfl : m = m' := Except.ok.inj (hm.symm.trans hm')
      have hone : 1 ≤ s := by
        rcases lt_or_ge F M with hlt | hge
        · exact (hopt.nearest hlt).mem.1.1
        · by_cases hsome : ∃ t ∈ Set.Icc 1 (lastSlicing B F), (M : ℤ) ∣ reported B F t
          · exact (hopt.multiple hge hsome).1.1.1
          · exact (hopt.mostLeft hge fun t ht hdvd => hsome ⟨t, ht, hdvd⟩).mem.1
      rw [hs]
      exact_mod_cast hone
    · rw [getMappers_overflow hF hgt hsearch hconv] at hm
      cases hm

/-- **The base slicing is the answer** in mode nearest-multiple for few blocks, or when the search
    keeps it. -/
theorem baseAnswered_iff (hF : 0 < F) (hB : 0 < B) (hM : 0 < M) (hne : F ≠ M) :
    (∃ m, getMappers B F M "nearest-multiple" = .ok m ∧ m.slicing = 1) ↔ B ≤ M ∨ BaseKept B F M := by
  have hnot : ¬ ("nearest-multiple" = "best-effort" ∧ M ≤ F ∨
      "nearest-multiple" = "nearest-multiple" ∧ F = M) := by
    simp [hne]
  rcases le_or_gt B M with hle | hgt
  · exact iff_of_true ⟨_, getMappers_of_le hF hB (.inr rfl) hnot hle, rfl⟩ (.inl hle)
  rw [or_iff_right (not_le.2 hgt), BaseKept, ← optimal_one_iff hgt]
  have hsearch := searched_of_not_default (.inr rfl) hnot
  by_cases hconv : Converts ((B : ℚ) / F)
  · obtain ⟨m, s, hm, hs, hopt⟩ := getMappers_reported hF hM hgt hsearch hconv
    rw [and_iff_right hconv]
    constructor
    · rintro ⟨m', hm', hone⟩
      obtain rfl : m = m' := Except.ok.inj (hm.symm.trans hm')
      obtain rfl : s = 1 := by
        rw [hs] at hone
        exact_mod_cast hone
      exact hopt
    · intro hbase
      obtain rfl := hopt.unique hbase
      exact ⟨m, hm, hs⟩
  · refine iff_of_false ?_ fun h => hconv h.1
    rintro ⟨m, hm, -⟩
    rw [getMappers_overflow hF hgt hsearch hconv] at hm
    cases hm

end

/-! ## When the slicing is the specified one -/

/-- What the playbook passes to distcp is what `get_mappers` gives for the path. -/
def SlicedAsSpecified (decimals : Decimals) (r : PathReport) (B F M : ℕ) (mode : String) : Prop :=
  ∃ m, getMappers B F M mode = .ok m ∧
    blocksPerChunk decimals r (Nat.toDigits 10 M) mode = .ok m.slicing

/-- Exchanging files and blocks does not change the slicing.  In mode best-effort
    both or neither reach `max_mappers`.  In mode nearest-multiple both equal it, or
    neither does and both are below it or the larger number spread over the smaller
    one keeps the base slicing. -/
def ExchangeHarmless (B F M : ℕ) (mode : String) : Prop :=
  if mode = "best-effort" then M ≤ F ↔ M ≤ B
  else (F = M ∧ B = M) ∨
    (F ≠ M ∧ B ≠ M ∧ (max F B < M ∨ BaseKept (max F B) (min F B) M))

/-- The module gives the same slicing when blocks and files are exchanged. -/
def SameSlicing (B F M : ℕ) (mode : String) : Prop :=
  ∃ m m', getMappers B F M mode = .ok m ∧ getMappers F B M mode = .ok m' ∧ m'.slicing = m.slicing

theorem SameSlicing.symm {B F M : ℕ} {mode : String} (h : SameSlicing B F M mode) :
    SameSlicing F B M mode := by
  obtain ⟨m, m', hm, hm', heq⟩ := h
  exact ⟨m', m, hm', hm, heq.symm⟩

/-- The default is not the answer of the exchanged call. -/
theorem SameSlicing.default {B F M : ℕ} (hF : 0 < F) (hB : 0 < B) (hM : 0 < M) {mode : String}
    (hmode : Computed mode) (h : SameSlicing B F M mode)
    (hdefault : mode = "best-effort" ∧ M ≤ F ∨ mode = "nearest-multiple" ∧ F = M) :
    mode = "best-effort" ∧ M ≤ B ∨ mode = "nearest-multiple" ∧ B = M := by
  obtain ⟨m, m', hm, hm', heq⟩ := h
  by_contra hnot
  have hone := one_le_slicing hB hF hM hmode hnot hm'
  rw [getMappers_default hF hB hdefault] at hm
  rw [heq, ← Except.ok.inj hm] at hone
  exact absurd hone (by decide)

theorem bestEffort_exchange {B F M : ℕ} (hB : 0 < B) (hF : 0 < F) (hM : 0 < M) :
    SameSlicing B F M "best-effort" ↔ (M ≤ F ↔ M ≤ B) := by
  have hside : ∀ {b f : ℕ}, 0 < f → 0 < b → SameSlicing b f M "best-effort" → M ≤ f → M ≤ b := by
    intro b f hf hb h hle
    rcases h.default hf hb hM (.inl rfl) (.inl ⟨rfl, hle⟩) with ⟨-, hle'⟩ | ⟨h, -⟩
    · exact hle'
    · exact absurd h (by decide)
  constructor
  · intro h
    exact ⟨hside hF hB h, hside hB hF h.symm⟩
  · intro h
    by_cases hMF : M ≤ F
    · exact ⟨_, _, getMappers_default hF hB (.inl ⟨rfl, hMF⟩),
        getMappers_default hB hF (.inl ⟨rfl, h.1 hMF⟩), rfl⟩
    · have hMB : ¬ M ≤ B := fun hle => hMF (h.2 hle)
      exact ⟨_, _, getMappers_of_le hF hB (.inl rfl) (by simp [hMF]) (by omega),
        getMappers_of_le hB hF (.inl rfl) (by simp [hMB]) (by omega), rfl⟩

/-- The call with at most as many blocks as files answers 1, so the two calls agree
    if the other one does. -/
theorem nearestMultiple_ordered {b f M : ℕ} (hf : 0 < f) (hle : f ≤ b) (hM : 0 < M) (hfM : f ≠ M)
    (hbM : b ≠ M) : SameSlicing b f M "nearest-multiple" ↔ b < M ∨ BaseKept b f M := by
  have hb : 0 < b := hf.trans_le hle
  obtain ⟨m', hm', hone⟩ : ∃ m', getMappers f b M "nearest-multiple" = .ok m' ∧ m'.slicing = 1 := by
    refine (baseAnswered_iff hb hf hM hbM).2 ?_
    rcases le_or_gt f M with hfM' | hfM'
    · exact .inl hfM'
    · exact .inr (BaseKept.of_le hb (by omega) hle)
  have hlt : b < M ↔ b ≤ M := by omega
  rw [hlt, ← baseAnswered_iff hf hb hM hfM]
  constructor
  · rintro ⟨m, m₁, hm, hm₁, heq⟩
    obtain rfl : m' = m₁ := Except.ok.inj (hm'.symm.trans hm₁)
    exact ⟨m, hm, heq ▸ hone⟩
  · rintro ⟨m, hm, hmone⟩
    exact ⟨m, m', hm, hm', hone.trans hmone.symm⟩

theorem nearestMultiple_exchange {B F M : ℕ} (hB : 0 < B) (hF : 0 < F) (hM : 0 < M) :
    SameSlicing B F M "nearest-multiple" ↔ (F = M ∧ B = M) ∨
      (F ≠ M ∧ B ≠ M ∧ (max F B < M ∨ BaseKept (max F B) (min F B) M)) := by
  have hside : ∀ {b f : ℕ}, 0 < f → 0 < b → SameSlicing b f M "nearest-multiple" → f = M → b = M := by
    intro b f hf hb h heq
    rcases h.default hf hb hM (.inr rfl) (.inr ⟨rfl, heq⟩) with ⟨h, -⟩ | ⟨-, heq'⟩
    · exact absurd h (by decide)
    · exact heq'
  by_cases hFM : F = M
  · constructor
    · intro h
      exact .inl ⟨hFM, hside hF hB h hFM⟩
    · rintro (⟨-, hBM⟩ | ⟨hne, -⟩)
      · exact ⟨_, _, getMappers_default hF hB (.inr ⟨rfl, hFM⟩),
          getMappers_default hB hF (.inr ⟨rfl, hBM⟩), rfl⟩
      · exact absurd hFM hne
  by_cases hBM : B = M
  · refine iff_of_false (fun h => hFM (hside hB hF h.symm hBM)) ?_
    rintro (⟨hF', -⟩ | ⟨-, hne, -⟩)
    · exact hFM hF'
    · exact hne hBM
  simp only [hFM, hBM, false_and, false_or, ne_eq, not_false_eq_true, true_and]
  rcases le_total F B with hle | hle
  · rw [max_eq_right hle, min_eq_left hle]
    exact nearestMultiple_ordered hF hle hM hFM hBM
  · rw [max_eq_left hle, min_eq_right hle, ← nearestMultiple_ordered hB hle hM hBM hFM]
    exact ⟨SameSlicing.symm, SameSlicing.symm⟩

/-- **The slicing is the specified one exactly when the exchange is harmless.** -/
theorem slicing_iff (decimals : Decimals) {r : PathReport} {B F M : ℕ} {mode : String}
    (hr : r.Describes F B) (hB : 1 ≤ B) (hF : 1 ≤ F) (hM : 1 ≤ M)
    (hmode : mode = "best-effort" ∨ mode = "nearest-multiple") :
    SlicedAsSpecified decimals r B F M mode ↔ ExchangeHarmless B F M mode := by
  have hsame : SlicedAsSpecified decimals r B F M mode ↔ SameSlicing B F M mode := by
    rw [SlicedAsSpecified, SameSlicing, blocksPerChunk_eq decimals hr M hmode]
    refine exists_congr fun m => ?_
    rw [exists_and_left]
    refine and_congr_right fun _ => ?_
    cases getMappers F B M mode with
    | ok m' => simp [Except.map]
    | error err => simp [Except.map]
  rw [hsame]
  rcases hmode with rfl | rfl
  · rw [ExchangeHarmless, if_pos rfl]
    exact bestEffort_exchange hB hF hM
  · rw [ExchangeHarmless, if_neg (by decide)]
    exact nearestMultiple_exchange hB hF hM

/-- The report of a path with 4 files and 12 blocks. -/
def fourFilesReport : PathReport where
  count := ["           2            4         1509949440 /data/input".toList]
  fsck := ["Status: HEALTHY".toList, " Total size:	1509949440 B".toList,
    " Total blocks (validated):	12 (avg. block size 125829120 B)".toList]

/-- The report of a path with one file of 5 blocks. -/
def oneFileReport : PathReport where
  count := ["           0            1          655360000 /data/input".toList]
  fsck := ["Status: HEALTHY".toList, " Total size:	655360000 B".toList,
    " Total blocks (validated):	5 (avg. block size 131072000 B)".toList]

theorem fourFilesReport_describes : fourFilesReport.Describes 4 12 where
  count := ⟨_, _, _, _, rfl, rfl⟩
  fsck := ⟨_, _, _, _, _, rfl, rfl⟩

theorem oneFileReport_describes : oneFileReport.Describes 1 5 where
  count := ⟨_, _, _, _, rfl, rfl⟩
  fsck := ⟨_, _, _, _, _, rfl, rfl⟩

/-- Four files and twelve blocks are sliced as specified for four mappers. -/
theorem slicing_iff_fourFiles : SlicedAsSpecified asciiDecimals fourFilesReport 12 4 4 "best-effort" :=
  (slicing_iff asciiDecimals fourFilesReport_describes (by decide) (by decide) (by decide)
    (Or.inl rfl)).2 ((if_pos rfl).mpr (by decide))

theorem exists_of_map_slicing {x : Py Mappers} {z : ℤ} (h : x.map Mappers.slicing = .ok z) :
    ∃ m, x = .ok m ∧ m.slicing = z := by
  cases x with
  | ok m => exact ⟨m, rfl, Except.ok.inj h⟩
  | error e => cases h

/-- **One file of five blocks for two mappers**: `get_mappers` slices it by 3, the
    playbook does not slice it. -/
theorem oneFile_unsliced : oneFileReport.Describes 1 5 ∧
    blocksPerChunk asciiDecimals oneFileReport (Nat.toDigits 10 2) "best-effort" = .ok 0 ∧
    (∃ m, getMappers 5 1 2 "best-effort" = .ok m ∧ m.slicing = 3) ∧
    ¬ SlicedAsSpecified asciiDecimals oneFileReport 5 1 2 "best-effort" := by
  obtain ⟨m, hm, hthree⟩ := exists_of_map_slicing (x := getMappers 5 1 2 "best-effort")
    (z := 3) (by decide +kernel)
  have hpassed : blocksPerChunk asciiDecimals oneFileReport (Nat.toDigits 10 2) "best-effort" = .ok 0 := by
    rw [blocksPerChunk_eq asciiDecimals oneFileReport_describes 2 (Or.inl rfl)]
    decide +kernel
  refine ⟨oneFileReport_describes, hpassed, ⟨m, hm, hthree⟩, ?_⟩
  rintro ⟨m', hm', heq⟩
  obtain rfl : m = m' := Except.ok.inj (hm.symm.trans hm')
  rw [hpassed, hthree] at heq
  exact absurd (Except.ok.inj heq) (by decide)

end ServerlessYarn
