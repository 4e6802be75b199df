/-
  ServerlessYARN model — a run of the block-parallel copy.

  * `Copies.afterMap`, `copies_mapped`: when the map tasks can finish, and with
    which files;
  * `AfterMap.part_iff`: the chunks are then the fresh ones and those that were
    there before;
  * `AfterMap.joined_eq_iff`: the chunks of a file make up its bytes iff those that
    were there before are empty.
-/
import ServerlessYarn.CopyAssembly

namespace ServerlessYarn

namespace CopyConf

variable (conf : CopyConf)

/-- The map tasks finish, in some order. -/
def Copies (src : SourceTree) (lens : List String → List ℕ) (dst mid : FileMap) : Prop :=
  ∃ reads tasks, Splits src lens tasks ∧ conf.mapTasks src reads tasks dst = .ok mid

/-- The job is committed, for some orders of the listing and of the hash map. -/
def Commits (src : SourceTree) (mid : FileMap) (r : Hdfs FileMap) : Prop :=
  ∃ listing order, conf.Lists mid listing ∧ (∀ l, (order l).Perm l) ∧
    conf.commitJob src listing order mid = r

end CopyConf

/-- The destination after the map tasks, for the destination before them. -/
structure AfterMap (conf : CopyConf) (src : SourceTree) (lens : List String → List ℕ)
    (dst mid : FileMap) : Prop where
  lengths : ∀ file bytes, src.files.get? file = some bytes → SplitLengths bytes (lens file)
  apart : conf.Apart src
  can : ∀ t ∈ src.splits lens, conf.CanCreate dst t
  fresh : ∀ t ∈ src.splits lens,
    mid.get? (conf.chunkPath t.file t.start) = some (CopyConf.chunkBytes src t)
  kept : ∀ p, (∀ t ∈ src.splits lens, p ≠ conf.chunkPath t.file t.start) → mid.get? p = dst.get? p

section map
variable {conf : CopyConf} {src : SourceTree} {lens : List String → List ℕ} {dst mid : FileMap}

theorem CopyConf.Copies.afterMap (h : conf.Copies src lens dst mid) : AfterMap conf src lens dst mid := by
  obtain ⟨reads, tasks, hsplits, hmap⟩ := h
  have hmem : ∀ t ∈ tasks, t.file ∈ src.files.keys := fun t ht => (hsplits.mem_iff.1 ht).1
  have hdistinct := CopyConf.distinct_of_mapTasks reads hmem hmap
  obtain ⟨hcan, rfl⟩ := (CopyConf.mapTasks_eq_ok reads hmem hdistinct).1 hmap
  have htasks : ∀ t, t ∈ tasks ↔ t ∈ src.splits lens := fun t => hsplits.perm.mem_iff
  refine ⟨hsplits.lengths, CopyConf.apart_of_distinct hsplits hdistinct, fun t ht => ?_, fun t ht => ?_,
    fun p hp => ?_⟩
  · exact hcan t ((htasks t).2 ht)
  · exact CopyConf.mapped_get? hdistinct dst ((htasks t).2 ht)
  · exact CopyConf.mapped_get?_of_notMem fun t ht => hp t ((htasks t).1 ht)

/-- Reads that fill the buffer. -/
def fullReads : Reads := ⟨fun _ _ n => n, fun _ _ _ h => h, fun _ _ _ => le_rfl⟩

/-- The tasks can finish if every chunk can be created. -/
theorem copies_mapped
    (hlens : ∀ file bytes, src.files.get? file = some bytes → SplitLengths bytes (lens file))
    (hapart : conf.Apart src) (hcan : ∀ t ∈ src.splits lens, conf.CanCreate dst t) :
    conf.Copies src lens dst (conf.mapped src (src.splits lens) dst) := by
  have hsplits : Splits src lens (src.splits lens) := ⟨hlens, List.Perm.refl _⟩
  have hmem : ∀ t ∈ src.splits lens, t.file ∈ src.files.keys := fun t ht => (hsplits.mem_iff.1 ht).1
  refine ⟨fullReads, src.splits lens, hsplits, ?_⟩
  exact (CopyConf.mapTasks_eq_ok fullReads hmem (CopyConf.distinct_of_splits hsplits hapart)).2 ⟨hcan, rfl⟩

/-- Some listing and some order exist. -/
theorem exists_commits (conf : CopyConf) (src : SourceTree) (mid : FileMap) :
    ∃ r, conf.Commits src mid r := by
  refine ⟨_, mid.keys.filter (conf.dstDir <+: ·), id, ⟨mid.nodup_keys.filter _, fun p => ?_⟩,
    fun l => List.Perm.refl l, rfl⟩
  rw [List.mem_filter, decide_eq_true_eq]

/-! ## The chunks -/

theorem finalPath_eq {file : List String} (hfile : file ∈ src.files.keys) : conf.finalPath file =
    conf.dstDir ++ (conf.relative file).dropLast ++ [(conf.relative file).getLastD ""] := by
  unfold CopyConf.finalPath
  rw [List.append_assoc, CopyConf.relative_eq hfile]

theorem chunkOf_chunkPath {file : List String} (hfile : file ∈ src.files.keys) (start : ℕ) :
    ChunkOf (conf.finalPath file) (conf.chunkPath file start) := by
  refine ⟨_, _, start, ?_, finalPath_eq hfile, rfl⟩
  exact CopyConf.relative_visible hfile _ (getLastD_mem (conf.relative_ne_nil (src.nonempty file hfile)))

theorem dstDir_prefix_chunkPath (file : List String) (start : ℕ) :
    conf.dstDir <+: conf.chunkPath file start := by
  unfold CopyConf.chunkPath
  rw [List.append_assoc]
  exact List.prefix_append _ _

theorem finalPath_inj (hapart : conf.Apart src) {file file' : List String}
    (hfile : file ∈ src.files.keys) (hfile' : file' ∈ src.files.keys)
    (h : conf.finalPath file = conf.finalPath file') : file = file' :=
  hapart file hfile file' hfile' (List.append_cancel_left h)

namespace AfterMap

theorem mem_keys (h : AfterMap conf src lens dst mid) {p : List String} : p ∈ mid.keys ↔
    (∃ t ∈ src.splits lens, p = conf.chunkPath t.file t.start) ∨ p ∈ dst.keys := by
  by_cases hp : ∃ t ∈ src.splits lens, p = conf.chunkPath t.file t.start
  · obtain ⟨t, ht, rfl⟩ := hp
    exact iff_of_true (Dict.mem_keys_of_get? (h.fresh t ht)) (.inl ⟨t, ht, rfl⟩)
  · rw [or_iff_right hp, Dict.mem_keys_iff, Dict.mem_keys_iff]
    rw [h.kept p fun t ht heq => hp ⟨t, ht, heq⟩]

/-- What was there before is still there. -/
theorem kept_of_mem (h : AfterMap conf src lens dst mid) {p : List String} (hp : p ∈ dst.keys) :
    mid.get? p = dst.get? p := by
  refine h.kept p fun t ht heq => (h.can t ht).fresh ?_
  rw [← heq]
  exact hp

/-- Whatever the order of the tasks. -/
theorem get?_eq (h : AfterMap conf src lens dst mid) {mid' : FileMap}
    (h' : AfterMap conf src lens dst mid') (p : List String) : mid.get? p = mid'.get? p := by
  by_cases hp : ∃ t ∈ src.splits lens, p = conf.chunkPath t.file t.start
  · obtain ⟨t, ht, rfl⟩ := hp
    rw [h.fresh t ht, h'.fresh t ht]
  · have hkeep : ∀ t ∈ src.splits lens, p ≠ conf.chunkPath t.file t.start :=
      fun t ht heq => hp ⟨t, ht, heq⟩
    rw [h.kept p hkeep, h'.kept p hkeep]

/-- The chunks after the map tasks. -/
theorem part_iff (h : AfterMap conf src lens dst mid) {finalPath p : List String} :
    Part conf mid finalPath p ↔ Part conf dst finalPath p ∨
      ∃ t ∈ src.splits lens, p = conf.chunkPath t.file t.start ∧ finalPath = conf.finalPath t.file := by
  unfold Part
  rw [h.mem_keys]
  constructor
  · rintro ⟨⟨t, ht, rfl⟩ | hp, hdir, hchunk⟩
    · have hfile := (mem_splits.1 ht).1
      exact .inr ⟨t, ht, rfl, hchunk.unique (chunkOf_chunkPath hfile t.start)⟩
    · exact .inl ⟨hp, hdir, hchunk⟩
  · rintro (⟨hp, hdir, hchunk⟩ | ⟨t, ht, rfl, rfl⟩)
    · exact ⟨.inr hp, hdir, hchunk⟩
    · exact ⟨.inl ⟨t, ht, rfl⟩, dstDir_prefix_chunkPath _ _, chunkOf_chunkPath (mem_splits.1 ht).1 _⟩

theorem wellNamed (h : AfterMap conf src lens dst mid) (hnamed : WellNamed conf dst) :
    WellNamed conf mid := by
  intro p hp hdir hcopying
  rcases h.mem_keys.1 hp with ⟨t, ht, rfl⟩ | hp
  · exact ⟨_, chunkOf_chunkPath (mem_splits.1 ht).1 _⟩
  · exact hnamed p hp hdir hcopying

/-- Every file of the source has a chunk. -/
theorem exists_part (h : AfterMap conf src lens dst mid) {file : List String}
    (hfile : file ∈ src.files.keys) : ∃ p, Part conf mid (conf.finalPath file) p := by
  obtain ⟨bytes, hbytes⟩ := Dict.mem_keys_iff.1 hfile
  obtain ⟨len, ht⟩ := exists_first hbytes (h.lengths file bytes hbytes)
  exact ⟨_, h.part_iff.2 (.inr ⟨_, ht, rfl, rfl⟩)⟩

theorem isDirectory_iff (h : AfterMap conf src lens dst mid) {path : List String} :
    mid.IsDirectory path ↔ dst.IsDirectory path ∨ ∃ t ∈ src.splits lens,
      path <+: conf.chunkPath t.file t.start ∧ path ≠ conf.chunkPath t.file t.start := by
  unfold FileMap.IsDirectory
  simp only [h.mem_keys]
  constructor
  · rintro ⟨q, ⟨t, ht, rfl⟩ | hq, hbelow⟩
    · exact .inr ⟨t, ht, hbelow⟩
    · exact .inl ⟨q, hq, hbelow⟩
  · rintro (⟨q, hq, hbelow⟩ | ⟨t, ht, hbelow⟩)
    · exact ⟨q, .inr hq, hbelow⟩
    · exact ⟨_, .inl ⟨t, ht, rfl⟩, hbelow⟩

/-! ## The bytes of a file -/

/-- The fresh chunks of a file, in the order of their offsets. -/
theorem filter_fresh (h : AfterMap conf src lens dst mid) {file : List String}
    (hfile : file ∈ src.files.keys) {parts : List (List String)}
    (hparts : OrderedParts conf mid (conf.finalPath file) parts) :
    parts.filter (· ∉ dst.keys) = (consecutive 0 (lens file)).map fun r => conf.chunkPath file r.1 := by
  obtain ⟨bytes, hbytes⟩ := Dict.mem_keys_iff.1 hfile
  have hstart : ∀ start, startOf (conf.chunkPath file start) = start := fun start =>
    startOf_chunkPath _ _ start
  have hinc : ((consecutive 0 (lens file)).map fun r => conf.chunkPath file r.1).Pairwise
      fun p p' => startOf p < startOf p' := by
    refine List.pairwise_map.2 ((consecutive_increasing (h.lengths file bytes hbytes)).imp fun hlt => ?_)
    rw [hstart, hstart]
    exact hlt
  have hinc' : (parts.filter (· ∉ dst.keys)).Pairwise fun p p' => startOf p < startOf p' :=
    hparts.increasing.filter _
  refine eq_of_perm_of_keys ?_ hinc' hinc
  rw [List.perm_ext_iff_of_nodup (hparts.nodup.filter _) (hinc.imp fun hlt heq => ?_)]
  · intro p
    rw [List.mem_filter, hparts.mem_iff, decide_eq_true_eq, List.mem_map]
    constructor
    · rintro ⟨hpart, hp⟩
      rcases h.part_iff.1 hpart with hpart | ⟨t, ht, rfl, hfinal⟩
      · exact absurd hpart.1 hp
      · obtain ⟨hfile', hrange⟩ := mem_splits.1 ht
        obtain rfl := finalPath_inj h.apart hfile hfile' hfinal
        exact ⟨_, hrange, rfl⟩
    · rintro ⟨r, hr, rfl⟩
      have ht : ⟨file, r.1, r.2⟩ ∈ src.splits lens := mem_splits.2 ⟨hfile, hr⟩
      exact ⟨h.part_iff.2 (.inr ⟨_, ht, rfl, rfl⟩), (h.can _ ht).fresh⟩
  · rw [heq] at hlt
    exact lt_irrefl _ hlt

/-- They have its bytes. -/
theorem joined_fresh (h : AfterMap conf src lens dst mid) {file : List String} {bytes : Bytes}
    (hbytes : src.files.get? file = some bytes) :
    joined mid ((consecutive 0 (lens file)).map fun r => conf.chunkPath file r.1) = bytes := by
  have hfile : file ∈ src.files.keys := Dict.mem_keys_of_get? hbytes
  have hchunk : ∀ r ∈ consecutive 0 (lens file),
      (mid.get? (conf.chunkPath file r.1)).getD [] = (bytes.drop r.1).take r.2 := by
    intro r hr
    rw [h.fresh ⟨file, r.1, r.2⟩ (mem_splits.2 ⟨hfile, hr⟩)]
    unfold CopyConf.chunkBytes
    rw [hbytes]
    rfl
  unfold joined
  rw [List.flatMap_map]
  calc
    _ = (consecutive 0 (lens file)).flatMap fun r => (bytes.drop r.1).take r.2 :=
      List.flatMap_congr hchunk
    _ = bytes := consecutive_flatMap (h.lengths file bytes hbytes)

/-- The chunks make up the file iff those that were there before are empty. -/
theorem joined_eq_iff (h : AfterMap conf src lens dst mid) {file : List String} {bytes : Bytes}
    (hbytes : src.files.get? file = some bytes) {parts : List (List String)}
    (hparts : OrderedParts conf mid (conf.finalPath file) parts) :
    joined mid parts = bytes ↔ ∀ p, Part conf dst (conf.finalPath file) p → dst.get? p = some [] := by
  have hfresh := h.filter_fresh (Dict.mem_keys_of_get? hbytes) hparts
  have hjoined := h.joined_fresh hbytes
  rw [← hfresh] at hjoined
  conv_lhs => rw [← hjoined]
  unfold joined
  rw [flatMap_eq_flatMap_filter_iff]
  constructor
  · intro hempty p hp
    have hin : p ∈ parts := (hparts.mem_iff p).2 (h.part_iff.2 (.inl hp))
    have hnil := hempty p hin (decide_eq_false (not_not.2 hp.1))
    obtain ⟨v, hv⟩ := Dict.mem_keys_iff.1 hp.1
    rw [h.kept_of_mem hp.1, hv] at hnil
    rw [hv, ← hnil]
    rfl
  · intro hempty p hp hold
    have hmem : p ∈ dst.keys := not_not.1 (of_decide_eq_false hold)
    obtain ⟨-, hbelow, hchunk⟩ := (hparts.mem_iff p).1 hp
    rw [h.kept_of_mem hmem, hempty p ⟨hmem, hbelow, hchunk⟩]
    rfl

/-! ## The commit -/

theorem commits_ok (h : AfterMap conf src lens dst mid) (hnamed : WellNamed conf dst)
    (hdirs : ∀ finalPath p, Part conf mid finalPath p → ¬ mid.IsDirectory finalPath)
    {r : Hdfs FileMap} (hcommit : conf.Commits src mid r) : ∃ fs, r = .ok fs ∧ Committed conf mid fs := by
  obtain ⟨listing, order, hlisting, horder, rfl⟩ := hcommit
  exact commitJob_ok hlisting (h.wellNamed hnamed) horder (fun file hfile => h.exists_part hfile) hdirs

/-- A commit that succeeds. -/
theorem committed (h : AfterMap conf src lens dst mid) (hnamed : WellNamed conf dst) {fs : FileMap}
    (hcommit : conf.Commits src mid (.ok fs)) :
    (∀ finalPath p, Part conf mid finalPath p → ¬ mid.IsDirectory finalPath) ∧ Committed conf mid fs := by
  have hdirs : ∀ finalPath p, Part conf mid finalPath p → ¬ mid.IsDirectory finalPath := by
    intro finalPath p hp hdir
    obtain ⟨listing, order, hlisting, horder, hok⟩ := hcommit
    obtain ⟨err, herr⟩ := commitJob_error src hlisting (h.wellNamed hnamed) horder
      ⟨finalPath, p, hp, hdir⟩
    rw [herr] at hok
    cases hok
  obtain ⟨fs', heq, hcommitted⟩ := h.commits_ok hnamed hdirs hcommit
  cases heq
  exact ⟨hdirs, hcommitted⟩

end AfterMap

end map

end ServerlessYarn
