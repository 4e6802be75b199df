/-
  ServerlessYARN model — is the block-parallel copy exact?

  The path of the source is compared with the paths of its files as it was given.
  If it is relative, it is not a prefix of them, and a file in a subdirectory goes
  to the top of the destination.

  * `exact_of_direct`: a copy in which every file goes to its place is exact;
  * `copy_exact_iff`: which is so iff the path is absolute or there are no
    subdirectories, unless the map tasks cannot all succeed.
-/
import ServerlessYarn.CopyJob

namespace ServerlessYarn

/-! ## Exact copies -/

/-- There are no chunks in the destination, and no directory where a file goes. -/
structure Clean (conf : CopyConf) (src : SourceTree) (dst : FileMap) : Prop where
  no_chunk : ∀ path ∈ dst.keys, conf.dstDir <+: path → ¬ ".copying.".toList <+: (path.getLastD "").toList
  no_directory : ∀ file ∈ src.files.keys, ¬ dst.IsDirectory (conf.dstDir ++ file)

/-- The files of the source are in their places, and nothing else has changed. -/
structure ExactCopy (conf : CopyConf) (src : SourceTree) (dst fs : FileMap) : Prop where
  copied : ∀ file bytes, src.files.get? file = some bytes → fs.get? (conf.dstDir ++ file) = some bytes
  untouched : ∀ path, (∀ file ∈ src.files.keys, path ≠ conf.dstDir ++ file) → fs.get? path = dst.get? path
  no_chunk : ∀ path ∈ fs.keys, conf.dstDir <+: path → ¬ ".copying.".toList <+: (path.getLastD "").toList

section exact
variable {conf : CopyConf} {src : SourceTree} {lens : List String → List ℕ} {dst mid : FileMap}

theorem Clean.no_part (h : Clean conf src dst) (finalPath p : List String) :
    ¬ Part conf dst finalPath p := by
  rintro ⟨hp, hdir, hchunk⟩
  exact h.no_chunk p hp hdir hchunk.copying

theorem Clean.wellNamed (h : Clean conf src dst) : WellNamed conf dst :=
  fun p hp hdir hcopying => absurd hcopying (h.no_chunk p hp hdir)

/-- The place of a file does not look like a chunk. -/
theorem place_not_copying (conf : CopyConf) {file : List String} (hfile : file ∈ src.files.keys) :
    ¬ ".copying.".toList <+: ((conf.dstDir ++ file).getLastD "").toList := by
  have hne := src.nonempty file hfile
  have hlast : (conf.dstDir ++ file).getLastD "" = file.getLastD "" := by
    simp [List.getLastD_eq_getLast?, List.getLast?_append_of_ne_nil _ hne]
  rw [hlast]
  rintro ⟨rest, hrest⟩
  refine (src.visible file hfile _ (getLastD_mem hne)).2.1 ?_
  rw [← hrest]
  rfl

/-- A path of one name is its name. -/
theorem relative_eq_self_iff {file : List String} (hne : file ≠ []) :
    conf.relative file = file ↔ conf.srcRoot.absolute = true ∨ file.length = 1 := by
  unfold CopyConf.relative
  split_ifs with habsolute
  · simp [habsolute]
  · rw [or_iff_right habsolute]
    constructor
    · intro heq
      rw [← heq]
      rfl
    · intro hlen
      obtain ⟨n, rfl⟩ := List.length_eq_one_iff.1 hlen
      rfl

/-- A chunk lies below a file of the source only if the files do not make a tree. -/
theorem place_not_prefix_chunkPath (hdirect : ∀ file ∈ src.files.keys, conf.relative file = file)
    {file file' : List String} (hfile : file ∈ src.files.keys) (hfile' : file' ∈ src.files.keys)
    {start : ℕ} (hne : conf.dstDir ++ file ≠ conf.chunkPath file' start) :
    ¬ conf.dstDir ++ file <+: conf.chunkPath file' start := by
  intro hpre
  unfold CopyConf.chunkPath at hpre hne
  rcases List.prefix_concat_iff.1 hpre with heq | hdir
  · exact hne heq
  rw [List.prefix_append_right_inj, hdirect file' hfile'] at hdir
  have hsame := src.tree file hfile file' hfile' (hdir.trans (List.dropLast_prefix file'))
  have hlen := hdir.length_le
  have hpos := List.length_pos_of_ne_nil (src.nonempty file' hfile')
  rw [hsame, List.length_dropLast] at hlen
  omega

/-- If every file goes to its place, the copy is exact. -/
theorem exact_of_direct (hdirect : ∀ file ∈ src.files.keys, conf.relative file = file)
    (hclean : Clean conf src dst) (hcopies : conf.Copies src lens dst mid) {r : Hdfs FileMap}
    (hcommits : conf.Commits src mid r) : ∃ fs, r = .ok fs ∧ ExactCopy conf src dst fs := by
  have h := hcopies.afterMap
  have hplace : ∀ file ∈ src.files.keys, conf.finalPath file = conf.dstDir ++ file := by
    intro file hfile
    unfold CopyConf.finalPath
    rw [hdirect file hfile]
  have hpart : ∀ finalPath p, Part conf mid finalPath p → ∃ t ∈ src.splits lens,
      p = conf.chunkPath t.file t.start ∧ finalPath = conf.finalPath t.file := fun finalPath p hp =>
    (h.part_iff.1 hp).resolve_left (hclean.no_part finalPath p)
  have hdirs : ∀ finalPath p, Part conf mid finalPath p → ¬ mid.IsDirectory finalPath := by
    intro finalPath p hp
    obtain ⟨t, ht, -, rfl⟩ := hpart finalPath p hp
    have hfile := (mem_splits.1 ht).1
    rw [h.isDirectory_iff, hplace t.file hfile]
    rintro (hdir | ⟨t', ht', hpre, hne⟩)
    · exact hclean.no_directory t.file hfile hdir
    · exact place_not_prefix_chunkPath hdirect hfile (mem_splits.1 ht').1 hne hpre
  obtain ⟨fs, rfl, hcommitted⟩ := h.commits_ok hclean.wellNamed hdirs hcommits
  have huntouched : ∀ path, (∀ file ∈ src.files.keys, path ≠ conf.dstDir ++ file) →
      fs.get? path = dst.get? path := by
    intro path hpath
    by_cases hchunk : ∃ t ∈ src.splits lens, path = conf.chunkPath t.file t.start
    · obtain ⟨t, ht, rfl⟩ := hchunk
      rw [hcommitted.gone _ _ (h.part_iff.2 (.inr ⟨t, ht, rfl, rfl⟩))]
      exact (Dict.get?_eq_none_iff.2 (h.can t ht).fresh).symm
    · rw [hcommitted.other path fun finalPath p hp => ?_, h.kept path fun t ht heq => hchunk ⟨t, ht, heq⟩]
      obtain ⟨t, ht, rfl, rfl⟩ := hpart finalPath p hp
      have hfile := (mem_splits.1 ht).1
      exact ⟨fun heq => hpath t.file hfile (heq.trans (hplace t.file hfile)),
        fun heq => hchunk ⟨t, ht, heq⟩⟩
  refine ⟨fs, rfl, fun file bytes hbytes => ?_, huntouched, fun path hpath hdir => ?_⟩
  · have hfile : file ∈ src.files.keys := Dict.mem_keys_of_get? hbytes
    obtain ⟨p, hp⟩ := h.exists_part hfile
    obtain ⟨parts, hparts, hget⟩ := hcommitted.final _ p hp
    have hjoined := (h.joined_eq_iff hbytes hparts).2 fun q hq => absurd hq (hclean.no_part _ q)
    rw [← hplace file hfile, hget, hjoined]
  · by_cases hfile : ∃ file ∈ src.files.keys, path = conf.dstDir ++ file
    · obtain ⟨file, hfile, rfl⟩ := hfile
      exact place_not_copying conf hfile
    · have hkeep := huntouched path fun file hfile' heq => hfile ⟨file, hfile', heq⟩
      rw [Dict.mem_keys_iff, hkeep, ← Dict.mem_keys_iff] at hpath
      exact hclean.no_chunk path hpath hdir

/-! ## Files that go elsewhere -/

theorem relative_relative (conf : CopyConf) (file : List String) :
    conf.relative (conf.relative file) = conf.relative file := by
  unfold CopyConf.relative
  split_ifs <;> rfl

/-- No fresh chunk belongs to the place of a file that goes elsewhere. -/
theorem part_place_iff (h : AfterMap conf src lens dst mid) {file p : List String}
    (helse : conf.relative file ≠ file) :
    Part conf mid (conf.dstDir ++ file) p ↔ Part conf dst (conf.dstDir ++ file) p := by
  rw [h.part_iff, or_iff_left]
  rintro ⟨t, -, -, hfinal⟩
  have heq : file = conf.relative t.file := List.append_cancel_left hfinal
  rw [heq, relative_relative] at helse
  exact helse rfl

/-- Its place is as it was, unless there are chunks for it. -/
theorem place_kept (h : AfterMap conf src lens dst mid) {fs : FileMap}
    (hcommitted : Committed conf mid fs) {file : List String} (hfile : file ∈ src.files.keys)
    (helse : conf.relative file ≠ file) (hnone : ∀ p, ¬ Part conf dst (conf.dstDir ++ file) p) :
    fs.get? (conf.dstDir ++ file) = dst.get? (conf.dstDir ++ file) := by
  have hnot := place_not_copying conf hfile
  have hmid : mid.get? (conf.dstDir ++ file) = dst.get? (conf.dstDir ++ file) := by
    refine h.kept _ fun t ht heq => hnot ?_
    rw [heq]
    exact (chunkOf_chunkPath (mem_splits.1 ht).1 t.start).copying
  rw [← hmid]
  refine hcommitted.other _ fun finalPath p hp => ⟨?_, ?_⟩
  · rintro rfl
    exact hnone p ((part_place_iff h helse).1 hp)
  · intro heq
    rw [heq] at hnot
    exact hnot hp.2.2.copying

/-- One split for each file. -/
def wholeFiles (src : SourceTree) (file : List String) : List ℕ :=
  [((src.files.get? file).getD []).length]

theorem splitLengths_wholeFiles {file : List String} {bytes : Bytes}
    (hbytes : src.files.get? file = some bytes) : SplitLengths bytes (wholeFiles src file) := by
  unfold SplitLengths wholeFiles
  rw [hbytes]
  split_ifs with hnil
  · rw [hnil]
    rfl
  · refine ⟨fun len hlen => ?_, rfl⟩
    rw [List.mem_singleton.1 hlen]
    exact List.length_pos_of_ne_nil hnil

/-- A file that goes elsewhere is missing after a copy to an empty destination. -/
theorem missing_of_elsewhere (hapart : conf.Apart src) {file : List String}
    (hfile : file ∈ src.files.keys) (helse : conf.relative file ≠ file) : ∃ lens dst mid r,
      Clean conf src dst ∧ conf.Copies src lens dst mid ∧ conf.Commits src mid r ∧
      ∀ fs, r = .ok fs → conf.dstDir ++ file ∉ fs.keys := by
  have hdir : ∀ path, ¬ FileMap.IsDirectory Dict.empty path := by
    rintro path ⟨q, hq, -⟩
    cases hq
  have hclean : Clean conf src Dict.empty :=
    ⟨fun _ hp => absurd hp List.not_mem_nil, fun _ _ => hdir _⟩
  have hcan : ∀ t ∈ src.splits (wholeFiles src), conf.CanCreate Dict.empty t :=
    fun t _ => ⟨fun _ hq => absurd hq List.not_mem_nil, hdir _, List.not_mem_nil⟩
  have hcopies := copies_mapped (fun _ _ hbytes => splitLengths_wholeFiles hbytes) hapart hcan
  obtain ⟨r, hcommits⟩ := exists_commits conf src (conf.mapped src (src.splits (wholeFiles src)) .empty)
  refine ⟨wholeFiles src, .empty, _, r, hclean, hcopies, hcommits, ?_⟩
  rintro fs rfl
  have h := hcopies.afterMap
  obtain ⟨-, hcommitted⟩ := h.committed hclean.wellNamed hcommits
  rw [← Dict.get?_eq_none_iff, place_kept h hcommitted hfile helse (hclean.no_part _), Dict.get?_empty]

end exact

/-- **When the copy is exact.** Whatever the block size, the order of the tasks, of the listing and
    of the hash map, and the files of the destination.  Two files that go to the same path have
    the same chunk, which one of their tasks cannot create. -/
theorem copy_exact_iff (conf : CopyConf) (src : SourceTree) :
    (∀ lens dst mid r, Clean conf src dst → conf.Copies src lens dst mid → conf.Commits src mid r →
      ∃ fs, r = .ok fs ∧ ExactCopy conf src dst fs) ↔
    conf.srcRoot.absolute = true ∨ (∀ file ∈ src.files.keys, file.length = 1) ∨ ¬ conf.Apart src := by
  constructor
  · intro hexact
    by_contra hnot
    rw [not_or, not_or, not_not] at hnot
    obtain ⟨hrelative, hnested, hapart⟩ := hnot
    push Not at hnested
    obtain ⟨file, hfile, hlen⟩ := hnested
    have helse : conf.relative file ≠ file := by
      rw [Ne, relative_eq_self_iff (src.nonempty file hfile)]
      exact not_or.2 ⟨hrelative, hlen⟩
    obtain ⟨lens, dst, mid, r, hclean, hcopies, hcommits, hmissing⟩ :=
      missing_of_elsewhere hapart hfile helse
    obtain ⟨fs, hr, hfs⟩ := hexact lens dst mid r hclean hcopies hcommits
    obtain ⟨bytes, hbytes⟩ := Dict.mem_keys_iff.1 hfile
    exact hmissing fs hr (Dict.mem_keys_of_get? (hfs.copied file bytes hbytes))
  · intro hcond lens dst mid r hclean hcopies hcommits
    have hdirect : ∀ file ∈ src.files.keys, conf.relative file = file := by
      intro file hfile
      rw [relative_eq_self_iff (src.nonempty file hfile)]
      rcases hcond with habsolute | hflat | hclash
      · exact .inl habsolute
      · exact .inr (hflat file hfile)
      · exact absurd hcopies.afterMap.apart hclash
    exact exact_of_direct hdirect hclean hcopies hcommits

/-! ## The file `a/b` below `input` -/

theorem isVisible_nested : ∀ n ∈ ["a", "b"], IsVisible n := by
  unfold IsVisible IsName
  decide

theorem mem_keys_one {path p : List String} {bytes : Bytes} :
    p ∈ (Dict.empty.set path bytes : FileMap).keys ↔ p = path := by
  simp [Dict.mem_keys_set]

/-- One file, in a subdirectory. -/
def nestedTree : SourceTree where
  files := Dict.empty.set ["a", "b"] [1]
  nonempty := fun _ hfile hnil => List.cons_ne_nil _ _ ((mem_keys_one.1 hfile).symm.trans hnil)
  visible := fun _ hfile => mem_keys_one.1 hfile ▸ isVisible_nested
  tree := fun _ hfile _ hfile' _ => (mem_keys_one.1 hfile).trans (mem_keys_one.1 hfile').symm

theorem isName_input : ∀ n ∈ ["input"], IsName n := by
  unfold IsName
  decide

/-- The copy of `input` to `/out`. -/
def inputCopy : CopyConf where
  srcRoot := ⟨false, ["input"]⟩
  dstRoot := ⟨true, ["out"]⟩
  srcHome := ["user", "hadoop"]
  dstHome := ["user", "hadoop"]
  srcRoot_names := isName_input
  srcRoot_nonempty := fun _ => List.cons_ne_nil _ _

/-- The copy of `input/a/b` is `/out/b`. -/
theorem nested_file_misplaced : ∃ lens dst mid fs, Clean inputCopy nestedTree dst ∧
    inputCopy.Copies nestedTree lens dst mid ∧ inputCopy.Commits nestedTree mid (.ok fs) ∧
    fs.keys = [["out", "b"]] ∧ ¬ ExactCopy inputCopy nestedTree dst fs := by
  have hperm : [⟨["a", "b"], 0, 1⟩].Perm (nestedTree.splits (wholeFiles nestedTree)) := by
    exact List.Perm.refl _
  refine ⟨wholeFiles nestedTree, .empty,
    Dict.empty.set ["out", ".copying.b.part-000000000000"] [1], Dict.empty.set ["out", "b"] [1],
    ⟨fun _ hp => absurd hp List.not_mem_nil, fun _ _ h => ?_⟩,
    ⟨fullReads, [⟨["a", "b"], 0, 1⟩], ⟨fun _ _ h => splitLengths_wholeFiles h, hperm⟩, rfl⟩,
    ⟨[["out", ".copying.b.part-000000000000"]], id, ⟨List.nodup_singleton _, fun path => ?_⟩,
      fun l => List.Perm.refl l, rfl⟩, rfl, fun hexact => ?_⟩
  · obtain ⟨q, hq, -⟩ := h
    cases hq
  · rw [mem_keys_one, List.mem_singleton]
    refine (and_iff_left_of_imp ?_).symm
    rintro rfl
    exact ⟨[".copying.b.part-000000000000"], rfl⟩
  · have hcopied := hexact.copied ["a", "b"] [1] rfl
    have hmissing : (Dict.empty.set ["out", "b"] [1] : FileMap).get? ["out", "a", "b"] = none := rfl
    rw [show inputCopy.dstDir ++ ["a", "b"] = ["out", "a", "b"] from rfl, hmissing] at hcopied
    cases hcopied

end ServerlessYarn
