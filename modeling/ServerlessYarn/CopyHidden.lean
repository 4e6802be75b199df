/-
  ServerlessYARN model — files that the block-parallel copy leaves out.

  The input format skips hidden names, and the committer only creates empty files.

  * `Succeeds.cases`: a job that succeeds, in the terms of the files that are not
    skipped;
  * `createEmpty_run`: which empty files the committer creates;
  * `all_copied_iff`: every file is copied iff those that are skipped are empty, or
    were there before; the mapper and the committer agree on where a file goes, unless
    the root is a file with an absolute path.
-/
import ServerlessYarn.CopySource

namespace ServerlessYarn
namespace Source

variable {conf : CopyConf}

/-! ## Jobs -/

/-- A job that reports success.  The input format finds nothing if the root itself is hidden. -/
structure Succeeds (src : Source conf) (lens : List String → List ℕ) (dst fs : FileMap) : Prop where
  root_visible : ¬ IsHidden (conf.srcDir.getLastD "")
  run : ∃ reads tasks mid listing order, Splits src.visible lens tasks ∧
    tasks.foldlM (fun dst split => src.map false reads split dst) dst = .ok mid ∧
    conf.Lists mid listing ∧ (∀ l, (order l).Perm l) ∧ src.commitJob listing order mid = .ok fs

/-- Every file is present at the destination with its bytes. -/
def AllCopied (src : Source conf) (fs : FileMap) : Prop :=
  ∀ file bytes, src.files.get? file = some bytes → fs.get? (conf.dstDir ++ file) = some bytes

/-- The mapper and the committer agree on the path below the destination. -/
def RelativesAgree (src : Source conf) : Prop :=
  ∀ file ∈ src.files.keys, HdfsPath.parse (makeRelative conf.srcRoot (src.path file)) =
    makeRelativePath conf.srcRoot (src.path file)

theorem relativesAgree_iff (src : Source conf) : src.RelativesAgree ↔ ¬ src.IsAbsoluteFile := by
  constructor
  · intro hagree habs
    have hfile : [conf.srcDir.getLastD ""] ∈ src.files.keys := by
      rw [(src.root habs.1).2]
      exact List.mem_singleton_self _
    have heq := hagree _ hfile
    rw [src.parse_absoluteFile habs, src.makeRelativePath_eq hfile] at heq
    cases heq
  · intro habs file hfile
    rw [src.parse_makeRelative habs hfile, src.makeRelativePath_eq hfile]

section job
variable {src : Source conf} {lens : List String → List ℕ} {dst fs : FileMap}

/-- A root that is a file is not skipped, and then there is a task. -/
theorem Succeeds.not_absoluteFile (h : src.Succeeds lens dst fs) : ¬ src.IsAbsoluteFile := by
  intro habs
  obtain ⟨reads, tasks, mid, listing, order, hsplits, hmap, -⟩ := h.run
  have hkeys := (src.root habs.1).2
  have hfile : [conf.srcDir.getLastD ""] ∈ src.visible.files.keys := by
    refine src.mem_inputFiles.2 ⟨by rw [hkeys]; exact List.mem_singleton_self _, fun n hn => ?_⟩
    rw [List.mem_singleton.1 hn]
    exact h.root_visible
  obtain ⟨bytes, hbytes⟩ := Dict.mem_keys_iff.1 hfile
  obtain ⟨len, hfirst⟩ := exists_first hbytes (hsplits.lengths _ _ hbytes)
  rcases tasks with _ | ⟨t, tasks⟩
  · cases hsplits.perm.mem_iff.2 hfirst
  · rw [List.foldlM_cons, hdfs_bind_eq_ok] at hmap
    obtain ⟨dst', hmap, -⟩ := hmap
    exact src.mapWriting_absoluteFile habs false reads t id dst dst' hmap

/-- The map tasks are those of the files that are not skipped. -/
theorem mapTasks_eq (habs : ¬ src.IsAbsoluteFile) (reads : Reads) {tasks : List FileSplit}
    (htasks : ∀ t ∈ tasks, t.file ∈ src.visible.files.keys) (dst : FileMap) :
    tasks.foldlM (fun dst split => src.map false reads split dst) dst =
      conf.mapTasks src.visible reads tasks dst := by
  induction tasks generalizing dst with
  | nil => rfl
  | cons t tasks ih =>
    rw [List.forall_mem_cons] at htasks
    unfold CopyConf.mapTasks at ih ⊢
    rw [List.foldlM_cons, List.foldlM_cons, src.map_eq_map habs reads htasks.1]
    congr 1
    funext dst'
    exact ih htasks.2 dst'

/-- **A job that succeeds**: its chunks are put together, and then empty files are created. -/
theorem Succeeds.cases (h : src.Succeeds lens dst fs) (hnamed : WellNamed conf dst) :
    ∃ mid fs₁, AfterMap conf src.visible lens dst mid ∧ Committed conf mid fs₁ ∧
      src.files.entries.foldlM src.createEmpty fs₁ = .ok fs := by
  obtain ⟨reads, tasks, mid, listing, order, hsplits, hmap, hlisting, horder, hcommit⟩ := h.run
  have htasks : ∀ t ∈ tasks, t.file ∈ src.visible.files.keys := fun t ht => (hsplits.mem_iff.1 ht).1
  rw [mapTasks_eq h.not_absoluteFile reads htasks] at hmap
  have hcopies : conf.Copies src.visible lens dst mid := ⟨reads, tasks, hsplits, hmap⟩
  have hafter := hcopies.afterMap
  have hmid := hafter.wellNamed hnamed
  unfold commitJob at hcommit
  by_cases hdirs : ∃ finalPath p, Part conf mid finalPath p ∧ mid.IsDirectory finalPath
  · obtain ⟨chunks, err, hchunks, herr⟩ := assembleChunks_error hlisting hmid horder hdirs
    rw [hchunks] at hcommit
    simp only [bind, Except.bind] at hcommit herr
    rw [herr] at hcommit
    cases hcommit
  · push Not at hdirs
    obtain ⟨chunks, fs₁, hchunks, hloop, hcommitted⟩ := assembleChunks_ok hlisting hmid horder hdirs
    refine ⟨mid, fs₁, hafter, hcommitted, ?_⟩
    rw [hchunks] at hcommit
    simp only [bind, Except.bind] at hcommit hloop
    rwa [hloop] at hcommit

end job

/-! ## The empty files -/

/-- The committer creates a file only if it is empty, and nothing is there. -/
theorem createEmpty_cases (src : Source conf) {e : List String × Bytes} (he : e.1 ∈ src.files.keys)
    {fs fs' : FileMap} (h : src.createEmpty fs e = .ok fs') :
    (e.2 ≠ [] ∨ fs.pathExists (conf.finalPath e.1) = true) ∧ fs' = fs ∨
    (e.2 = [] ∧ fs.pathExists (conf.finalPath e.1) = false) ∧ fs' = fs.set (conf.finalPath e.1) [] := by
  unfold createEmpty at h
  rw [src.makeRelativePath_eq he] at h
  simp only [bind, Except.bind, conf.resolve_qualify, pure, Except.pure] at h
  rw [← CopyConf.finalPath] at h
  split_ifs at h with hlen hexists
  · cases h
    refine .inl ⟨.inl fun hnil => hlen ?_, rfl⟩
    rw [hnil]
    rfl
  · cases h
    exact .inl ⟨.inr hexists, rfl⟩
  · refine .inr ⟨⟨List.length_eq_zero_iff.1 (not_not.1 hlen), by simpa using hexists⟩, ?_⟩
    rcases hmk : fs.mkdirs (conf.finalPath e.1).dropLast with err | fs₁
    · rw [hmk] at h
      cases h
    · rw [hmk] at h
      obtain ⟨-, rfl⟩ := FileMap.mkdirs_eq_ok.1 hmk
      exact (FileMap.create_eq_ok.1 h).2.2

theorem pathExists_iff {fs : FileMap} {path : List String} :
    fs.pathExists path = true ↔ path ∈ fs.keys ∨ fs.IsDirectory path := by
  unfold FileMap.pathExists
  rw [decide_eq_true_eq]

/-- The copies of two files do not lie one below the other. -/
theorem finalPath_tree (src : Source conf) {file file' : List String} (hfile : file ∈ src.files.keys)
    (hfile' : file' ∈ src.files.keys) (hpre : conf.finalPath file <+: conf.finalPath file') :
    conf.finalPath file = conf.finalPath file' := by
  unfold CopyConf.finalPath at hpre ⊢
  rw [List.prefix_append_right_inj] at hpre
  unfold CopyConf.relative at hpre ⊢
  split_ifs at hpre ⊢
  · rw [src.tree file hfile file' hfile' hpre]
  · rw [hpre.eq_of_length rfl]

/-- **The empty files that are created**: those whose place is free. -/
theorem createEmpty_run (src : Source conf) {entries : List (List String × Bytes)}
    (hentries : ∀ e ∈ entries, e.1 ∈ src.files.keys) {fs fs' : FileMap}
    (h : entries.foldlM src.createEmpty fs = .ok fs') (path : List String) :
    (∀ bytes, fs.get? path = some bytes → fs'.get? path = some bytes) ∧
    (fs.get? path = none → ∀ bytes, fs'.get? path = some bytes ↔
      bytes = [] ∧ ¬ fs.IsDirectory path ∧ ∃ e ∈ entries, e.2 = [] ∧ conf.finalPath e.1 = path) := by
  induction entries generalizing fs with
  | nil =>
    cases h
    refine ⟨fun _ => id, fun hnone bytes => ?_⟩
    rw [hnone]
    simp
  | cons e entries ih =>
    rw [List.forall_mem_cons] at hentries
    rw [List.foldlM_cons, hdfs_bind_eq_ok] at h
    obtain ⟨fs₁, hstep, hrest⟩ := h
    obtain ⟨hkept, hcreated⟩ := ih hentries.2 hrest
    simp only [List.exists_mem_cons_iff]
    rcases src.createEmpty_cases hentries.1 hstep with ⟨hskip, rfl⟩ | ⟨⟨hnil, hfree⟩, rfl⟩
    · refine ⟨hkept, fun hnone bytes => (hcreated hnone bytes).trans ?_⟩
      refine and_congr_right fun _ => and_congr_right fun hdir => (or_iff_right ?_).symm
      rintro ⟨hnil, rfl⟩
      rcases hskip with hbytes | hexists
      · exact hbytes hnil
      · rcases pathExists_iff.1 hexists with hin | hdir'
        · exact Dict.get?_eq_none_iff.1 hnone hin
        · exact hdir hdir'
    · rw [← Bool.not_eq_true, pathExists_iff, not_or] at hfree
      by_cases hpath : path = conf.finalPath e.1
      · have hget : (fs.set (conf.finalPath e.1) []).get? path = some [] := by
          rw [hpath, Dict.get?_set_self]
        have hfs' := hkept [] hget
        refine ⟨fun bytes hbytes => ?_, fun _ bytes => ?_⟩
        · rw [hpath] at hbytes
          exact absurd (Dict.mem_keys_of_get? hbytes) hfree.1
        · rw [hfs', Option.some_inj]
          constructor
          · rintro rfl
            exact ⟨rfl, hpath ▸ hfree.2, .inl ⟨hnil, hpath.symm⟩⟩
          · rintro ⟨rfl, -, -⟩
            rfl
      · rw [Dict.get?_set_of_ne _ _ hpath] at hkept hcreated
        refine ⟨hkept, fun hnone bytes => (hcreated hnone bytes).trans ?_⟩
        refine and_congr_right fun _ => ?_
        rw [or_iff_right fun heq => hpath heq.2.symm]
        -- a new file does not make a directory of the place of another one
        constructor
        · rintro ⟨hdir, hexists⟩
          refine ⟨?_, hexists⟩
          rintro ⟨q, hq, hbelow⟩
          exact hdir ⟨q, Dict.mem_keys_set.2 (.inr hq), hbelow⟩
        · rintro ⟨hdir, e', he', hnil', rfl⟩
          refine ⟨?_, e', he', hnil', rfl⟩
          rintro ⟨q, hq, hpre, hne⟩
          rcases Dict.mem_keys_set.1 hq with rfl | hq
          · exact hne (src.finalPath_tree (hentries.2 e' he') hentries.1 hpre)
          · exact hdir ⟨q, hq, hpre, hne⟩

/-! ## What is copied -/

/-- What the committer makes of a path that no task writes to: it takes up the chunks there. -/
def LeftAt (conf : CopyConf) (dst : FileMap) (path : List String) (o : Option Bytes) : Prop :=
  (".copying.".toList <+: (path.getLastD "").toList ∧ o = none) ∨
  (¬ ".copying.".toList <+: (path.getLastD "").toList ∧ Contents conf dst path o)

theorem LeftAt.unique {dst : FileMap} {path : List String} {o o' : Option Bytes}
    (h : LeftAt conf dst path o) (h' : LeftAt conf dst path o') : o = o' := by
  rcases h with ⟨hcopying, rfl⟩ | ⟨hnot, hcontents⟩
  · rcases h' with ⟨-, rfl⟩ | ⟨hnot, -⟩
    · rfl
    · exact absurd hcopying hnot
  · rcases h' with ⟨hcopying, -⟩ | ⟨-, hcontents'⟩
    · exact absurd hcopying hnot
    · exact hcontents.unique hcontents'

/-- A task copies the file to its place. -/
def IsMapped (conf : CopyConf) (file : List String) : Prop :=
  (∀ n ∈ file, ¬ IsHidden n) ∧ conf.relative file = file

/-- The destination before the job makes up for the files that no task copies to their place. -/
structure Covered (src : Source conf) (dst : FileMap) : Prop where
  /-- The chunks that were left for the others are empty. -/
  mapped : ∀ file ∈ src.files.keys, IsMapped conf file →
    ∀ p, Part conf dst (conf.dstDir ++ file) p → dst.get? p = some []
  /-- The file is there already, or it is empty and its place is free. -/
  skipped : ∀ file bytes, src.files.get? file = some bytes → ¬ IsMapped conf file →
    LeftAt conf dst (conf.dstDir ++ file) (some bytes) ∨
    (bytes = [] ∧ conf.relative file = file) ∧
      LeftAt conf dst (conf.dstDir ++ file) none ∧ ¬ dst.IsDirectory (conf.dstDir ++ file)

section copied
variable {src : Source conf} {lens : List String → List ℕ} {dst mid fs₁ : FileMap}

/-- A path that looks like a chunk is free after the commit. -/
theorem get?_copying (hmid : WellNamed conf mid) (hcommitted : Committed conf mid fs₁)
    {path : List String} (hdir : conf.dstDir <+: path)
    (hcopying : ".copying.".toList <+: (path.getLastD "").toList) : fs₁.get? path = none := by
  by_cases hpart : ∃ finalPath, Part conf mid finalPath path
  · obtain ⟨finalPath, hp⟩ := hpart
    exact hcommitted.gone finalPath path hp
  · rw [hcommitted.other path fun finalPath p hp => ⟨?_, ?_⟩, Dict.get?_eq_none_iff]
    · intro hin
      obtain ⟨finalPath, hchunk⟩ := hmid path hin hdir hcopying
      exact hpart ⟨finalPath, hin, hdir, hchunk⟩
    · rintro rfl
      exact hp.2.2.not_copying hcopying
    · rintro rfl
      exact hpart ⟨finalPath, hp⟩

/-- At the place of a file that no task copies to it, only what was left counts. -/
theorem leftAt_place (hnamed : WellNamed conf dst) (h : AfterMap conf src.visible lens dst mid)
    (hcommitted : Committed conf mid fs₁) {file : List String} (hfile : file ∈ src.files.keys)
    (hskip : ¬ IsMapped conf file) :
    LeftAt conf dst (conf.dstDir ++ file) (fs₁.get? (conf.dstDir ++ file)) := by
  by_cases hcopying : ".copying.".toList <+: ((conf.dstDir ++ file).getLastD "").toList
  · refine .inl ⟨hcopying, ?_⟩
    exact get?_copying (h.wellNamed hnamed) hcommitted (List.prefix_append _ _) hcopying
  · have hnot : ∀ finalPath, ¬ Part conf mid finalPath (conf.dstDir ++ file) :=
      not_part_of_not_copying hcopying
    refine .inr ⟨hcopying, (hcommitted.contents hnot).left h (fun q => ?_) hnot⟩
    rw [h.part_iff, or_iff_left]
    rintro ⟨t, ht, -, hfinal⟩
    -- then the file goes to its place, under names that are not hidden
    have heq : file = conf.relative t.file := List.append_cancel_left hfinal
    refine hskip ⟨fun n hn => ?_, by rw [heq, relative_relative]⟩
    rw [heq] at hn
    have hvisible : IsVisible n := CopyConf.relative_visible (mem_splits.1 ht).1 n hn
    rw [← heq] at hn
    exact (isVisible_iff (src.names file hfile n hn)).1 hvisible

/-- No task makes a directory of the place of a file. -/
theorem isDirectory_place (h : AfterMap conf src.visible lens dst mid)
    (hcommitted : Committed conf mid fs₁) {file : List String} (hfile : file ∈ src.files.keys) :
    fs₁.IsDirectory (conf.dstDir ++ file) ↔ dst.IsDirectory (conf.dstDir ++ file) := by
  rw [hcommitted.isDirectory_iff, h.isDirectory_iff, or_iff_left]
  rintro ⟨t, ht, hpre, hne⟩
  have htfile := (src.mem_inputFiles.1 (mem_splits.1 ht).1).1
  unfold CopyConf.chunkPath at hpre hne
  have hdir := (List.prefix_concat_iff.1 hpre).resolve_left hne
  rw [List.prefix_append_right_inj] at hdir
  have hpos := List.length_pos_of_ne_nil (src.nonempty file hfile)
  have hlen := hdir.length_le
  unfold CopyConf.relative at hdir hlen
  split_ifs at hdir hlen
  · have hsame := src.tree file hfile t.file htfile (hdir.trans (List.dropLast_prefix _))
    rw [hsame, List.length_dropLast] at hlen
    rw [hsame] at hpos
    omega
  · simp only [List.dropLast_singleton, List.length_nil] at hlen
    omega

/-- The committer creates an empty file at its place if it goes there. -/
theorem exists_empty_iff {file : List String} (hbytes : src.files.get? file = some []) :
    (∃ e ∈ src.files.entries, e.2 = [] ∧ conf.finalPath e.1 = conf.dstDir ++ file) ↔
      conf.relative file = file := by
  constructor
  · rintro ⟨e, -, -, heq⟩
    have hrel : conf.relative e.1 = file := List.append_cancel_left heq
    rw [← hrel, relative_relative]
  · intro hplace
    refine ⟨(file, []), Dict.get?_eq_some_iff.1 hbytes, rfl, ?_⟩
    unfold CopyConf.finalPath
    rw [hplace]

theorem copied_mapped_iff (h : AfterMap conf src.visible lens dst mid)
    (hcommitted : Committed conf mid fs₁) {fs : FileMap}
    (hcreate : src.files.entries.foldlM src.createEmpty fs₁ = .ok fs) {file : List String}
    {bytes : Bytes} (hbytes : src.files.get? file = some bytes) (hmapped : IsMapped conf file) :
    fs.get? (conf.dstDir ++ file) = some bytes ↔
      ∀ p, Part conf dst (conf.dstDir ++ file) p → dst.get? p = some [] := by
  have hvisible : file ∈ src.visible.files.keys :=
    src.mem_inputFiles.2 ⟨Dict.mem_keys_of_get? hbytes, hmapped.1⟩
  have hfinal : conf.finalPath file = conf.dstDir ++ file := by
    unfold CopyConf.finalPath
    rw [hmapped.2]
  obtain ⟨p, hp⟩ := h.exists_part hvisible
  obtain ⟨parts, hparts, hget⟩ := hcommitted.final _ p hp
  have hentries : ∀ e ∈ src.files.entries, e.1 ∈ src.files.keys := fun e he => List.mem_map_of_mem he
  have hkept := (src.createEmpty_run hentries hcreate (conf.finalPath file)).1 _ hget
  rw [← hfinal, hkept, Option.some_inj]
  exact h.joined_eq_iff ((src.get?_visible hvisible).trans hbytes) hparts

theorem copied_skipped_iff (hnamed : WellNamed conf dst) (h : AfterMap conf src.visible lens dst mid)
    (hcommitted : Committed conf mid fs₁) {fs : FileMap}
    (hcreate : src.files.entries.foldlM src.createEmpty fs₁ = .ok fs) {file : List String}
    {bytes : Bytes} (hbytes : src.files.get? file = some bytes) (hskip : ¬ IsMapped conf file) :
    fs.get? (conf.dstDir ++ file) = some bytes ↔
      LeftAt conf dst (conf.dstDir ++ file) (some bytes) ∨
      (bytes = [] ∧ conf.relative file = file) ∧
        LeftAt conf dst (conf.dstDir ++ file) none ∧ ¬ dst.IsDirectory (conf.dstDir ++ file) := by
  have hfile : file ∈ src.files.keys := Dict.mem_keys_of_get? hbytes
  have hleft := leftAt_place hnamed h hcommitted hfile hskip
  have hiff : ∀ o, LeftAt conf dst (conf.dstDir ++ file) o ↔ fs₁.get? (conf.dstDir ++ file) = o := by
    intro o
    constructor
    · exact hleft.unique
    · rintro rfl
      exact hleft
  have hentries : ∀ e ∈ src.files.entries, e.1 ∈ src.files.keys := fun e he => List.mem_map_of_mem he
  obtain ⟨hkept, hcreated⟩ := src.createEmpty_run hentries hcreate (conf.dstDir ++ file)
  rw [hiff, hiff, ← isDirectory_place h hcommitted hfile]
  rcases hget : fs₁.get? (conf.dstDir ++ file) with _ | there
  · rw [hcreated hget, or_iff_right (by simp)]
    constructor
    · rintro ⟨rfl, hdir, hexists⟩
      exact ⟨⟨rfl, (exists_empty_iff hbytes).1 hexists⟩, rfl, hdir⟩
    · rintro ⟨⟨rfl, hplace⟩, -, hdir⟩
      exact ⟨rfl, hdir, (exists_empty_iff hbytes).2 hplace⟩
  · rw [hkept there hget, or_iff_left]
    rintro ⟨-, hnone, -⟩
    cases hnone

end copied

/-- **What is copied**: for every source, every split of its files and every job that succeeds over a
    destination whose chunks are chunks; and where the mapper and the committer put a file. -/
theorem all_copied_iff (src : Source conf) :
    (∀ lens dst fs, WellNamed conf dst → src.Succeeds lens dst fs →
      (src.AllCopied fs ↔ src.Covered dst)) ∧
    (src.RelativesAgree ↔ ¬ src.IsAbsoluteFile) := by
  refine ⟨fun lens dst fs hnamed hsucceeds => ?_, src.relativesAgree_iff⟩
  obtain ⟨mid, fs₁, h, hcommitted, hcreate⟩ := hsucceeds.cases hnamed
  constructor
  · intro hall
    constructor
    · intro file hfile hmapped
      obtain ⟨bytes, hbytes⟩ := Dict.mem_keys_iff.1 hfile
      exact (copied_mapped_iff h hcommitted hcreate hbytes hmapped).1 (hall file bytes hbytes)
    · intro file bytes hbytes hskip
      exact (copied_skipped_iff hnamed h hcommitted hcreate hbytes hskip).1 (hall file bytes hbytes)
  · intro hcovered file bytes hbytes
    by_cases hmapped : IsMapped conf file
    · exact (copied_mapped_iff h hcommitted hcreate hbytes hmapped).2
        (hcovered.mapped file (Dict.mem_keys_of_get? hbytes) hmapped)
    · exact (copied_skipped_iff hnamed h hcommitted hcreate hbytes hmapped).2
        (hcovered.skipped file bytes hbytes hmapped)

/-! ## A hidden file, and a file as root -/

theorem mem_keys_two {path path' p : List String} {bytes bytes' : Bytes} :
    p ∈ ((Dict.empty.set path bytes : FileMap).set path' bytes').keys ↔ p = path' ∨ p = path := by
  rw [Dict.mem_keys_set, mem_keys_one]

theorem isName_env : ∀ n ∈ [".env", "b"], IsName n := by
  unfold IsName
  decide

/-- The directory `/input` with the files `.env` and `b`. -/
def withHidden : Source absoluteCopy where
  isFile := false
  files := (Dict.empty.set [".env"] [1]).set ["b"] [2]
  nonempty _ hfile := by
    rcases mem_keys_two.1 hfile with rfl | rfl <;> exact List.cons_ne_nil _ _
  names _ hfile n hn := by
    rcases mem_keys_two.1 hfile with rfl | rfl <;> exact isName_env n (by simp at hn ⊢; simp [hn])
  tree _ hfile _ hfile' hpre := by
    rcases mem_keys_two.1 hfile with rfl | rfl <;> rcases mem_keys_two.1 hfile' with rfl | rfl <;>
      exact hpre.eq_of_length rfl
  root h := Bool.noConfusion h

/-- The file `/input`. -/
def aloneFile : Source absoluteCopy where
  isFile := true
  files := Dict.empty.set ["input"] [1]
  nonempty _ hfile := mem_keys_one.1 hfile ▸ List.cons_ne_nil _ _
  names _ hfile n hn := by
    rw [mem_keys_one.1 hfile] at hn
    exact isName_input n hn
  tree _ hfile _ hfile' _ := (mem_keys_one.1 hfile).trans (mem_keys_one.1 hfile').symm
  root _ := ⟨List.cons_ne_nil _ _, rfl⟩

/-- The job on `/input` leaves `.env` out and reports success; that on a file does not know where
    to put it. -/
theorem hidden_file_left_out : ∃ fs, WellNamed absoluteCopy .empty ∧
    withHidden.Succeeds (wholeFiles withHidden.visible) .empty fs ∧ ¬ withHidden.AllCopied fs ∧
    ¬ aloneFile.RelativesAgree := by
  have hperm : [⟨["b"], 0, 1⟩].Perm (withHidden.visible.splits (wholeFiles withHidden.visible)) := by
    exact List.Perm.refl _
  refine ⟨Dict.empty.set ["out", "b"] [2], fun _ hp => absurd hp List.not_mem_nil,
    ⟨by decide, fullReads, [⟨["b"], 0, 1⟩],
      Dict.empty.set ["out", ".copying.b.part-000000000000"] [2],
      [["out", ".copying.b.part-000000000000"]], id,
      ⟨fun _ _ h => splitLengths_wholeFiles h, hperm⟩, rfl, ⟨List.nodup_singleton _, fun path => ?_⟩,
      fun l => List.Perm.refl l, rfl⟩, fun hall => ?_, fun hagree => ?_⟩
  · rw [mem_keys_one, List.mem_singleton]
    refine (and_iff_left_of_imp ?_).symm
    rintro rfl
    exact ⟨[".copying.b.part-000000000000"], rfl⟩
  · have hcopied := hall [".env"] [1] rfl
    have hmissing : (Dict.empty.set ["out", "b"] [2] : FileMap).get? ["out", ".env"] = none := rfl
    rw [show absoluteCopy.dstDir ++ [".env"] = ["out", ".env"] from rfl, hmissing] at hcopied
    cases hcopied
  · have heq := hagree ["input"] (mem_keys_one.2 rfl)
    have hmapper : HdfsPath.parse (makeRelative absoluteCopy.srcRoot (aloneFile.path ["input"])) =
      .error .illegalArgument := rfl
    rw [hmapper, aloneFile.makeRelativePath_eq (mem_keys_one.2 rfl)] at heq
    cases heq

end Source

end ServerlessYarn
