/-
  ServerlessYARN model — sources of the block-parallel copy in general.

  The root of the source is a file, or a directory with files of any names.  The
  input format skips names that start with `_` or `.`; the committer lists all files.

  * `Source.visible`, `Source.map_eq_map`: on the files that are not skipped, the job is that of a
    `SourceTree`;
  * `Source.makeRelative_eq`, `Source.makeRelativePath_eq`: where the mapper and the committer put
    a file; they differ for a root that is a file;
  * `Source.retry_succeeds_iff`: a task that is tried again fails on the chunk of the attempt
    before, unless it overwrites.
-/
import ServerlessYarn.CopyLeftovers

namespace ServerlessYarn

/-! ## Sources -/

/-- A name that the input format skips. -/
def IsHidden (n : String) : Prop := n.toList.head? = some '.' ∨ n.toList.head? = some '_'

instance (n : String) : Decidable (IsHidden n) := instDecidableOr

theorem isVisible_iff {n : String} (hn : IsName n) : IsVisible n ↔ ¬ IsHidden n := by
  unfold IsVisible IsHidden
  rw [not_or]
  exact and_iff_right hn

/-- A source: the bytes of each file, by its path below the root.  If the root is a file, it
    is the only one, under its own name. -/
structure Source (conf : CopyConf) where
  isFile : Bool
  files : FileMap
  nonempty : ∀ file ∈ files.keys, file ≠ []
  names : ∀ file ∈ files.keys, ∀ n ∈ file, IsName n
  tree : ∀ file ∈ files.keys, ∀ file' ∈ files.keys, file <+: file' → file = file'
  root : isFile = true → conf.srcDir ≠ [] ∧ files.keys = [[conf.srcDir.getLastD ""]]

namespace Source

variable {conf : CopyConf}

/-- The path of a file. -/
def path (src : Source conf) (file : List String) : HdfsPath :=
  if src.isFile then ⟨true, conf.srcDir⟩ else conf.srcPath file

/-- The files that the input format does not skip. -/
def inputFiles (src : Source conf) : FileMap :=
  src.files.filterMap fun file bytes => if ∃ n ∈ file, IsHidden n then none else some bytes

/-- `map`, with the bytes of the chunk that have been written when it ends. -/
def mapWriting (src : Source conf) (overwrite : Bool) (reads : Reads) (split : FileSplit)
    (written : Bytes → Bytes) (dst : FileMap) : Hdfs FileMap := do
  match src.files.get? split.file with
  | none => .error .fileNotFound
  | some bytes =>
    let rel ← HdfsPath.parse (makeRelative conf.srcRoot (src.path split.file))
    let dst ← dst.mkdirs (conf.chunkDir rel)
    dst.create (conf.chunkDir rel ++ [chunkName rel.getName split.start]) overwrite
      (written (copyRange reads split.file bytes split.start split.length))

/-- `map` of an attempt that nothing interrupts. -/
def map (src : Source conf) (overwrite : Bool) (reads : Reads) (split : FileSplit) (dst : FileMap) :
    Hdfs FileMap :=
  src.mapWriting overwrite reads split id dst

/-- The body of the committer's loop over the files of the source. -/
def createEmpty (src : Source conf) (dst : FileMap) (file : List String × Bytes) : Hdfs FileMap := do
  if file.2.length ≠ 0 then return dst
  let rel ← makeRelativePath conf.srcRoot (src.path file.1)
  let dstEmpty := (conf.dstRoot.resolve rel).qualify conf.dstHome
  if dst.pathExists dstEmpty then return dst
  let dst ← dst.mkdirs dstEmpty.dropLast
  dst.create dstEmpty true []

/-- `commitJob`. -/
def commitJob (src : Source conf) (listing : List (List String))
    (order : List (List String × List (List String)) → List (List String × List (List String)))
    (dst : FileMap) : Hdfs FileMap := do
  let chunks ← chunksByFile listing
  let dst ← (order chunks.entries).foldlM assemble dst
  src.files.entries.foldlM src.createEmpty dst

/-! ## Where a file goes -/

/-- A file as root, with an absolute path: there is nothing below the root. -/
def IsAbsoluteFile (src : Source conf) : Prop := src.isFile = true ∧ conf.srcRoot.absolute = true

instance (src : Source conf) : Decidable src.IsAbsoluteFile := instDecidableAnd

theorem file_eq (src : Source conf) (hisFile : src.isFile = true) {file : List String}
    (hfile : file ∈ src.files.keys) : file = [conf.srcDir.getLastD ""] := by
  rw [(src.root hisFile).2] at hfile
  exact List.mem_singleton.1 hfile

/-- The path of a root that is a file is that of its name in its directory. -/
theorem path_file (src : Source conf) (hisFile : src.isFile = true) {file : List String}
    (hfile : file ∈ src.files.keys) : src.path file = ⟨true, conf.srcDir.dropLast ++ file⟩ := by
  rw [path, if_pos hisFile, src.file_eq hisFile hfile,
    dropLast_append_getLastD (src.root hisFile).1]

/-- Nothing of the path of a root that is a file is below the root. -/
theorem makeRelative_absoluteFile (src : Source conf) (habs : src.IsAbsoluteFile)
    (file : List String) : makeRelative conf.srcRoot (src.path file) = [] := by
  have hroot : conf.srcRoot = ⟨true, conf.srcDir⟩ := by
    rw [CopyConf.srcDir, HdfsPath.qualify, if_pos habs.2, ← habs.2]
  rw [path, if_pos habs.1, ← hroot]
  unfold makeRelative
  simp

/-- What the mapper and the committer take the path below the root to be. -/
theorem makeRelative_eq (src : Source conf) (habs : ¬ src.IsAbsoluteFile) {file : List String}
    (hfile : file ∈ src.files.keys) :
    makeRelative conf.srcRoot (src.path file) = (slashed (conf.relative file)).tail := by
  have hne := src.nonempty file hfile
  have hnames := src.names file hfile
  cases habsolute : conf.srcRoot.absolute with
  | true =>
    have hdir : src.isFile = false := by
      rw [← Bool.not_eq_true]
      exact fun hisFile => habs ⟨hisFile, habsolute⟩
    have hroot : conf.srcRoot = ⟨true, conf.srcDir⟩ := by
      rw [CopyConf.srcDir, HdfsPath.qualify, if_pos habsolute, ← habsolute]
    rw [path, hdir, if_neg Bool.false_ne_true, CopyConf.srcPath, CopyConf.relative, if_pos habsolute]
    conv_lhs => rw [hroot]
    exact makeRelative_absolute hne hnames
  | false =>
    have hpath : ∃ dir, src.path file = ⟨true, dir ++ file⟩ := by
      cases hisFile : src.isFile with
      | true => exact ⟨_, src.path_file hisFile hfile⟩
      | false => exact ⟨conf.srcDir, by rw [path, hisFile, if_neg Bool.false_ne_true, CopyConf.srcPath]⟩
    have hroot : conf.srcRoot = ⟨false, conf.srcRoot.names⟩ := by
      rw [← habsolute]
    have hone : (slashed [file.getLastD ""]).tail = (file.getLastD "").toList := by
      simp [slashed]
    obtain ⟨dir, hdir⟩ := hpath
    rw [hdir, CopyConf.relative, if_neg (by simp [habsolute]), hone]
    conv_lhs => rw [hroot]
    exact makeRelative_relative (conf.srcRoot_nonempty habsolute) conf.srcRoot_names hne

theorem relative_names (src : Source conf) {file : List String} (hfile : file ∈ src.files.keys) :
    ∀ n ∈ conf.relative file, IsName n := by
  intro n hn
  unfold CopyConf.relative at hn
  split_ifs at hn
  · exact src.names file hfile n hn
  · rw [List.mem_singleton.1 hn]
    exact src.names file hfile _ (getLastD_mem (src.nonempty file hfile))

/-- The mapper cannot make a path of nothing. -/
theorem parse_absoluteFile (src : Source conf) (habs : src.IsAbsoluteFile) (file : List String) :
    HdfsPath.parse (makeRelative conf.srcRoot (src.path file)) = .error .illegalArgument := by
  rw [src.makeRelative_absoluteFile habs]
  rfl

theorem parse_makeRelative (src : Source conf) (habs : ¬ src.IsAbsoluteFile) {file : List String}
    (hfile : file ∈ src.files.keys) :
    HdfsPath.parse (makeRelative conf.srcRoot (src.path file)) = .ok ⟨false, conf.relative file⟩ := by
  rw [src.makeRelative_eq habs hfile]
  exact parse_relString (conf.relative_ne_nil (src.nonempty file hfile)) (src.relative_names hfile)

/-- The committer takes the name of the file instead. -/
theorem makeRelativePath_eq (src : Source conf) {file : List String} (hfile : file ∈ src.files.keys) :
    makeRelativePath conf.srcRoot (src.path file) = .ok ⟨false, conf.relative file⟩ := by
  have hne := conf.relative_ne_nil (src.nonempty file hfile)
  have hparse := parse_relString hne (src.relative_names hfile)
  unfold makeRelativePath
  by_cases habs : src.IsAbsoluteFile
  · have hlast : (slashed (conf.relative file)).tail = (src.path file).getName.toList := by
      rw [path, if_pos habs.1, src.file_eq habs.1 hfile]
      unfold CopyConf.relative HdfsPath.getName
      rw [if_pos habs.2]
      simp [slashed]
    rw [src.makeRelative_absoluteFile habs]
    simp only [if_true]
    rw [← hlast, hparse]
  · rw [src.makeRelative_eq habs hfile]
    simp only
    rw [if_neg, hparse]
    intro hnil
    rw [hnil] at hparse
    cases hparse

/-! ## The files that are not skipped -/

theorem get?_inputFiles (src : Source conf) (file : List String) : src.inputFiles.get? file =
    if ∃ n ∈ file, IsHidden n then none else src.files.get? file := by
  rw [inputFiles, Dict.get?_filterMap]
  rcases src.files.get? file with _ | bytes <;> split_ifs <;> rfl

theorem mem_inputFiles (src : Source conf) {file : List String} :
    file ∈ src.inputFiles.keys ↔ file ∈ src.files.keys ∧ ∀ n ∈ file, ¬ IsHidden n := by
  rw [Dict.mem_keys_iff, Dict.mem_keys_iff, src.get?_inputFiles]
  by_cases hhidden : ∃ n ∈ file, IsHidden n
  · rw [if_pos hhidden]
    refine iff_of_false (by simp) fun h => ?_
    obtain ⟨n, hn, hhid⟩ := hhidden
    exact h.2 n hn hhid
  · rw [if_neg hhidden, and_iff_left]
    intro n hn hhid
    exact hhidden ⟨n, hn, hhid⟩

/-- The tree of the files that are not skipped. -/
def visible (src : Source conf) : SourceTree where
  files := src.inputFiles
  nonempty file hfile := src.nonempty file (src.mem_inputFiles.1 hfile).1
  visible file hfile n hn := by
    obtain ⟨hmem, hnot⟩ := src.mem_inputFiles.1 hfile
    exact (isVisible_iff (src.names file hmem n hn)).2 (hnot n hn)
  tree file hfile file' hfile' hpre :=
    src.tree file (src.mem_inputFiles.1 hfile).1 file' (src.mem_inputFiles.1 hfile').1 hpre

theorem get?_visible (src : Source conf) {file : List String} (hfile : file ∈ src.visible.files.keys) :
    src.visible.files.get? file = src.files.get? file := by
  have hnot := (src.mem_inputFiles.1 hfile).2
  refine (src.get?_inputFiles file).trans (if_neg ?_)
  rintro ⟨n, hn, hhidden⟩
  exact hnot n hn hhidden

/-! ## The map task -/

/-- A map task creates one chunk. -/
theorem mapWriting_eq (src : Source conf) (habs : ¬ src.IsAbsoluteFile) (overwrite : Bool)
    (reads : Reads) {split : FileSplit} {bytes : Bytes} (hbytes : src.files.get? split.file = some bytes)
    (written : Bytes → Bytes) (dst : FileMap) : src.mapWriting overwrite reads split written dst =
      dst.mkdirs (conf.dstDir ++ (conf.relative split.file).dropLast) >>= fun dst =>
        dst.create (conf.chunkPath split.file split.start) overwrite
          (written ((bytes.drop split.start).take split.length)) := by
  have hrel := src.parse_makeRelative habs (Dict.mem_keys_of_get? hbytes)
  have hdir : conf.chunkDir ⟨false, conf.relative split.file⟩ =
      conf.dstDir ++ (conf.relative split.file).dropLast := conf.resolve_qualify _
  unfold mapWriting CopyConf.chunkPath
  rw [hbytes, ← hdir]
  simp only [hrel, copyRange_eq]
  rfl

/-- For a root that is a file, with an absolute path, it fails. -/
theorem mapWriting_absoluteFile (src : Source conf) (habs : src.IsAbsoluteFile) (overwrite : Bool)
    (reads : Reads) (split : FileSplit) (written : Bytes → Bytes) (dst dst' : FileMap) :
    src.mapWriting overwrite reads split written dst ≠ .ok dst' := by
  unfold mapWriting
  rcases src.files.get? split.file with _ | bytes
  · intro h
    cases h
  · simp only [src.parse_absoluteFile habs]
    intro h
    cases h

/-- On the files that are not skipped, it is the map task of their tree. -/
theorem map_eq_map (src : Source conf) (habs : ¬ src.IsAbsoluteFile) (reads : Reads)
    {split : FileSplit} (hfile : split.file ∈ src.visible.files.keys) (dst : FileMap) :
    src.map false reads split dst = conf.map src.visible reads split dst := by
  obtain ⟨bytes, hbytes⟩ := Dict.mem_keys_iff.1 hfile
  have hget := src.get?_visible hfile
  rw [hbytes] at hget
  rw [map, src.mapWriting_eq habs false reads hget.symm, conf.map_eq reads hbytes]
  rfl

/-! ## Attempts -/

/-- An attempt that fails from outside: before its chunk is created, or after some of the bytes
    of the chunk have been written. -/
structure Attempt where
  reads : Reads
  written : Option ℕ

/-- What such an attempt leaves in the destination. -/
def attempt (src : Source conf) (overwrite : Bool) (split : FileSplit) (dst : FileMap) (a : Attempt) :
    FileMap :=
  match a.written with
  | none => dst
  | some k =>
    match src.mapWriting overwrite a.reads split (List.take k) dst with
    | .ok dst' => dst'
    | .error _ => dst

/-- `abortTask` -/
def abortTask (dst : FileMap) : FileMap := dst

/-- The destination after some attempts, each of them aborted. -/
def afterAttempts (src : Source conf) (overwrite : Bool) (split : FileSplit) (attempts : List Attempt)
    (dst : FileMap) : FileMap :=
  attempts.foldl (fun dst a => abortTask (src.attempt overwrite split dst a)) dst

/-- Nothing is in the way of the chunk: no file above it, and no directory in its place. -/
def WayFree (conf : CopyConf) (split : FileSplit) (dst : FileMap) : Prop :=
  (∀ q ∈ dst.keys, ¬ q <+: conf.dstDir ++ (conf.relative split.file).dropLast) ∧
  ¬ dst.IsDirectory (conf.chunkPath split.file split.start)

theorem mapWriting_eq_ok (src : Source conf) {overwrite : Bool} {reads : Reads} {split : FileSplit}
    {bytes : Bytes} (hbytes : src.files.get? split.file = some bytes) {written : Bytes → Bytes}
    {dst dst' : FileMap} : src.mapWriting overwrite reads split written dst = .ok dst' ↔
      ¬ src.IsAbsoluteFile ∧ WayFree conf split dst ∧
      (conf.chunkPath split.file split.start ∈ dst.keys → overwrite = true) ∧
      dst' = dst.set (conf.chunkPath split.file split.start)
        (written ((bytes.drop split.start).take split.length)) := by
  by_cases habs : src.IsAbsoluteFile
  · exact iff_of_false (src.mapWriting_absoluteFile habs overwrite reads split written dst dst')
      fun h => h.1 habs
  · rw [src.mapWriting_eq habs overwrite reads hbytes, hdfs_bind_eq_ok, and_iff_right habs]
    simp only [FileMap.mkdirs_eq_ok, FileMap.create_eq_ok]
    constructor
    · rintro ⟨_, ⟨hdir, rfl⟩, hplace, hover, rfl⟩
      exact ⟨⟨hdir, hplace⟩, hover, rfl⟩
    · rintro ⟨⟨hdir, hplace⟩, hover, rfl⟩
      exact ⟨dst, ⟨hdir, rfl⟩, hplace, hover, rfl⟩

/-- A chunk is not in its own way. -/
theorem wayFree_set (conf : CopyConf) (split : FileSplit) (dst : FileMap) (bytes : Bytes) :
    WayFree conf split (dst.set (conf.chunkPath split.file split.start) bytes) ↔
      WayFree conf split dst := by
  have hself : ¬ conf.chunkPath split.file split.start <+:
      conf.dstDir ++ (conf.relative split.file).dropLast := by
    intro hpre
    have hlen := hpre.length_le
    simp [CopyConf.chunkPath] at hlen
  unfold WayFree FileMap.IsDirectory
  constructor
  · rintro ⟨hdir, hplace⟩
    refine ⟨fun q hq => hdir q (Dict.mem_keys_set.2 (.inr hq)), ?_⟩
    rintro ⟨q, hq, hbelow⟩
    exact hplace ⟨q, Dict.mem_keys_set.2 (.inr hq), hbelow⟩
  · rintro ⟨hdir, hplace⟩
    constructor
    · intro q hq
      rcases Dict.mem_keys_set.1 hq with rfl | hq
      · exact hself
      · exact hdir q hq
    · rintro ⟨q, hq, hpre, hne⟩
      rcases Dict.mem_keys_set.1 hq with rfl | hq
      · exact hne rfl
      · exact hplace ⟨q, hq, hpre, hne⟩

section attempts
variable (src : Source conf) (overwrite : Bool) {split : FileSplit}

/-- An attempt leaves the chunk, if it gets that far. -/
theorem attempt_leaves (hfile : split.file ∈ src.files.keys) (dst : FileMap) (a : Attempt) :
    (WayFree conf split (src.attempt overwrite split dst a) ↔ WayFree conf split dst) ∧
    (¬ src.IsAbsoluteFile → WayFree conf split dst →
      (conf.chunkPath split.file split.start ∈ (src.attempt overwrite split dst a).keys ↔
        conf.chunkPath split.file split.start ∈ dst.keys ∨ a.written ≠ none)) := by
  obtain ⟨bytes, hbytes⟩ := Dict.mem_keys_iff.1 hfile
  unfold attempt
  rcases a.written with _ | k
  · simp
  · simp only
    rcases hmap : src.mapWriting overwrite a.reads split (List.take k) dst with err | dst'
    · refine ⟨Iff.rfl, fun habs hfree => ?_⟩
      -- only the chunk that is there already can stop it
      have hthere : conf.chunkPath split.file split.start ∈ dst.keys := by
        by_contra hnot
        have hok : src.mapWriting overwrite a.reads split (List.take k) dst = .ok _ :=
          (src.mapWriting_eq_ok hbytes).2 ⟨habs, hfree, fun hin => absurd hin hnot, rfl⟩
        rw [hmap] at hok
        cases hok
      exact iff_of_true hthere (.inl hthere)
    · obtain ⟨-, -, -, rfl⟩ := (src.mapWriting_eq_ok hbytes).1 hmap
      refine ⟨wayFree_set conf split dst _, fun _ _ => ?_⟩
      exact iff_of_true (Dict.mem_keys_set.2 (.inl rfl)) (.inr (Option.some_ne_none k))

theorem afterAttempts_leaves (hfile : split.file ∈ src.files.keys) (attempts : List Attempt)
    (dst : FileMap) :
    (WayFree conf split (src.afterAttempts overwrite split attempts dst) ↔ WayFree conf split dst) ∧
    (¬ src.IsAbsoluteFile → WayFree conf split dst →
      (conf.chunkPath split.file split.start ∈ (src.afterAttempts overwrite split attempts dst).keys ↔
        conf.chunkPath split.file split.start ∈ dst.keys ∨ ∃ a ∈ attempts, a.written ≠ none)) := by
  induction attempts generalizing dst with
  | nil => simp [afterAttempts]
  | cons a attempts ih =>
    obtain ⟨hfree, hleft⟩ := src.attempt_leaves overwrite hfile dst a
    obtain ⟨hfree', hleft'⟩ := ih (src.attempt overwrite split dst a)
    refine ⟨hfree'.trans hfree, fun habs hway => ?_⟩
    have hrest := hleft' habs (hfree.2 hway)
    rw [hleft habs hway] at hrest
    refine hrest.trans ?_
    rw [List.exists_mem_cons_iff, or_assoc]

/-- The attempt after them succeeds, and leaves the chunk with the bytes of the split. -/
def RetrySucceeds (src : Source conf) (overwrite : Bool) (reads : Reads) (split : FileSplit)
    (attempts : List Attempt) (dst : FileMap) : Prop :=
  ∃ fs, src.map overwrite reads split (src.afterAttempts overwrite split attempts dst) = .ok fs ∧
    fs.get? (conf.chunkPath split.file split.start) =
      (src.files.get? split.file).map fun bytes => (bytes.drop split.start).take split.length

/-- **When a task can be tried again**: for every split, every way in which the attempts before
    failed, and every destination. -/
theorem retry_succeeds_iff (reads : Reads)
    (hfile : split.file ∈ src.files.keys) (attempts : List Attempt) (dst : FileMap) :
    src.RetrySucceeds overwrite reads split attempts dst ↔
      ¬ src.IsAbsoluteFile ∧ WayFree conf split dst ∧
      (overwrite = true ∨ conf.chunkPath split.file split.start ∉ dst.keys ∧
        ∀ a ∈ attempts, a.written = none) := by
  obtain ⟨bytes, hbytes⟩ := Dict.mem_keys_iff.1 hfile
  obtain ⟨hfree, hleft⟩ := src.afterAttempts_leaves overwrite hfile attempts dst
  unfold RetrySucceeds map
  simp only [src.mapWriting_eq_ok hbytes]
  constructor
  · rintro ⟨fs, ⟨habs, hway, hover, -⟩, -⟩
    rw [hfree] at hway
    refine ⟨habs, hway, ?_⟩
    by_contra hnot
    rw [not_or] at hnot
    refine hnot.1 (hover ((hleft habs hway).2 ?_))
    by_contra hnone
    rw [not_or] at hnone
    refine hnot.2 ⟨hnone.1, fun a ha => ?_⟩
    by_contra hwritten
    exact hnone.2 ⟨a, ha, hwritten⟩
  · rintro ⟨habs, hway, hcond⟩
    refine ⟨_, ⟨habs, hfree.2 hway, fun hin => ?_, rfl⟩, ?_⟩
    · rcases hcond with hover | ⟨hfresh, hnone⟩
      · exact hover
      · rcases (hleft habs hway).1 hin with hthere | ⟨a, ha, hwritten⟩
        · exact absurd hthere hfresh
        · exact absurd (hnone a ha) hwritten
    · rw [Dict.get?_set_self, hbytes]
      rfl

end attempts

/-- The file `a/b` of one byte. -/
def nested (conf : CopyConf) : Source conf where
  isFile := false
  files := nestedTree.files
  nonempty := nestedTree.nonempty
  names file hfile n hn := (nestedTree.visible file hfile n hn).1
  tree := nestedTree.tree
  root h := Bool.noConfusion h

theorem nested_retry_succeeds_iff :
    ["a", "b"] ∈ (nested absoluteCopy).files.keys ∧
    ((nested absoluteCopy).RetrySucceeds true fullReads ⟨["a", "b"], 0, 1⟩
        [⟨fullReads, some 0⟩] .empty ↔
      ¬ (nested absoluteCopy).IsAbsoluteFile ∧ WayFree absoluteCopy ⟨["a", "b"], 0, 1⟩ .empty ∧
      (true = true ∨ absoluteCopy.chunkPath ["a", "b"] 0 ∉ (.empty : FileMap).keys ∧
        ∀ a ∈ [(⟨fullReads, some 0⟩ : Attempt)], a.written = none)) :=
  ⟨mem_keys_one.2 rfl, retry_succeeds_iff (nested absoluteCopy) true fullReads (mem_keys_one.2 rfl)
    [⟨fullReads, some 0⟩] .empty⟩

/-- The second attempt finds the chunk of the first. -/
theorem nested_retry_fails : ¬ ∀ (conf : CopyConf) (src : Source conf) (reads : Reads)
    (split : FileSplit) (attempts : List Attempt), split.file ∈ src.files.keys →
      ¬ src.IsAbsoluteFile → src.RetrySucceeds false reads split attempts .empty := by
  intro hall
  obtain ⟨fs, hmap, -⟩ := hall absoluteCopy (nested absoluteCopy) fullReads ⟨["a", "b"], 0, 1⟩
    [⟨fullReads, some 0⟩] (mem_keys_one.2 rfl) (fun h => Bool.noConfusion h.1)
  have herror : (nested absoluteCopy).map false fullReads ⟨["a", "b"], 0, 1⟩
      ((nested absoluteCopy).afterAttempts false ⟨["a", "b"], 0, 1⟩ [⟨fullReads, some 0⟩] .empty) =
        .error .fileAlreadyExists := rfl
  rw [herror] at hmap
  cases hmap

end Source

end ServerlessYarn
