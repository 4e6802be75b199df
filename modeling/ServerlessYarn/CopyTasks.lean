/-
  ServerlessYARN model — the map tasks of the block-parallel copy.

  * `chunkPath_inj`: the chunks of distinct splits have distinct paths, unless two
    files go to the same path;
  * `mapTasks_eq_ok`: the tasks succeed iff every chunk can be created in the
    destination as it was before, and then they have created them all, whatever
    their order.
-/
import ServerlessYarn.ParallelCopy

namespace ServerlessYarn

/-! ## Splits -/

/-- The splits of the input format, in the order in which the tasks finish. -/
structure Splits (src : SourceTree) (lens : List String → List ℕ) (tasks : List FileSplit) : Prop where
  lengths : ∀ file bytes, src.files.get? file = some bytes → SplitLengths bytes (lens file)
  perm : tasks.Perm (src.splits lens)

theorem mem_splits {src : SourceTree} {lens : List String → List ℕ} {t : FileSplit} :
    t ∈ src.splits lens ↔
      t.file ∈ src.files.keys ∧ (t.start, t.length) ∈ consecutive 0 (lens t.file) := by
  unfold SourceTree.splits
  simp only [List.mem_flatMap, List.mem_map]
  constructor
  · rintro ⟨file, hfile, range, hrange, rfl⟩
    exact ⟨hfile, hrange⟩
  · rintro ⟨hfile, hrange⟩
    exact ⟨t.file, hfile, _, hrange, rfl⟩

/-- The offsets of the splits of a file increase. -/
theorem consecutive_increasing {bytes : Bytes} {lens : List ℕ} (h : SplitLengths bytes lens) :
    (consecutive 0 lens).Pairwise fun r r' => r.1 < r'.1 := by
  unfold SplitLengths at h
  split_ifs at h
  · rw [h]
    exact List.pairwise_singleton _ _
  · exact consecutive_pairwise h.1 0

/-- The ranges of the splits make up the file. -/
theorem consecutive_flatMap {bytes : Bytes} {lens : List ℕ} (h : SplitLengths bytes lens) :
    ((consecutive 0 lens).flatMap fun r => (bytes.drop r.1).take r.2) = bytes := by
  unfold SplitLengths at h
  split_ifs at h with hnil
  · subst hnil
    rw [h]
    rfl
  · exact flatMap_consecutive bytes (by rw [zero_add]; exact h.2)

theorem SplitLengths.ne_nil {bytes : Bytes} {lens : List ℕ} (h : SplitLengths bytes lens) : lens ≠ [] := by
  rintro rfl
  unfold SplitLengths at h
  split_ifs at h with hnil
  exact hnil (List.length_eq_zero_iff.1 h.2.symm)

section tasks
variable {src : SourceTree} {lens : List String → List ℕ} {tasks : List FileSplit}

theorem Splits.mem_iff (hsplits : Splits src lens tasks) {t : FileSplit} : t ∈ tasks ↔
    t.file ∈ src.files.keys ∧ (t.start, t.length) ∈ consecutive 0 (lens t.file) := by
  rw [hsplits.perm.mem_iff, mem_splits]

theorem Splits.increasing (hsplits : Splits src lens tasks) {file : List String}
    (hfile : file ∈ src.files.keys) :
    (consecutive 0 (lens file)).Pairwise fun r r' => r.1 < r'.1 := by
  obtain ⟨bytes, hbytes⟩ := Dict.mem_keys_iff.1 hfile
  exact consecutive_increasing (hsplits.lengths file bytes hbytes)

/-- Every file has a split at its start. -/
theorem exists_first {file : List String} {bytes : Bytes} (hbytes : src.files.get? file = some bytes)
    (hlens : SplitLengths bytes (lens file)) : ∃ len, ⟨file, 0, len⟩ ∈ src.splits lens := by
  obtain ⟨len, rest, hrest⟩ := List.exists_cons_of_ne_nil hlens.ne_nil
  refine ⟨len, mem_splits.2 ⟨Dict.mem_keys_of_get? hbytes, ?_⟩⟩
  rw [hrest]
  exact List.mem_cons_self

/-- A file and an offset belong to one split. -/
theorem Splits.eq_of_start (hsplits : Splits src lens tasks) {t t' : FileSplit} (ht : t ∈ tasks)
    (ht' : t' ∈ tasks) (hfile : t.file = t'.file) (hstart : t.start = t'.start) : t = t' := by
  rw [hsplits.mem_iff] at ht ht'
  have hinc := hsplits.increasing ht.1
  rw [← hfile, ← hstart] at ht'
  have hnodup : ((consecutive 0 (lens t.file)).map Prod.fst).Nodup :=
    List.pairwise_map.2 (hinc.imp fun hlt => Nat.ne_of_lt hlt)
  have hlen := List.inj_on_of_nodup_map hnodup ht.2 ht'.2 rfl
  obtain ⟨-, hlen⟩ := Prod.ext_iff.1 hlen
  rcases t with ⟨file, start, length⟩
  rcases t' with ⟨file', start', length'⟩
  simp only at hfile hstart hlen
  rw [hfile, hstart, hlen]

end tasks

/-! ## Paths of chunks -/

theorem head?_chunkName (base : String) (start : ℕ) : (chunkName base start).toList.head? = some '.' := by
  rw [toList_chunkName, List.append_assoc, List.append_assoc]
  rfl

namespace CopyConf

variable (conf : CopyConf)

/-- No two files go to the same path. -/
def Apart (src : SourceTree) : Prop :=
  ∀ file ∈ src.files.keys, ∀ file' ∈ src.files.keys, conf.relative file = conf.relative file' → file = file'

variable {conf} {src : SourceTree}

theorem relative_visible {file : List String} (hfile : file ∈ src.files.keys) :
    ∀ n ∈ conf.relative file, IsVisible n := by
  intro n hn
  unfold relative at hn
  split_ifs at hn
  · exact src.visible file hfile n hn
  · rw [List.mem_singleton.1 hn]
    exact src.visible file hfile _ (getLastD_mem (src.nonempty file hfile))

theorem chunkName_notMem {file : List String} (hfile : file ∈ src.files.keys) (base : String) (start : ℕ) :
    chunkName base start ∉ conf.relative file := fun hmem =>
  (relative_visible hfile _ hmem).2.1 (head?_chunkName base start)

theorem relative_eq {file : List String} (hfile : file ∈ src.files.keys) :
    (conf.relative file).dropLast ++ [(conf.relative file).getLastD ""] = conf.relative file :=
  dropLast_append_getLastD (conf.relative_ne_nil (src.nonempty file hfile))

/-- The chunks of distinct splits have distinct paths. -/
theorem chunkPath_inj (hapart : conf.Apart src) {file file' : List String} (hfile : file ∈ src.files.keys)
    (hfile' : file' ∈ src.files.keys) {start start' : ℕ}
    (h : conf.chunkPath file start = conf.chunkPath file' start') : file = file' ∧ start = start' := by
  unfold chunkPath at h
  obtain ⟨hdir, hname⟩ := List.append_inj' h rfl
  obtain ⟨hbase, hstart⟩ := chunkName_injective (List.singleton_injective hname)
  refine ⟨hapart file hfile file' hfile' ?_, hstart⟩
  rw [← relative_eq hfile, ← relative_eq hfile', List.append_cancel_left hdir, hbase]

theorem chunkPath_not_prefix_dir {file : List String} (hfile : file ∈ src.files.keys)
    (file' : List String) (start : ℕ) :
    ¬ conf.chunkPath file' start <+: conf.dstDir ++ (conf.relative file).dropLast := by
  unfold chunkPath
  rw [List.append_assoc, List.prefix_append_right_inj]
  intro hpre
  have hnot : chunkName ((conf.relative file').getLastD "") start ∉ conf.relative file :=
    chunkName_notMem hfile _ start
  refine hnot ?_
  exact (List.dropLast_sublist _).subset (hpre.subset (List.mem_append_right _ List.mem_cons_self))

theorem chunkPath_eq_of_below {file : List String} (hfile : file ∈ src.files.keys)
    {file' : List String} {start start' : ℕ}
    (hpre : conf.chunkPath file' start' <+: conf.chunkPath file start) :
    conf.chunkPath file' start' = conf.chunkPath file start := by
  rcases List.prefix_concat_iff.1 hpre with heq | hdir
  · exact heq
  · exact absurd hdir (chunkPath_not_prefix_dir hfile file' start')

/-! ## The tasks -/

/-- The chunk of a task can be created. -/
structure CanCreate (conf : CopyConf) (dst : FileMap) (t : FileSplit) : Prop where
  dir : ∀ q ∈ dst.keys, ¬ q <+: conf.dstDir ++ (conf.relative t.file).dropLast
  file : ¬ dst.IsDirectory (conf.chunkPath t.file t.start)
  fresh : conf.chunkPath t.file t.start ∉ dst.keys

/-- The bytes of a chunk. -/
def chunkBytes (src : SourceTree) (t : FileSplit) : Bytes :=
  (((src.files.get? t.file).getD []).drop t.start).take t.length

/-- The destination with the chunks of the tasks. -/
def mapped (conf : CopyConf) (src : SourceTree) (tasks : List FileSplit) (dst : FileMap) : FileMap :=
  tasks.foldl (fun dst t => dst.set (conf.chunkPath t.file t.start) (chunkBytes src t)) dst

/-- The chunks of the tasks have distinct paths. -/
def Distinct (conf : CopyConf) (tasks : List FileSplit) : Prop :=
  (tasks.map fun t => conf.chunkPath t.file t.start).Nodup

theorem map_eq_ok (reads : Reads) {t : FileSplit} (hfile : t.file ∈ src.files.keys) {dst dst' : FileMap} :
    conf.map src reads t dst = .ok dst' ↔ CanCreate conf dst t ∧
      dst' = dst.set (conf.chunkPath t.file t.start) (chunkBytes src t) := by
  obtain ⟨bytes, hbytes⟩ := Dict.mem_keys_iff.1 hfile
  have hchunk : (bytes.drop t.start).take t.length = chunkBytes src t := by
    unfold chunkBytes
    rw [hbytes]
    rfl
  rw [conf.map_eq reads hbytes, hdfs_bind_eq_ok, hchunk]
  simp only [FileMap.mkdirs_eq_ok, FileMap.create_eq_ok]
  constructor
  · rintro ⟨_, ⟨hdir, rfl⟩, hfile, hfresh, rfl⟩
    exact ⟨⟨hdir, hfile, fun hmem => absurd (hfresh hmem) (by simp)⟩, rfl⟩
  · rintro ⟨hcan, rfl⟩
    exact ⟨dst, ⟨hcan.dir, rfl⟩, hcan.file, fun hmem => absurd hmem hcan.fresh, rfl⟩

/-- A new chunk is in nobody's way. -/
theorem canCreate_set {t t' : FileSplit} (hfile : t.file ∈ src.files.keys)
    (hfile' : t'.file ∈ src.files.keys)
    (hne : conf.chunkPath t'.file t'.start ≠ conf.chunkPath t.file t.start) (dst : FileMap) (bytes : Bytes) :
    CanCreate conf (dst.set (conf.chunkPath t.file t.start) bytes) t' ↔ CanCreate conf dst t' := by
  constructor
  · intro hcan
    refine ⟨fun q hq => hcan.dir q (Dict.mem_keys_set.2 (.inr hq)), fun hdir => ?_, fun hin => ?_⟩
    · obtain ⟨q, hq, hbelow⟩ := hdir
      exact hcan.file ⟨q, Dict.mem_keys_set.2 (.inr hq), hbelow⟩
    · exact hcan.fresh (Dict.mem_keys_set.2 (.inr hin))
  · intro hcan
    refine ⟨fun q hq => ?_, fun hdir => ?_, fun hin => ?_⟩
    · rcases Dict.mem_keys_set.1 hq with rfl | hq
      · exact chunkPath_not_prefix_dir hfile' t.file t.start
      · exact hcan.dir q hq
    · obtain ⟨q, hq, hpre, hbelow⟩ := hdir
      rcases Dict.mem_keys_set.1 hq with rfl | hq
      · exact hbelow (chunkPath_eq_of_below hfile hpre)
      · exact hcan.file ⟨q, hq, hpre, hbelow⟩
    · rcases Dict.mem_keys_set.1 hin with heq | hin
      · exact hne heq
      · exact hcan.fresh hin

/-- **The tasks succeed iff every chunk can be created**, and then they have created them. -/
theorem mapTasks_eq_ok (reads : Reads) {tasks : List FileSplit}
    (hmem : ∀ t ∈ tasks, t.file ∈ src.files.keys) (hdistinct : Distinct conf tasks)
    {dst dst' : FileMap} : conf.mapTasks src reads tasks dst = .ok dst' ↔
      (∀ t ∈ tasks, CanCreate conf dst t) ∧ dst' = mapped conf src tasks dst := by
  induction tasks generalizing dst with
  | nil =>
    constructor
    · intro h
      cases h
      exact ⟨fun _ ht => absurd ht List.not_mem_nil, rfl⟩
    · rintro ⟨-, rfl⟩
      rfl
  | cons t tasks ih =>
    rw [List.forall_mem_cons] at hmem ⊢
    obtain ⟨hnot, hnodup⟩ := List.nodup_cons.1 hdistinct
    have hset : (∀ t' ∈ tasks, CanCreate conf
        (dst.set (conf.chunkPath t.file t.start) (chunkBytes src t)) t') ↔
          ∀ t' ∈ tasks, CanCreate conf dst t' := by
      refine forall₂_congr fun t' ht' => ?_
      refine canCreate_set hmem.1 (hmem.2 t' ht') (fun heq => hnot ?_) dst _
      exact List.mem_map.2 ⟨t', ht', heq⟩
    unfold mapTasks at ih ⊢
    rw [List.foldlM_cons, hdfs_bind_eq_ok]
    simp only [map_eq_ok reads hmem.1]
    constructor
    · rintro ⟨_, ⟨hcan, rfl⟩, h⟩
      rw [ih hmem.2 hnodup, hset] at h
      exact ⟨⟨hcan, h.1⟩, h.2⟩
    · rintro ⟨⟨hcan, hrest⟩, rfl⟩
      exact ⟨_, ⟨hcan, rfl⟩, (ih hmem.2 hnodup).2 ⟨hset.2 hrest, rfl⟩⟩

/-- Tasks that succeed have distinct chunks. -/
theorem distinct_of_mapTasks (reads : Reads) {tasks : List FileSplit}
    (hmem : ∀ t ∈ tasks, t.file ∈ src.files.keys) {dst dst' : FileMap}
    (h : conf.mapTasks src reads tasks dst = .ok dst') : Distinct conf tasks := by
  induction tasks generalizing dst with
  | nil => exact List.nodup_nil
  | cons t tasks ih =>
    rw [List.forall_mem_cons] at hmem
    unfold mapTasks at h ih
    rw [List.foldlM_cons, hdfs_bind_eq_ok] at h
    obtain ⟨dst₁, hmap, hrest⟩ := h
    obtain ⟨-, rfl⟩ := (map_eq_ok reads hmem.1).1 hmap
    have hdistinct := ih hmem.2 hrest
    obtain ⟨hcan, -⟩ := (mapTasks_eq_ok reads hmem.2 hdistinct).1 hrest
    refine List.nodup_cons.2 ⟨fun hin => ?_, hdistinct⟩
    obtain ⟨t', ht', heq⟩ := List.mem_map.1 hin
    refine (hcan t' ht').fresh ?_
    rw [heq]
    exact Dict.mem_keys_set.2 (.inl rfl)

/-- Files that go to the same path have the same first chunk. -/
theorem apart_of_distinct {lens : List String → List ℕ} {tasks : List FileSplit}
    (hsplits : Splits src lens tasks) (hdistinct : Distinct conf tasks) : conf.Apart src := by
  intro file hfile file' hfile' heq
  obtain ⟨bytes, hbytes⟩ := Dict.mem_keys_iff.1 hfile
  obtain ⟨bytes', hbytes'⟩ := Dict.mem_keys_iff.1 hfile'
  obtain ⟨len, ht⟩ := exists_first hbytes (hsplits.lengths file bytes hbytes)
  obtain ⟨len', ht'⟩ := exists_first hbytes' (hsplits.lengths file' bytes' hbytes')
  have hchunk : conf.chunkPath file 0 = conf.chunkPath file' 0 := by
    unfold chunkPath
    rw [heq]
  have hsame := List.inj_on_of_nodup_map hdistinct (hsplits.perm.mem_iff.2 ht)
    (hsplits.perm.mem_iff.2 ht') hchunk
  exact congrArg FileSplit.file hsame

/-! ## The files after the tasks -/

theorem mapped_get?_of_notMem {tasks : List FileSplit} {dst : FileMap} {p : List String}
    (h : ∀ t ∈ tasks, p ≠ conf.chunkPath t.file t.start) :
    (mapped conf src tasks dst).get? p = dst.get? p := by
  induction tasks generalizing dst with
  | nil => rfl
  | cons t tasks ih =>
    refine (ih fun t' ht' => h t' (List.mem_cons_of_mem _ ht')).trans ?_
    exact Dict.get?_set_of_ne _ _ (h t List.mem_cons_self)

theorem mapped_get? {tasks : List FileSplit} (hdistinct : Distinct conf tasks) (dst : FileMap)
    {t : FileSplit} (ht : t ∈ tasks) :
    (mapped conf src tasks dst).get? (conf.chunkPath t.file t.start) = some (chunkBytes src t) := by
  induction tasks generalizing dst with
  | nil => cases ht
  | cons t' tasks ih =>
    obtain ⟨hnot, hrest⟩ := List.nodup_cons.1 hdistinct
    rcases List.mem_cons.1 ht with rfl | ht
    · have hkeep : ∀ t' ∈ tasks, conf.chunkPath t.file t.start ≠ conf.chunkPath t'.file t'.start :=
        fun t' ht' heq => hnot (List.mem_map.2 ⟨t', ht', heq.symm⟩)
      change (mapped conf src tasks (dst.set _ _)).get? _ = _
      rw [mapped_get?_of_notMem hkeep, Dict.get?_set_self]
    · exact ih hrest _ ht

/-- The chunks of the splits have distinct paths. -/
theorem distinct_of_splits {lens : List String → List ℕ} {tasks : List FileSplit}
    (hsplits : Splits src lens tasks) (hapart : conf.Apart src) : Distinct conf tasks := by
  have hnodup : tasks.Nodup := by
    rw [hsplits.perm.nodup_iff]
    unfold SourceTree.splits
    refine List.nodup_flatMap.2 ⟨fun file hfile => ?_, ?_⟩
    · refine List.Nodup.map (fun r r' h => ?_) ((hsplits.increasing hfile).imp fun hlt heq => ?_)
      · obtain ⟨-, hstart, hlen⟩ := FileSplit.mk.inj h
        exact Prod.ext hstart hlen
      · rw [heq] at hlt
        exact absurd hlt (lt_irrefl _)
    · refine (src.files.nodup_keys).imp fun {file file'} hne => ?_
      refine List.disjoint_left.2 ?_
      intro t ht ht'
      obtain ⟨_, -, rfl⟩ := List.mem_map.1 ht
      obtain ⟨_, -, heq⟩ := List.mem_map.1 ht'
      exact hne (FileSplit.mk.inj heq).1.symm
  refine List.Nodup.map_on (fun t ht t' ht' h => ?_) hnodup
  have hfile := (hsplits.mem_iff.1 ht).1
  have hfile' := (hsplits.mem_iff.1 ht').1
  obtain ⟨hfiles, hstarts⟩ := chunkPath_inj hapart hfile hfile' h
  exact hsplits.eq_of_start ht ht' hfiles hstarts

end CopyConf

end ServerlessYarn
