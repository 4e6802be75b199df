/-
  ServerlessYARN model — the block-parallel copy after an interrupted one.

  The committer takes every chunk that it finds, and a task only fails on a chunk
  at its own offset.  Chunks that an earlier job has left are put together with the
  fresh ones, or into a file that the source does not have.

  * `restartExact_iff`: a job that succeeds is exact iff the chunks that were left
    add nothing, or it cannot succeed at all.
-/
import ServerlessYarn.CopyExact

namespace ServerlessYarn

/-- The files of the source are in their places, and no other file has been created or altered;
    the chunks that were left may be gone. -/
structure StillExact (conf : CopyConf) (src : SourceTree) (dst fs : FileMap) : Prop where
  copied : ∀ file bytes, src.files.get? file = some bytes → fs.get? (conf.dstDir ++ file) = some bytes
  others : ∀ path, (∀ file ∈ src.files.keys, path ≠ conf.dstDir ++ file) →
    (∀ finalPath, ¬ Part conf dst finalPath path) → fs.get? path = dst.get? path

/-- Every job that reports success, whatever its orders. -/
def RestartExact (conf : CopyConf) (src : SourceTree) (lens : List String → List ℕ) (dst : FileMap) :
    Prop :=
  ∀ mid fs, conf.Copies src lens dst mid → conf.Commits src mid (.ok fs) → StillExact conf src dst fs

/-- The job cannot succeed: two files go to the same path, a chunk cannot be created, or the path
    of a file that would be put together is a directory. -/
def Blocked (conf : CopyConf) (src : SourceTree) (lens : List String → List ℕ) (dst : FileMap) : Prop :=
  ¬ conf.Apart src ∨ (∃ t ∈ src.splits lens, ¬ conf.CanCreate dst t) ∨
  ∃ path, ((∃ p, Part conf dst path p) ∨ ∃ file ∈ src.files.keys, path = conf.finalPath file) ∧
    (dst.IsDirectory path ∨ ∃ t ∈ src.splits lens,
      path <+: conf.chunkPath t.file t.start ∧ path ≠ conf.chunkPath t.file t.start)

/-- The chunks of a file, put together, are the given bytes; if there are none, the file is. -/
def Contents (conf : CopyConf) (fs : FileMap) (path : List String) (o : Option Bytes) : Prop :=
  (∃ p, Part conf fs path p) ∧ (∃ parts, OrderedParts conf fs path parts ∧ some (joined fs parts) = o) ∨
  (∀ p, ¬ Part conf fs path p) ∧ fs.get? path = o

/-- The chunks that were left add nothing. -/
structure Harmless (conf : CopyConf) (src : SourceTree) (lens : List String → List ℕ) (dst : FileMap) :
    Prop where
  /-- Those of the files of the source are empty. -/
  empty : ∀ file ∈ src.files.keys, conf.relative file = file →
    ∀ p, Part conf dst (conf.dstDir ++ file) p → dst.get? p = some []
  /-- The others make up files that are already there. -/
  foreign : ∀ path p, Part conf dst path p →
    (∀ file ∈ src.files.keys, path ≠ conf.dstDir ++ file ∧ path ≠ conf.finalPath file) →
    Contents conf dst path (dst.get? path)
  /-- A file that does not go to its place is there already, and where it goes as well. -/
  elsewhere : ∀ file bytes, src.files.get? file = some bytes → conf.relative file ≠ file →
    Contents conf dst (conf.dstDir ++ file) (some bytes) ∧
    Contents conf (conf.mapped src (src.splits lens) dst) (conf.finalPath file)
      (dst.get? (conf.finalPath file))

section leftovers
variable {conf : CopyConf} {src : SourceTree} {lens : List String → List ℕ} {dst mid fs : FileMap}

/-- A job that succeeds was not blocked. -/
theorem blocked_iff (h : AfterMap conf src lens dst mid) :
    Blocked conf src lens dst ↔ ∃ path p, Part conf mid path p ∧ mid.IsDirectory path := by
  unfold Blocked
  rw [or_iff_right (not_not.2 h.apart), or_iff_right]
  · constructor
    · rintro ⟨path, hpath, hdir⟩
      rw [← h.isDirectory_iff] at hdir
      rcases hpath with ⟨p, hp⟩ | ⟨file, hfile, rfl⟩
      · exact ⟨path, p, h.part_iff.2 (.inl hp), hdir⟩
      · obtain ⟨p, hp⟩ := h.exists_part hfile
        exact ⟨_, p, hp, hdir⟩
    · rintro ⟨path, p, hp, hdir⟩
      refine ⟨path, ?_, h.isDirectory_iff.1 hdir⟩
      rcases h.part_iff.1 hp with hp | ⟨t, ht, -, rfl⟩
      · exact .inl ⟨p, hp⟩
      · exact .inr ⟨t.file, (mem_splits.1 ht).1, rfl⟩
  · rintro ⟨t, ht, hcan⟩
    exact hcan (h.can t ht)

theorem Contents.congr {fs fs' : FileMap} (hfs : ∀ p, fs.get? p = fs'.get? p) {path : List String}
    {o : Option Bytes} (h : Contents conf fs path o) : Contents conf fs' path o := by
  have hpart : ∀ p, Part conf fs path p ↔ Part conf fs' path p := by
    intro p
    unfold Part
    rw [Dict.mem_keys_iff, Dict.mem_keys_iff, hfs]
  rcases h with ⟨⟨p, hp⟩, parts, hparts, rfl⟩ | ⟨hnone, rfl⟩
  · refine .inl ⟨⟨p, (hpart p).1 hp⟩, parts, ⟨fun q => (hparts.mem_iff q).trans (hpart q),
      hparts.increasing⟩, ?_⟩
    rw [joined_congr fun q _ => (hfs q).symm]
  · exact .inr ⟨fun p hp => hnone p ((hpart p).2 hp), (hfs path).symm⟩

/-- What a commit leaves of a path. -/
theorem Committed.contents (hcommitted : Committed conf mid fs) {path : List String}
    (hpath : ∀ finalPath, ¬ Part conf mid finalPath path) : Contents conf mid path (fs.get? path) := by
  by_cases hpart : ∃ p, Part conf mid path p
  · obtain ⟨p, hp⟩ := hpart
    obtain ⟨parts, hparts, hget⟩ := hcommitted.final path p hp
    exact .inl ⟨⟨p, hp⟩, parts, hparts, hget.symm⟩
  · refine .inr ⟨fun p hp => hpart ⟨p, hp⟩, ?_⟩
    refine (hcommitted.other path fun finalPath p hp => ⟨?_, ?_⟩).symm
    · rintro rfl
      exact hpart ⟨p, hp⟩
    · rintro rfl
      exact hpath finalPath hp

/-- They are determined. -/
theorem Contents.unique {path : List String} {o o' : Option Bytes} (h : Contents conf fs path o)
    (h' : Contents conf fs path o') : o = o' := by
  rcases h with ⟨⟨p, hp⟩, parts, hparts, rfl⟩ | ⟨hnone, rfl⟩
  · rcases h' with ⟨-, parts', hparts', rfl⟩ | ⟨hnone, -⟩
    · rw [hparts.unique hparts']
    · exact absurd hp (hnone p)
  · rcases h' with ⟨⟨p, hp⟩, -⟩ | ⟨-, rfl⟩
    · exact absurd hp (hnone p)
    · rfl

/-- At a path to which no file of the source goes, only what was left counts. -/
theorem Contents.left (h : AfterMap conf src lens dst mid) {path : List String} {o : Option Bytes}
    (hpath : ∀ p, Part conf mid path p ↔ Part conf dst path p)
    (hchunk : ∀ finalPath, ¬ Part conf mid finalPath path) (hmid : Contents conf mid path o) :
    Contents conf dst path o := by
  rcases hmid with ⟨⟨p, hp⟩, parts, hparts, rfl⟩ | ⟨hnone, rfl⟩
  · refine .inl ⟨⟨p, (hpath p).1 hp⟩, parts, ⟨fun q => (hparts.mem_iff q).trans (hpath q),
      hparts.increasing⟩, ?_⟩
    rw [joined_congr fun q hq => (h.kept_of_mem ((hpath q).1 ((hparts.mem_iff q).1 hq)).1).symm]
  · refine .inr ⟨fun p hp => hnone p ((hpath p).2 hp), (h.kept path fun t ht heq => ?_).symm⟩
    exact hchunk _ (h.part_iff.2 (.inr ⟨t, ht, heq, rfl⟩))

/-- A path that does not look like a chunk is none. -/
theorem not_part_of_not_copying {path : List String}
    (h : ¬ ".copying.".toList <+: (path.getLastD "").toList) (finalPath : List String) :
    ¬ Part conf mid finalPath path := fun hp => h hp.2.2.copying

theorem finalPath_not_copying (conf : CopyConf) {file : List String} (hfile : file ∈ src.files.keys) :
    ¬ ".copying.".toList <+: ((conf.finalPath file).getLastD "").toList :=
  (chunkOf_chunkPath hfile 0).not_copying

/-- Where a file goes that does not go to its place, no file of the source belongs. -/
theorem finalPath_ne_place (hapart : conf.Apart src) {file file' : List String}
    (hfile : file ∈ src.files.keys) (hfile' : file' ∈ src.files.keys) (helse : conf.relative file ≠ file) :
    conf.finalPath file ≠ conf.dstDir ++ file' := by
  intro heq
  have hrel : conf.relative file = file' := List.append_cancel_left heq
  have hsame : conf.relative file' = conf.relative file := by
    rw [← hrel, relative_relative]
  rw [hapart file' hfile' file hfile hsame] at hrel
  exact helse hrel

/-- A job that is exact was harmless. -/
theorem harmless_of_stillExact (h : AfterMap conf src lens dst mid)
    (hcommitted : Committed conf mid fs) (hexact : StillExact conf src dst fs) :
    Harmless conf src lens dst := by
  constructor
  · intro file hfile hplace
    have hfinal : conf.finalPath file = conf.dstDir ++ file := by
      unfold CopyConf.finalPath
      rw [hplace]
    obtain ⟨bytes, hbytes⟩ := Dict.mem_keys_iff.1 hfile
    obtain ⟨p, hp⟩ := h.exists_part hfile
    obtain ⟨parts, hparts, hget⟩ := hcommitted.final _ p hp
    rw [hfinal, hexact.copied file bytes hbytes] at hget
    rw [← hfinal]
    exact (h.joined_eq_iff hbytes hparts).1 (Option.some.inj hget).symm
  · intro path p hp hpath
    have hnot : ∀ finalPath, ¬ Part conf mid finalPath path := fun finalPath hpart =>
      hpart.ne_final (h.part_iff.2 (.inl hp)) rfl
    have hleft : ∀ q, Part conf mid path q ↔ Part conf dst path q := by
      intro q
      rw [h.part_iff, or_iff_left]
      rintro ⟨t, ht, -, hfinal⟩
      exact (hpath t.file (mem_splits.1 ht).1).2 hfinal
    have hcontents := (hcommitted.contents hnot).left h hleft hnot
    rwa [hexact.others path (fun file hfile => (hpath file hfile).1)
      fun finalPath hpart => hnot finalPath (h.part_iff.2 (.inl hpart))] at hcontents
  · intro file bytes hbytes helse
    have hfile : file ∈ src.files.keys := Dict.mem_keys_of_get? hbytes
    constructor
    · have hnot : ∀ finalPath, ¬ Part conf mid finalPath (conf.dstDir ++ file) :=
        not_part_of_not_copying (place_not_copying conf hfile)
      have hcontents := (hcommitted.contents hnot).left h (fun q => part_place_iff h helse) hnot
      rwa [hexact.copied file bytes hbytes] at hcontents
    · have hcontents := hcommitted.contents (not_part_of_not_copying (finalPath_not_copying conf hfile))
      rw [hexact.others _ (fun file' hfile' => finalPath_ne_place h.apart hfile hfile' helse)
        (not_part_of_not_copying (finalPath_not_copying conf hfile))] at hcontents
      have hmapped := (copies_mapped h.lengths h.apart h.can).afterMap
      exact hcontents.congr fun q => h.get?_eq hmapped q

/-- A job that is harmless is exact. -/
theorem stillExact_of_harmless (h : AfterMap conf src lens dst mid)
    (hcommitted : Committed conf mid fs) (hharmless : Harmless conf src lens dst) :
    StillExact conf src dst fs := by
  constructor
  · intro file bytes hbytes
    have hfile : file ∈ src.files.keys := Dict.mem_keys_of_get? hbytes
    by_cases hplace : conf.relative file = file
    · have hfinal : conf.finalPath file = conf.dstDir ++ file := by
        unfold CopyConf.finalPath
        rw [hplace]
      obtain ⟨p, hp⟩ := h.exists_part hfile
      obtain ⟨parts, hparts, hget⟩ := hcommitted.final _ p hp
      have hempty := hharmless.empty file hfile hplace
      rw [← hfinal] at hempty
      rw [← hfinal, hget, (h.joined_eq_iff hbytes hparts).2 hempty]
    · have hnot : ∀ finalPath, ¬ Part conf mid finalPath (conf.dstDir ++ file) :=
        not_part_of_not_copying (place_not_copying conf hfile)
      have hcontents := (hcommitted.contents hnot).left h (fun q => part_place_iff h hplace) hnot
      exact hcontents.unique (hharmless.elsewhere file bytes hbytes hplace).1
  · intro path hpath hold
    by_cases hchunk : ∃ finalPath, Part conf mid finalPath path
    · obtain ⟨finalPath, hp⟩ := hchunk
      rw [hcommitted.gone finalPath path hp]
      obtain ⟨t, ht, rfl, -⟩ := (h.part_iff.1 hp).resolve_left (hold finalPath)
      exact (Dict.get?_eq_none_iff.2 (h.can t ht).fresh).symm
    have hnot : ∀ finalPath, ¬ Part conf mid finalPath path := fun finalPath hp => hchunk ⟨finalPath, hp⟩
    have hcontents := hcommitted.contents hnot
    by_cases hfinal : ∃ file ∈ src.files.keys, path = conf.finalPath file
    · obtain ⟨file, hfile, rfl⟩ := hfinal
      obtain ⟨bytes, hbytes⟩ := Dict.mem_keys_iff.1 hfile
      have helse : conf.relative file ≠ file := by
        intro hplace
        refine hpath file hfile ?_
        unfold CopyConf.finalPath
        rw [hplace]
      have hmapped := (copies_mapped h.lengths h.apart h.can).afterMap
      have hthere := (hharmless.elsewhere file bytes hbytes helse).2.congr fun q => hmapped.get?_eq h q
      exact hcontents.unique hthere
    · have hleft : ∀ q, Part conf mid path q ↔ Part conf dst path q := by
        intro q
        rw [h.part_iff, or_iff_left]
        rintro ⟨t, ht, -, heq⟩
        exact hfinal ⟨t.file, (mem_splits.1 ht).1, heq⟩
      have hcontents := hcontents.left h hleft hnot
      by_cases hpart : ∃ p, Part conf dst path p
      · obtain ⟨p, hp⟩ := hpart
        exact hcontents.unique (hharmless.foreign path p hp fun file hfile =>
          ⟨hpath file hfile, fun heq => hfinal ⟨file, hfile, heq⟩⟩)
      · exact hcontents.unique (.inr ⟨fun p hp => hpart ⟨p, hp⟩, rfl⟩)

end leftovers

/-- **When a copy over chunks that were left is exact.** For every block size, and every destination
    whose chunks may have been left by jobs on other versions of the source. -/
theorem restartExact_iff (conf : CopyConf) (src : SourceTree) (lens : List String → List ℕ)
    (hlens : ∀ file bytes, src.files.get? file = some bytes → SplitLengths bytes (lens file))
    (dst : FileMap) (hnamed : WellNamed conf dst) :
    RestartExact conf src lens dst ↔ Blocked conf src lens dst ∨ Harmless conf src lens dst := by
  constructor
  · intro hexact
    by_cases hblocked : Blocked conf src lens dst
    · exact .inl hblocked
    refine .inr ?_
    have hapart : conf.Apart src := by
      by_contra hclash
      exact hblocked (.inl hclash)
    have hcan : ∀ t ∈ src.splits lens, conf.CanCreate dst t := by
      intro t ht
      by_contra hcannot
      exact hblocked (.inr (.inl ⟨t, ht, hcannot⟩))
    have hcopies := copies_mapped hlens hapart hcan
    have h := hcopies.afterMap
    obtain ⟨r, hcommits⟩ := exists_commits conf src (conf.mapped src (src.splits lens) dst)
    obtain ⟨fs, rfl, hcommitted⟩ := h.commits_ok hnamed
      (fun path p hp hdir => hblocked ((blocked_iff h).2 ⟨path, p, hp, hdir⟩)) hcommits
    exact harmless_of_stillExact h hcommitted (hexact _ fs hcopies hcommits)
  · intro hcond mid fs hcopies hcommits
    have h := hcopies.afterMap
    obtain ⟨hdirs, hcommitted⟩ := h.committed hnamed hcommits
    rcases hcond with hblocked | hharmless
    · obtain ⟨path, p, hp, hdir⟩ := (blocked_iff h).1 hblocked
      exact absurd hdir (hdirs path p hp)
    · exact stillExact_of_harmless h hcommitted hharmless

/-! ## A chunk of an older, longer version -/

/-- The copy of `/input` to `/out`. -/
def absoluteCopy : CopyConf where
  srcRoot := ⟨true, ["input"]⟩
  dstRoot := ⟨true, ["out"]⟩
  srcHome := ["user", "hadoop"]
  dstHome := ["user", "hadoop"]
  srcRoot_names := isName_input
  srcRoot_nonempty := fun hrelative => Bool.noConfusion hrelative

/-- The second chunk of `a/b`, which was longer when the earlier job ran. -/
def interrupted : FileMap := Dict.empty.set ["out", "a", ".copying.b.part-000000000001"] [2]

theorem wellNamed_interrupted : WellNamed absoluteCopy interrupted := by
  intro path hpath _ _
  refine ⟨["out", "a", "b"], ["out", "a"], "b", 1, isVisible_nested "b" (by simp), rfl, ?_⟩
  exact mem_keys_one.1 hpath

theorem restartExact_iff_interrupted :
    WellNamed absoluteCopy interrupted ∧
    (RestartExact absoluteCopy nestedTree (wholeFiles nestedTree) interrupted ↔
      Blocked absoluteCopy nestedTree (wholeFiles nestedTree) interrupted ∨
      Harmless absoluteCopy nestedTree (wholeFiles nestedTree) interrupted) :=
  ⟨wellNamed_interrupted, restartExact_iff absoluteCopy nestedTree (wholeFiles nestedTree)
    (fun _ _ hbytes => splitLengths_wholeFiles hbytes) interrupted wellNamed_interrupted⟩

/-- The job succeeds, and its copy of the byte 1 is the bytes 1, 2. -/
theorem leftover_appended : ∃ mid fs, WellNamed absoluteCopy interrupted ∧
    absoluteCopy.Copies nestedTree (wholeFiles nestedTree) interrupted mid ∧
    absoluteCopy.Commits nestedTree mid (.ok fs) ∧ fs.get? ["out", "a", "b"] = some [1, 2] ∧
    ¬ StillExact absoluteCopy nestedTree interrupted fs := by
  have hperm : [⟨["a", "b"], 0, 1⟩].Perm (nestedTree.splits (wholeFiles nestedTree)) := by
    exact List.Perm.refl _
  refine ⟨interrupted.set ["out", "a", ".copying.b.part-000000000000"] [1],
    Dict.empty.set ["out", "a", "b"] [1, 2], wellNamed_interrupted,
    ⟨fullReads, [⟨["a", "b"], 0, 1⟩], ⟨fun _ _ h => splitLengths_wholeFiles h, hperm⟩, rfl⟩,
    ⟨[["out", "a", ".copying.b.part-000000000001"], ["out", "a", ".copying.b.part-000000000000"]], id,
      ⟨by decide, fun path => ?_⟩, fun l => List.Perm.refl l, rfl⟩, rfl, fun hexact => ?_⟩
  · unfold interrupted
    rw [Dict.mem_keys_set, mem_keys_one, List.mem_cons, List.mem_singleton, or_comm]
    refine (and_iff_left_of_imp ?_).symm
    rintro (rfl | rfl)
    · exact ⟨["a", ".copying.b.part-000000000000"], rfl⟩
    · exact ⟨["a", ".copying.b.part-000000000001"], rfl⟩
  · have hcopied := hexact.copied ["a", "b"] [1] rfl
    have hjoined : (Dict.empty.set ["out", "a", "b"] [1, 2] : FileMap).get? ["out", "a", "b"] =
      some [1, 2] := rfl
    rw [show absoluteCopy.dstDir ++ ["a", "b"] = ["out", "a", "b"] from rfl, hjoined] at hcopied
    cases hcopied

end ServerlessYarn
