/-
  ServerlessYARN model — the final files of the block-parallel copy.

  * `assemble_ok`, `assemble_error`: one final file is put together, unless it is a
    directory;
  * `assembleAll_ok`, `assembleAll_error`: so are all of them, in any order;
  * `commitJob_ok`, `commitJob_error`: the commit succeeds iff no final path is a
    directory, and the files are then those of `Committed`.
-/
import ServerlessYarn.CopyCommit

namespace ServerlessYarn

/-! ## One file -/

theorem mapM_get? {fs : FileMap} {sources : List (List String)} (h : ∀ p ∈ sources, p ∈ fs.keys) :
    sources.mapM fs.get? = some (sources.map fun p => (fs.get? p).getD []) := by
  induction sources with
  | nil => rfl
  | cons p sources ih =>
    obtain ⟨bytes, hbytes⟩ := Dict.mem_keys_iff.1 (h p List.mem_cons_self)
    rw [List.mapM_cons, ih fun q hq => h q (List.mem_cons_of_mem _ hq), hbytes, List.map_cons, hbytes]
    rfl

/-- `concat` of files that are there. -/
theorem concat_ok {fs : FileMap} {target : List String} {bytes : Bytes} {sources : List (List String)}
    (htarget : fs.get? target = some bytes) (h : ∀ p ∈ sources, p ∈ fs.keys) :
    ∃ fs', fs.concat target sources = .ok fs' ∧ ∀ q, fs'.get? q =
      if q = target then some (bytes ++ joined fs sources)
      else if q ∈ sources then none else fs.get? q := by
  unfold FileMap.concat
  rw [htarget, mapM_get? h]
  refine ⟨_, rfl, fun q => ?_⟩
  unfold joined
  rw [← List.flatMap_def]
  by_cases hq : q = target
  · rw [hq, Dict.get?_set_self, if_pos rfl]
  · rw [if_neg hq, Dict.get?_set_of_ne _ _ hq, FileMap.get?_eraseAll]

theorem joined_congr {fs fs' : FileMap} {parts : List (List String)}
    (h : ∀ p ∈ parts, fs.get? p = fs'.get? p) : joined fs parts = joined fs' parts := by
  unfold joined
  induction parts with
  | nil => rfl
  | cons p parts ih =>
    rw [List.forall_mem_cons] at h
    rw [List.flatMap_cons, List.flatMap_cons, h.1, ih h.2]

/-- The final file is deleted, and a chunk renamed in its place. -/
theorem replace_ok {fs : FileMap} {first finalPath : List String} {bytes : Bytes}
    (hdir : ¬ fs.IsDirectory finalPath) (hfirst : fs.get? first = some bytes) (hne : first ≠ finalPath) :
    ∃ fs₁ : FileMap, fs.delete finalPath = .ok fs₁ ∧ ∀ q, (fs₁.rename first finalPath).get? q =
      if q = finalPath then some bytes else if q = first then none else fs.get? q := by
  obtain ⟨fs₁, hfs₁⟩ : ∃ fs₁ : FileMap, fs₁ = fs.erase finalPath := ⟨_, rfl⟩
  refine ⟨fs₁, ?_, fun q => ?_⟩
  · rw [FileMap.delete_eq_ok]
    exact ⟨hdir, hfs₁⟩
  have hget : ∀ p, fs₁.get? p = if p = finalPath then none else fs.get? p := by
    intro p
    rw [hfs₁, Dict.get?_erase]
  have hdir' : ¬ fs₁.IsDirectory finalPath := by
    rintro ⟨p, hp, hbelow⟩
    refine hdir ⟨p, ?_, hbelow⟩
    rw [Dict.mem_keys_iff] at hp ⊢
    obtain ⟨v, hv⟩ := hp
    rw [hget] at hv
    split_ifs at hv
    exact ⟨v, hv⟩
  have hgone : finalPath ∉ fs₁.keys := by
    rw [← Dict.get?_eq_none_iff, hget, if_pos rfl]
  unfold FileMap.rename
  rw [hget, if_neg hne, hfirst]
  simp only [if_neg hdir', if_neg hgone]
  by_cases hq : q = finalPath
  · rw [hq, Dict.get?_set_self, if_pos rfl]
  · rw [Dict.get?_set_of_ne _ _ hq, Dict.get?_erase, hget, if_neg hq, if_neg hq]

section assemble
variable {conf : CopyConf} {fs : FileMap} {finalPath : List String} {parts : List (List String)}

theorem exists_first_chunk {sorted : List (List String)} (hperm : sorted.Perm parts) (hne : parts ≠ []) :
    ∃ first rest, sorted = first :: rest := by
  refine List.exists_cons_of_ne_nil fun hnil => hne ?_
  rw [hnil] at hperm
  exact hperm.nil_eq.symm

/-- The final file has the bytes of the chunks, and they are gone. -/
theorem assemble_ok (hdir : ¬ fs.IsDirectory finalPath) (hmem : ∀ p ∈ parts, p ∈ fs.keys)
    (hchunk : ∀ p ∈ parts, ChunkOf finalPath p) (hnodup : parts.Nodup) (hne : parts ≠ []) :
    ∃ sorted fs', sorted.Perm parts ∧ sorted.Pairwise (fun p p' => startOf p < startOf p') ∧
      assemble fs (finalPath, parts) = .ok fs' ∧ ∀ q, fs'.get? q =
        if q = finalPath then some (joined fs sorted)
        else if q ∈ parts then none else fs.get? q := by
  obtain ⟨sorted, hsorted, hperm, hinc⟩ := sortParts_ok hchunk hnodup
  obtain ⟨first, rest, rfl⟩ := exists_first_chunk hperm hne
  have hparts : ∀ p, p ∈ parts ↔ p = first ∨ p ∈ rest := fun p => by
    rw [← hperm.mem_iff, List.mem_cons]
  have hoff : ∀ p ∈ parts, p ≠ finalPath := fun p hp heq => (hchunk p hp).not_copying (by
    rw [← heq]
    exact (hchunk p hp).copying)
  have hfirst : first ∈ parts := (hparts first).2 (.inl rfl)
  have hrest : ∀ p ∈ rest, p ∈ parts := fun p hp => (hparts p).2 (.inr hp)
  obtain ⟨hnot, -⟩ := List.nodup_cons.1 (hperm.nodup_iff.2 hnodup)
  obtain ⟨bytes, hbytes⟩ := Dict.mem_keys_iff.1 (hmem first hfirst)
  obtain ⟨fs₁, hdelete, hrename⟩ := replace_ok hdir hbytes (hoff first hfirst)
  have hkeep : ∀ p ∈ rest, (fs₁.rename first finalPath).get? p = fs.get? p := by
    intro p hp
    have hpfirst : p ≠ first := fun heq => hnot (heq ▸ hp)
    rw [hrename, if_neg (hoff p (hrest p hp)), if_neg hpfirst]
  have hjoined : joined fs (first :: rest) = bytes ++ joined fs rest := by
    unfold joined
    rw [List.flatMap_cons, hbytes]
    rfl
  have hassemble : assemble fs (finalPath, parts) =
      if rest = [] then .ok (fs₁.rename first finalPath)
      else (fs₁.rename first finalPath).concat finalPath rest := by
    unfold assemble
    simp only [hsorted, bind, Except.bind, hdelete]
    rfl
  rw [hassemble]
  by_cases hnil : rest = []
  · subst hnil
    refine ⟨[first], _, hperm, hinc, if_pos rfl, fun q => ?_⟩
    rw [hrename, hjoined]
    simp only [hparts, List.not_mem_nil, or_false]
    rw [show joined fs [] = [] from rfl, List.append_nil]
  · have htarget : (fs₁.rename first finalPath).get? finalPath = some bytes := by
      rw [hrename, if_pos rfl]
    obtain ⟨fs', hconcat, hget⟩ := concat_ok htarget fun p hp => by
      rw [Dict.mem_keys_iff, hkeep p hp, ← Dict.mem_keys_iff]
      exact hmem p (hrest p hp)
    refine ⟨first :: rest, fs', hperm, hinc, by rw [if_neg hnil, hconcat], fun q => ?_⟩
    rw [hget, hjoined, joined_congr hkeep]
    by_cases hq : q = finalPath
    · rw [if_pos hq, if_pos hq]
    rw [if_neg hq, if_neg hq, hrename, if_neg hq]
    simp only [hparts]
    by_cases hqrest : q ∈ rest
    · rw [if_pos hqrest, if_pos (.inr hqrest)]
    · simp only [if_neg hqrest, or_iff_left hqrest]

/-- A directory is not replaced. -/
theorem assemble_error (hdir : fs.IsDirectory finalPath) (hchunk : ∀ p ∈ parts, ChunkOf finalPath p)
    (hnodup : parts.Nodup) (hne : parts ≠ []) : ∃ e, assemble fs (finalPath, parts) = .error e := by
  obtain ⟨sorted, hsorted, hperm, -⟩ := sortParts_ok hchunk hnodup
  obtain ⟨first, rest, rfl⟩ := exists_first_chunk hperm hne
  refine ⟨.notEmptyDirectory, ?_⟩
  unfold assemble FileMap.delete
  simp only [hsorted, bind, Except.bind, if_pos hdir]

end assemble

/-! ## All files -/

/-- The files when some groups have been put together. -/
structure Assembled (conf : CopyConf) (mid : FileMap)
    (done : List (List String × List (List String))) (fs : FileMap) : Prop where
  final : ∀ e ∈ done, ∃ parts, OrderedParts conf mid e.1 parts ∧ fs.get? e.1 = some (joined mid parts)
  gone : ∀ e ∈ done, ∀ p, Part conf mid e.1 p → fs.get? p = none
  other : ∀ q, (∀ e ∈ done, q ≠ e.1 ∧ ¬ Part conf mid e.1 q) → fs.get? q = mid.get? q

section loop
variable {conf : CopyConf} {mid fs : FileMap}

theorem Part.ne_final {finalPath finalPath' path path' : List String} (h : Part conf mid finalPath path)
    (h' : Part conf mid finalPath' path') : path ≠ finalPath' := by
  rintro rfl
  exact h'.2.2.not_copying h.2.2.copying

theorem Assembled.nil : Assembled conf mid [] mid where
  final := fun _ he => absurd he List.not_mem_nil
  gone := fun _ he => absurd he List.not_mem_nil
  other := fun _ _ => rfl

/-- A final path lies in the same directories as its chunks. -/
theorem ChunkOf.below_iff {finalPath path dir : List String} (h : ChunkOf finalPath path)
    (hne : dir ≠ path) (hne' : dir ≠ finalPath) : dir <+: finalPath ↔ dir <+: path := by
  obtain ⟨parent, base, start, -, rfl, rfl⟩ := h
  rw [List.prefix_concat_iff, List.prefix_concat_iff, or_iff_right hne, or_iff_right hne']

theorem ChunkOf.not_below {finalPath path : List String} (h : ChunkOf finalPath path)
    (hne : finalPath ≠ path) : ¬ finalPath <+: path := by
  obtain ⟨dir, base, start, -, rfl, rfl⟩ := h
  intro hpre
  exact hne (hpre.eq_of_length (by simp))

/-- The directories stay. -/
theorem Assembled.isDirectory_iff {done : List (List String × List (List String))}
    (h : Assembled conf mid done fs) (hdone : ∀ e ∈ done, ∃ p, Part conf mid e.1 p)
    {finalPath path : List String} (hpart : Part conf mid finalPath path) :
    fs.IsDirectory finalPath ↔ mid.IsDirectory finalPath := by
  constructor
  · rintro ⟨q, hq, hpre, hne⟩
    by_cases hfinal : ∃ e ∈ done, q = e.1
    · obtain ⟨e, he, rfl⟩ := hfinal
      obtain ⟨p, hp⟩ := hdone e he
      exact ⟨p, hp.1, (hp.2.2.below_iff (hp.ne_final hpart).symm hne).1 hpre, (hp.ne_final hpart).symm⟩
    by_cases hgone : ∃ e ∈ done, Part conf mid e.1 q
    · obtain ⟨e, he, hp⟩ := hgone
      have hnone := h.gone e he q hp
      exact absurd hq (Dict.get?_eq_none_iff.1 hnone)
    · have hkeep := h.other q fun e he => ⟨fun heq => hfinal ⟨e, he, heq⟩, fun hp => hgone ⟨e, he, hp⟩⟩
      rw [Dict.mem_keys_iff, hkeep, ← Dict.mem_keys_iff] at hq
      exact ⟨q, hq, hpre, hne⟩
  · rintro ⟨q, hq, hpre, hne⟩
    by_cases hgone : ∃ e ∈ done, Part conf mid e.1 q
    · obtain ⟨e, he, hp⟩ := hgone
      obtain ⟨parts, -, hget⟩ := h.final e he
      have hne' : finalPath ≠ e.1 := by
        rintro rfl
        exact hp.2.2.not_below hne hpre
      exact ⟨e.1, Dict.mem_keys_of_get? hget, (hp.2.2.below_iff hne hne').2 hpre, hne'⟩
    by_cases hfinal : ∃ e ∈ done, q = e.1
    · obtain ⟨e, he, rfl⟩ := hfinal
      obtain ⟨parts, -, hget⟩ := h.final e he
      exact ⟨e.1, Dict.mem_keys_of_get? hget, hpre, hne⟩
    · have hkeep := h.other q fun e he => ⟨fun heq => hfinal ⟨e, he, heq⟩, fun hp => hgone ⟨e, he, hp⟩⟩
      rw [Dict.mem_keys_iff, ← hkeep, ← Dict.mem_keys_iff] at hq
      exact ⟨q, hq, hpre, hne⟩

section step
variable {done rest : List (List String × List (List String))} {e : List String × List (List String)}

/-- Groups that have not been put together yet are as they were. -/
theorem Assembled.chunk_eq (hgrouped : Grouped conf mid (done ++ e :: rest))
    (h : Assembled conf mid done fs) {p : List String} (hp : p ∈ e.2) : fs.get? p = mid.get? p := by
  have he : e ∈ done ++ e :: rest := List.mem_append_right _ List.mem_cons_self
  have hpart := (hgrouped.mem_iff e he p).1 hp
  refine h.other p fun e' he' => ?_
  have hmem' : e' ∈ done ++ e :: rest := List.mem_append_left _ he'
  obtain ⟨p', hp'⟩ := hgrouped.exists_part hmem'
  refine ⟨hpart.ne_final hp', fun hpart' => ?_⟩
  have hsame : e'.1 = e.1 := hpart'.2.2.unique hpart.2.2
  have hnodup := hgrouped.keys_nodup
  rw [List.map_append, List.map_cons, List.nodup_append] at hnodup
  exact hnodup.2.2 e'.1 (List.mem_map_of_mem he') e.1 List.mem_cons_self hsame

/-- One more group. -/
theorem Assembled.step (hgrouped : Grouped conf mid (done ++ e :: rest))
    (h : Assembled conf mid done fs) (hdir : ¬ mid.IsDirectory e.1) :
    ∃ fs', assemble fs e = .ok fs' ∧ Assembled conf mid (done ++ [e]) fs' := by
  have he : e ∈ done ++ e :: rest := List.mem_append_right _ List.mem_cons_self
  have hpart : ∀ p, p ∈ e.2 ↔ Part conf mid e.1 p := hgrouped.mem_iff e he
  have hdone : ∀ e' ∈ done, ∃ p, Part conf mid e'.1 p :=
    fun e' he' => hgrouped.exists_part (List.mem_append_left _ he')
  obtain ⟨p₀, hp₀⟩ := hgrouped.exists_part he
  have hkeep : ∀ p ∈ e.2, fs.get? p = mid.get? p := fun p hp => h.chunk_eq hgrouped hp
  have hkeys : ∀ p ∈ e.2, p ∈ fs.keys := by
    intro p hp
    rw [Dict.mem_keys_iff, hkeep p hp, ← Dict.mem_keys_iff]
    exact ((hpart p).1 hp).1
  obtain ⟨sorted, fs', hperm, hinc, hassemble, hget⟩ :=
    assemble_ok (mt (h.isDirectory_iff hdone hp₀).1 hdir) hkeys (fun p hp => ((hpart p).1 hp).2.2)
      (hgrouped.nodup e he) (hgrouped.nonempty e he)
  have hjoined : joined fs sorted = joined mid sorted :=
    joined_congr fun p hp => hkeep p (hperm.mem_iff.1 hp)
  refine ⟨fs', hassemble, fun e' he' => ?_, fun e' he' p hp => ?_, fun q hq => ?_⟩
  · rw [hget]
    by_cases hsame : e'.1 = e.1
    · rw [if_pos hsame, hjoined, hsame]
      exact ⟨sorted, ⟨fun p => hperm.mem_iff.trans (hpart p), hinc⟩, rfl⟩
    rcases List.mem_append.1 he' with he' | he'
    · obtain ⟨p', hp'⟩ := hdone e' he'
      have hnot : e'.1 ∉ e.2 := fun hmem => ((hpart _).1 hmem).ne_final hp' rfl
      rw [if_neg hsame, if_neg hnot]
      exact h.final e' he'
    · rw [List.mem_singleton.1 he'] at hsame
      exact absurd rfl hsame
  · rw [hget, if_neg (hp.ne_final hp₀)]
    by_cases hmem : p ∈ e.2
    · rw [if_pos hmem]
    rcases List.mem_append.1 he' with he' | he'
    · rw [if_neg hmem]
      exact h.gone e' he' p hp
    · rw [List.mem_singleton.1 he'] at hp
      exact absurd ((hpart p).2 hp) hmem
  · obtain ⟨hne, hnot⟩ := hq e (List.mem_append_right _ List.mem_cons_self)
    rw [hget, if_neg hne, if_neg (mt (hpart q).1 hnot)]
    exact h.other q fun e' he' => hq e' (List.mem_append_left _ he')

/-- The loop over the groups, if no final path is a directory. -/
theorem assembleAll_ok (hgrouped : Grouped conf mid (done ++ rest)) (h : Assembled conf mid done fs)
    (hdirs : ∀ e ∈ rest, ¬ mid.IsDirectory e.1) :
    ∃ fs', rest.foldlM assemble fs = .ok fs' ∧ Assembled conf mid (done ++ rest) fs' := by
  induction rest generalizing done fs with
  | nil => exact ⟨fs, rfl, by rwa [List.append_nil]⟩
  | cons e rest ih =>
    obtain ⟨fs₁, hassemble, h₁⟩ := h.step hgrouped (hdirs e List.mem_cons_self)
    rw [List.append_cons] at hgrouped ⊢
    rw [List.foldlM_cons, hassemble]
    exact ih hgrouped h₁ fun e' he' => hdirs e' (List.mem_cons_of_mem _ he')

/-- It fails if one is. -/
theorem assembleAll_error (hgrouped : Grouped conf mid (done ++ rest)) (h : Assembled conf mid done fs)
    (hdirs : ∃ e ∈ rest, mid.IsDirectory e.1) : ∃ err, rest.foldlM assemble fs = .error err := by
  induction rest generalizing done fs with
  | nil =>
    obtain ⟨e, he, -⟩ := hdirs
    cases he
  | cons e rest ih =>
    by_cases hdir : mid.IsDirectory e.1
    · have he : e ∈ done ++ e :: rest := List.mem_append_right _ List.mem_cons_self
      have hpart := hgrouped.mem_iff e he
      have hdone : ∀ e' ∈ done, ∃ p, Part conf mid e'.1 p :=
        fun e' he' => hgrouped.exists_part (List.mem_append_left _ he')
      obtain ⟨p, hp⟩ := hgrouped.exists_part he
      obtain ⟨err, herr⟩ := assemble_error ((h.isDirectory_iff hdone hp).2 hdir)
        (fun p hp => ((hpart p).1 hp).2.2) (hgrouped.nodup e he) (hgrouped.nonempty e he)
      refine ⟨err, ?_⟩
      rw [List.foldlM_cons, herr]
      rfl
    · obtain ⟨fs₁, hassemble, h₁⟩ := h.step hgrouped hdir
      rw [List.append_cons] at hgrouped
      rw [List.foldlM_cons, hassemble]
      obtain ⟨e', he', hdir'⟩ := hdirs
      rcases List.mem_cons.1 he' with rfl | he'
      · exact absurd hdir' hdir
      · exact ih hgrouped h₁ ⟨e', he', hdir'⟩

end step

end loop

/-! ## The commit -/

/-- The destination after the commit, for the destination after the map tasks. -/
structure Committed (conf : CopyConf) (mid fs : FileMap) : Prop where
  final : ∀ finalPath p, Part conf mid finalPath p →
    ∃ parts, OrderedParts conf mid finalPath parts ∧ fs.get? finalPath = some (joined mid parts)
  gone : ∀ finalPath p, Part conf mid finalPath p → fs.get? p = none
  other : ∀ q, (∀ finalPath p, Part conf mid finalPath p → q ≠ finalPath ∧ q ≠ p) → fs.get? q = mid.get? q

section commit
variable {conf : CopyConf} {src : SourceTree} {mid : FileMap} {listing : List (List String)}
  {order : List (List String × List (List String)) → List (List String × List (List String))}

/-- There is no empty file left to create. -/
theorem createEmpty_ok {fs : FileMap} {file : List String × Bytes} (hfile : file.1 ∈ src.files.keys)
    (hthere : conf.finalPath file.1 ∈ fs.keys) : conf.createEmpty fs file = .ok fs := by
  have hne := src.nonempty file.1 hfile
  have hrel := conf.parse_makeRelative hne fun n hn => (src.visible _ hfile n hn).1
  have hnonempty : makeRelative conf.srcRoot (conf.srcPath file.1) ≠ [] := by
    intro hnil
    rw [hnil] at hrel
    cases hrel
  unfold CopyConf.createEmpty makeRelativePath
  simp only [if_neg hnonempty, hrel]
  split_ifs
  · rfl
  · have hexists : fs.pathExists (conf.finalPath file.1) = true := decide_eq_true (.inl hthere)
    simp only [bind, Except.bind, conf.resolve_qualify]
    rw [← CopyConf.finalPath, hexists]
    rfl

theorem foldlM_createEmpty {fs : FileMap} {files : List (List String × Bytes)}
    (hfiles : ∀ e ∈ files, e.1 ∈ src.files.keys) (hthere : ∀ e ∈ files, conf.finalPath e.1 ∈ fs.keys) :
    files.foldlM conf.createEmpty fs = .ok fs := by
  induction files with
  | nil => rfl
  | cons e files ih =>
    rw [List.forall_mem_cons] at hfiles hthere
    rw [List.foldlM_cons, createEmpty_ok hfiles.1 hthere.1]
    exact ih hfiles.2 hthere.2

/-- The first two steps of the commit: every file that has chunks is put together, if none of them
    is a directory. -/
theorem assembleChunks_ok (hlisting : conf.Lists mid listing) (hnamed : WellNamed conf mid)
    (horder : ∀ l, (order l).Perm l)
    (hdirs : ∀ finalPath p, Part conf mid finalPath p → ¬ mid.IsDirectory finalPath) :
    ∃ chunks fs, chunksByFile listing = .ok chunks ∧
      (order chunks.entries).foldlM assemble mid = .ok fs ∧ Committed conf mid fs := by
  obtain ⟨chunks, hchunks, hgrouped⟩ := chunksByFile_grouped hlisting hnamed horder
  have hgroup : ∀ finalPath p, Part conf mid finalPath p → ∃ e ∈ order chunks.entries, e.1 = finalPath :=
    fun finalPath p hp => List.mem_map.1 (hgrouped.complete finalPath p hp)
  have hgrouped' : Grouped conf mid ([] ++ order chunks.entries) := hgrouped
  obtain ⟨fs, hloop, h⟩ := assembleAll_ok hgrouped' Assembled.nil fun e he => by
    obtain ⟨p, hp⟩ := hgrouped.exists_part he
    exact hdirs e.1 p hp
  rw [List.nil_append] at h
  refine ⟨chunks, fs, hchunks, hloop, fun finalPath p hp => ?_, fun finalPath p hp => ?_, fun q hq => ?_⟩
  · obtain ⟨e, he, rfl⟩ := hgroup finalPath p hp
    exact h.final e he
  · obtain ⟨e, he, rfl⟩ := hgroup finalPath p hp
    exact h.gone e he p hp
  · refine h.other q fun e he => ?_
    obtain ⟨p, hp⟩ := hgrouped.exists_part he
    exact ⟨(hq e.1 p hp).1, fun hq' => (hq e.1 q hq').2 rfl⟩

/-- They fail if one of them is. -/
theorem assembleChunks_error (hlisting : conf.Lists mid listing) (hnamed : WellNamed conf mid)
    (horder : ∀ l, (order l).Perm l)
    (hdirs : ∃ finalPath p, Part conf mid finalPath p ∧ mid.IsDirectory finalPath) :
    ∃ chunks err, chunksByFile listing = .ok chunks ∧
      (order chunks.entries).foldlM assemble mid = .error err := by
  obtain ⟨chunks, hchunks, hgrouped⟩ := chunksByFile_grouped hlisting hnamed horder
  obtain ⟨finalPath, p, hp, hdir⟩ := hdirs
  obtain ⟨e, he, rfl⟩ := List.mem_map.1 (hgrouped.complete finalPath p hp)
  have hgrouped' : Grouped conf mid ([] ++ order chunks.entries) := hgrouped
  obtain ⟨err, herr⟩ := assembleAll_error hgrouped' Assembled.nil ⟨e, he, hdir⟩
  exact ⟨chunks, err, hchunks, herr⟩

/-- **The commit**: every file that has chunks is put together, if none of them is a directory. -/
theorem commitJob_ok (hlisting : conf.Lists mid listing) (hnamed : WellNamed conf mid)
    (horder : ∀ l, (order l).Perm l)
    (hsrc : ∀ file ∈ src.files.keys, ∃ p, Part conf mid (conf.finalPath file) p)
    (hdirs : ∀ finalPath p, Part conf mid finalPath p → ¬ mid.IsDirectory finalPath) :
    ∃ fs, conf.commitJob src listing order mid = .ok fs ∧ Committed conf mid fs := by
  obtain ⟨chunks, fs, hchunks, hloop, h⟩ := assembleChunks_ok hlisting hnamed horder hdirs
  refine ⟨fs, ?_, h⟩
  unfold CopyConf.commitJob
  simp only [hchunks, bind, Except.bind] at hloop ⊢
  rw [hloop]
  refine foldlM_createEmpty (fun e he => List.mem_map_of_mem he) fun e he => ?_
  obtain ⟨p, hp⟩ := hsrc e.1 (List.mem_map_of_mem he)
  obtain ⟨parts, -, hget⟩ := h.final _ p hp
  exact Dict.mem_keys_of_get? hget

/-- It fails if one of them is. -/
theorem commitJob_error (src : SourceTree) (hlisting : conf.Lists mid listing) (hnamed : WellNamed conf mid)
    (horder : ∀ l, (order l).Perm l)
    (hdirs : ∃ finalPath p, Part conf mid finalPath p ∧ mid.IsDirectory finalPath) :
    ∃ err, conf.commitJob src listing order mid = .error err := by
  obtain ⟨chunks, err, hchunks, herr⟩ := assembleChunks_error hlisting hnamed horder hdirs
  refine ⟨err, ?_⟩
  unfold CopyConf.commitJob
  simp only [hchunks, bind, Except.bind] at herr ⊢
  rw [herr]

end commit

/-- The directories are those from before. -/
theorem Committed.isDirectory_iff {conf : CopyConf} {mid fs : FileMap} (h : Committed conf mid fs)
    {path : List String} : fs.IsDirectory path ↔ mid.IsDirectory path := by
  -- a file and its chunks lie below the same paths
  have hbelow : ∀ {finalPath p}, Part conf mid finalPath p →
      (path <+: finalPath ∧ path ≠ finalPath ↔ path <+: p ∧ path ≠ p) := by
    rintro finalPath p ⟨-, -, dir, base, start, -, rfl, rfl⟩
    have hstrict : ∀ n, path <+: dir ++ [n] ∧ path ≠ dir ++ [n] ↔ path <+: dir := by
      intro n
      rw [List.prefix_concat_iff]
      constructor
      · rintro ⟨heq | hpre, hne⟩
        · exact absurd heq hne
        · exact hpre
      · intro hpre
        refine ⟨.inr hpre, ?_⟩
        rintro rfl
        have hlen := hpre.length_le
        simp at hlen
    rw [hstrict, hstrict]
  constructor
  · rintro ⟨q, hq, hstrict⟩
    by_cases hfinal : ∃ p, Part conf mid q p
    · obtain ⟨p, hp⟩ := hfinal
      exact ⟨p, hp.1, (hbelow hp).1 hstrict⟩
    by_cases hpart : ∃ finalPath, Part conf mid finalPath q
    · obtain ⟨finalPath, hp⟩ := hpart
      exact absurd hq (Dict.get?_eq_none_iff.1 (h.gone finalPath q hp))
    · have hkeep := h.other q fun finalPath p hp =>
        ⟨fun heq => hfinal ⟨p, heq ▸ hp⟩, fun heq => hpart ⟨finalPath, heq ▸ hp⟩⟩
      rw [Dict.mem_keys_iff, hkeep, ← Dict.mem_keys_iff] at hq
      exact ⟨q, hq, hstrict⟩
  · rintro ⟨q, hq, hstrict⟩
    by_cases hpart : ∃ finalPath, Part conf mid finalPath q
    · obtain ⟨finalPath, hp⟩ := hpart
      obtain ⟨parts, -, hget⟩ := h.final finalPath q hp
      exact ⟨finalPath, Dict.mem_keys_of_get? hget, (hbelow hp).2 hstrict⟩
    by_cases hfinal : ∃ p, Part conf mid q p
    · obtain ⟨p, hp⟩ := hfinal
      obtain ⟨parts, -, hget⟩ := h.final q p hp
      exact ⟨q, Dict.mem_keys_of_get? hget, hstrict⟩
    · have hkeep := h.other q fun finalPath p hp =>
        ⟨fun heq => hfinal ⟨p, heq ▸ hp⟩, fun heq => hpart ⟨finalPath, heq ▸ hp⟩⟩
      rw [Dict.mem_keys_iff, ← hkeep, ← Dict.mem_keys_iff] at hq
      exact ⟨q, hq, hstrict⟩

end ServerlessYarn
