/-
  ServerlessYARN model — the committer of the block-parallel copy.

  A chunk lies next to its final file, under a name that starts with `.copying.`.

  * `chunksByFile_grouped`: the listing is grouped into the chunks of each final
    path, in whatever order it comes;
  * `sortParts_ok`: the chunks of a file in the order of their offsets;
  * `OrderedParts`: they are determined by the destination.
-/
import ServerlessYarn.CopyTasks

namespace ServerlessYarn

/-! ## Chunks -/

/-- `path` is a chunk of the file `finalPath`. -/
def ChunkOf (finalPath path : List String) : Prop :=
  ∃ dir base start, IsVisible base ∧ finalPath = dir ++ [base] ∧ path = dir ++ [chunkName base start]

/-- The files of the destination that look like chunks are chunks. -/
def WellNamed (conf : CopyConf) (fs : FileMap) : Prop :=
  ∀ path ∈ fs.keys, conf.dstDir <+: path → ".copying.".toList <+: (path.getLastD "").toList →
    ∃ finalPath, ChunkOf finalPath path

theorem ChunkOf.copying {finalPath path : List String} (h : ChunkOf finalPath path) :
    ".copying.".toList <+: (path.getLastD "").toList := by
  obtain ⟨dir, base, start, -, -, rfl⟩ := h
  have hlast : (dir ++ [chunkName base start]).getLastD "" = chunkName base start := by simp
  rw [hlast, toList_chunkName, List.append_assoc, List.append_assoc]
  exact List.prefix_append _ _

theorem ChunkOf.finalPath?_eq {finalPath path : List String} (h : ChunkOf finalPath path) :
    finalPath? path = .ok (some finalPath) := by
  obtain ⟨dir, base, start, hbase, rfl, rfl⟩ := h
  exact finalPath?_chunkPath hbase.1.1 dir start

/-- A chunk has one final path. -/
theorem ChunkOf.unique {finalPath finalPath' path : List String} (h : ChunkOf finalPath path)
    (h' : ChunkOf finalPath' path) : finalPath = finalPath' :=
  Option.some.inj (Except.ok.inj (h.finalPath?_eq.symm.trans h'.finalPath?_eq))

/-- A final path does not look like a chunk. -/
theorem ChunkOf.not_copying {finalPath path : List String} (h : ChunkOf finalPath path) :
    ¬ ".copying.".toList <+: (finalPath.getLastD "").toList := by
  obtain ⟨dir, base, start, hbase, rfl, rfl⟩ := h
  have hlast : (dir ++ [base]).getLastD "" = base := by simp
  rw [hlast]
  rintro ⟨rest, hrest⟩
  refine hbase.2.1 ?_
  rw [← hrest]
  rfl

/-- The committer recognises the chunks. -/
theorem finalPath?_ok {path : List String}
    (h : ".copying.".toList <+: (path.getLastD "").toList → ∃ finalPath, ChunkOf finalPath path) :
    ∃ o, finalPath? path = .ok o ∧ ∀ finalPath, o = some finalPath ↔ ChunkOf finalPath path := by
  by_cases hcopying : ".copying.".toList <+: (path.getLastD "").toList
  · obtain ⟨finalPath, hchunk⟩ := h hcopying
    refine ⟨some finalPath, hchunk.finalPath?_eq, fun finalPath' => ?_⟩
    constructor
    · rintro heq
      rw [← Option.some.inj heq]
      exact hchunk
    · intro hchunk'
      rw [hchunk.unique hchunk']
  · refine ⟨none, ?_, fun finalPath' => ?_⟩
    · unfold finalPath?
      simp only [if_pos hcopying]
    · exact iff_of_false (by simp) fun hchunk => hcopying hchunk.copying

/-- A chunk of a file in the destination. -/
def Part (conf : CopyConf) (fs : FileMap) (finalPath path : List String) : Prop :=
  path ∈ fs.keys ∧ conf.dstDir <+: path ∧ ChunkOf finalPath path

/-! ## The groups -/

/-- The chunks of a listing, each with its final path. -/
def chunkPairs (listing : List (List String)) : List (List String × List String) :=
  listing.filterMap fun path =>
    match finalPath? path with
    | .ok (some finalPath) => some (finalPath, path)
    | _ => none

theorem foldlM_addChunk {listing : List (List String)}
    (h : ∀ path ∈ listing, ∃ o, finalPath? path = .ok o) (chunks : Dict (List String) (List (List String))) :
    listing.foldlM addChunk chunks =
      .ok ((chunkPairs listing).foldl (fun chunks e => chunks.addTo e.1 e.2) chunks) := by
  induction listing generalizing chunks with
  | nil => rfl
  | cons path listing ih =>
    rw [List.forall_mem_cons] at h
    obtain ⟨o, ho⟩ := h.1
    rw [List.foldlM_cons]
    unfold addChunk
    rw [ho]
    rcases o with _ | finalPath
    · have hpairs : chunkPairs (path :: listing) = chunkPairs listing := by
        unfold chunkPairs
        rw [List.filterMap_cons, ho]
      rw [hpairs, ← ih h.2]
      rfl
    · have hpairs : chunkPairs (path :: listing) = (finalPath, path) :: chunkPairs listing := by
        unfold chunkPairs
        rw [List.filterMap_cons, ho]
      rw [hpairs, List.foldl_cons, ← ih h.2]
      rfl

theorem chunksByFile_eq {listing : List (List String)}
    (h : ∀ path ∈ listing, ∃ o, finalPath? path = .ok o) :
    chunksByFile listing = .ok (Dict.groupPairs (chunkPairs listing)) :=
  foldlM_addChunk h .empty

/-- The final files, each with its chunks. -/
structure Grouped (conf : CopyConf) (fs : FileMap) (es : List (List String × List (List String))) :
    Prop where
  keys_nodup : (es.map Prod.fst).Nodup
  mem_iff : ∀ e ∈ es, ∀ path, path ∈ e.2 ↔ Part conf fs e.1 path
  nodup : ∀ e ∈ es, e.2.Nodup
  nonempty : ∀ e ∈ es, e.2 ≠ []
  complete : ∀ finalPath path, Part conf fs finalPath path → finalPath ∈ es.map Prod.fst

theorem Grouped.exists_part {conf : CopyConf} {fs : FileMap}
    {es : List (List String × List (List String))} (h : Grouped conf fs es)
    {e : List String × List (List String)} (he : e ∈ es) : ∃ p, Part conf fs e.1 p := by
  obtain ⟨p, hp⟩ := List.exists_mem_of_ne_nil _ (h.nonempty e he)
  exact ⟨p, (h.mem_iff e he p).1 hp⟩

theorem chunkPairs_eq_some {path : List String} {e : List String × List String} :
    (match finalPath? path with
      | .ok (some finalPath) => some (finalPath, path)
      | _ => none) = some e ↔ finalPath? path = .ok (some e.1) ∧ path = e.2 := by
  constructor
  · intro hsome
    split at hsome
    · next finalPath h =>
      cases hsome
      exact ⟨h, rfl⟩
    · cases hsome
  · rintro ⟨h, rfl⟩
    rw [h]

theorem mem_chunkPairs {listing : List (List String)} (finalPath path : List String) :
    (finalPath, path) ∈ chunkPairs listing ↔ path ∈ listing ∧ finalPath? path = .ok (some finalPath) := by
  unfold chunkPairs
  simp only [List.mem_filterMap, chunkPairs_eq_some]
  constructor
  · rintro ⟨_, hpath, h, rfl⟩
    exact ⟨hpath, h⟩
  · rintro ⟨hpath, h⟩
    exact ⟨path, hpath, h, rfl⟩

theorem nodup_chunkPairs {listing : List (List String)} (h : listing.Nodup) : (chunkPairs listing).Nodup := by
  refine h.filterMap fun path path' e he he' => ?_
  exact (chunkPairs_eq_some.1 he).2.trans (chunkPairs_eq_some.1 he').2.symm

/-- Whatever the order of the listing and of the hash map. -/
theorem chunksByFile_grouped {conf : CopyConf} {fs : FileMap} {listing : List (List String)}
    (hlisting : conf.Lists fs listing) (hnamed : WellNamed conf fs)
    {order : List (List String × List (List String)) → List (List String × List (List String))}
    (horder : ∀ l, (order l).Perm l) :
    ∃ chunks, chunksByFile listing = .ok chunks ∧ Grouped conf fs (order chunks.entries) := by
  have hok : ∀ path ∈ listing, ∃ o, finalPath? path = .ok o ∧
      ∀ finalPath, o = some finalPath ↔ ChunkOf finalPath path := by
    intro path hpath
    obtain ⟨hmem, hdir⟩ := (hlisting.mem_iff path).1 hpath
    exact finalPath?_ok (hnamed path hmem hdir)
  refine ⟨_, chunksByFile_eq fun path hpath => ?_, ?_⟩
  · obtain ⟨o, ho, -⟩ := hok path hpath
    exact ⟨o, ho⟩
  have hpart : ∀ finalPath path, path ∈ Dict.valuesOf (chunkPairs listing) finalPath ↔
      Part conf fs finalPath path := by
    intro finalPath path
    rw [Dict.mem_valuesOf, mem_chunkPairs, hlisting.mem_iff, and_assoc]
    unfold Part
    refine and_congr_right fun hmem => and_congr_right fun hdir => ?_
    obtain ⟨o, ho, hiff⟩ := hok path ((hlisting.mem_iff path).2 ⟨hmem, hdir⟩)
    rw [← hiff, ho, Except.ok.injEq]
  have hget : ∀ e ∈ (Dict.groupPairs (chunkPairs listing)).entries,
      e.2 = Dict.valuesOf (chunkPairs listing) e.1 ∧ e.2 ≠ [] := by
    intro e he
    have hsome := Dict.get?_eq_some_iff.2 he
    rw [Dict.get?_groupPairs] at hsome
    split_ifs at hsome with hnil
    rw [← Option.some.inj hsome]
    exact ⟨rfl, hnil⟩
  have hmem : ∀ e, e ∈ order (Dict.groupPairs (chunkPairs listing)).entries ↔
      e ∈ (Dict.groupPairs (chunkPairs listing)).entries := fun e => (horder _).mem_iff
  constructor
  · exact ((horder _).map _).nodup_iff.2 (Dict.nodup_keys _)
  · intro e he path
    rw [(hget e ((hmem e).1 he)).1, hpart]
  · intro e he
    rw [(hget e ((hmem e).1 he)).1]
    exact Dict.nodup_valuesOf (nodup_chunkPairs hlisting.nodup) e.1
  · exact fun e he => (hget e ((hmem e).1 he)).2
  · intro finalPath path hpath
    have hne : Dict.valuesOf (chunkPairs listing) finalPath ≠ [] :=
      List.ne_nil_of_mem ((hpart finalPath path).2 hpath)
    have hsome := Dict.get?_groupPairs (chunkPairs listing) finalPath
    rw [if_neg hne] at hsome
    exact List.mem_map.2 ⟨_, (hmem _).2 (Dict.get?_eq_some_iff.1 hsome), rfl⟩

/-! ## The chunks of a file -/

/-- The offset of a chunk, zero for other paths. -/
def startOf (path : List String) : ℕ :=
  match offset path with
  | .ok start => start
  | .error _ => 0

theorem startOf_chunkPath (base : String) (dir : List String) (start : ℕ) :
    startOf (dir ++ [chunkName base start]) = start := by
  unfold startOf
  rw [offset_chunkPath]

theorem ChunkOf.offset_eq {finalPath path : List String} (h : ChunkOf finalPath path) :
    offset path = .ok (startOf path) := by
  obtain ⟨dir, base, start, -, -, rfl⟩ := h
  rw [startOf_chunkPath, offset_chunkPath]

theorem ChunkOf.startOf_inj {finalPath path path' : List String} (h : ChunkOf finalPath path)
    (h' : ChunkOf finalPath path') (heq : startOf path = startOf path') : path = path' := by
  obtain ⟨dir, base, start, -, rfl, rfl⟩ := h
  obtain ⟨dir', base', start', -, hfinal, rfl⟩ := h'
  obtain ⟨rfl, hbase⟩ := List.append_inj' hfinal rfl
  obtain rfl := List.singleton_injective hbase
  rw [startOf_chunkPath, startOf_chunkPath] at heq
  rw [heq]

theorem mapM_offset {finalPath : List String} {parts : List (List String)}
    (hparts : ∀ p ∈ parts, ChunkOf finalPath p) :
    parts.mapM (fun p => (do return (← offset p, p) : Hdfs (ℕ × List String))) =
      .ok (parts.map fun p => (startOf p, p)) := by
  induction parts with
  | nil => rfl
  | cons p parts ih =>
    have hp := (hparts p List.mem_cons_self).offset_eq
    have hrest := ih fun q hq => hparts q (List.mem_cons_of_mem _ hq)
    rw [List.mapM_cons, hrest, hp]
    rfl

/-- The chunks of a file can be sorted, and their offsets then increase. -/
theorem sortParts_ok {finalPath : List String} {parts : List (List String)}
    (hparts : ∀ p ∈ parts, ChunkOf finalPath p) (hnodup : parts.Nodup) :
    ∃ sorted, sortParts parts = .ok sorted ∧ sorted.Perm parts ∧
      sorted.Pairwise fun p p' => startOf p < startOf p' := by
  unfold sortParts
  split_ifs with hlen
  · refine ⟨parts, rfl, List.Perm.refl _, ?_⟩
    rcases parts with _ | ⟨p, _ | ⟨q, rest⟩⟩
    · exact List.Pairwise.nil
    · exact List.pairwise_singleton _ _
    · simp only [List.length_cons] at hlen
      omega
  · obtain ⟨keyed, hkeyed⟩ : ∃ keyed : List (ℕ × List String),
        keyed = parts.map fun p => (startOf p, p) := ⟨_, rfl⟩
    have hperm : ((keyed.insertionSort fun a b => a.1 ≤ b.1).map Prod.snd).Perm parts := by
      refine ((List.perm_insertionSort _ keyed).map _).trans ?_
      rw [hkeyed, List.map_map]
      exact List.Perm.of_eq (List.map_id _)
    refine ⟨(keyed.insertionSort fun a b => a.1 ≤ b.1).map Prod.snd, ?_, hperm, ?_⟩
    · rw [mapM_offset hparts, ← hkeyed]
      rfl
    have hkey : ∀ e ∈ keyed.insertionSort fun a b => a.1 ≤ b.1, e.1 = startOf e.2 ∧ e.2 ∈ parts := by
      intro e he
      rw [List.mem_insertionSort, hkeyed] at he
      obtain ⟨p, hp, rfl⟩ := List.mem_map.1 he
      exact ⟨rfl, hp⟩
    have htotal : Std.Total fun a b : ℕ × List String => a.1 ≤ b.1 := ⟨fun a b => le_total a.1 b.1⟩
    have htrans : IsTrans (ℕ × List String) fun a b => a.1 ≤ b.1 := ⟨fun _ _ _ => le_trans⟩
    have hle := List.pairwise_insertionSort (fun a b : ℕ × List String => a.1 ≤ b.1) keyed
    have hne := List.pairwise_map.1 (hperm.nodup_iff.2 hnodup)
    refine List.pairwise_map.2 ((hle.and hne).imp_of_mem fun {e e'} he he' h => ?_)
    obtain ⟨hstart, hmem⟩ := hkey e he
    obtain ⟨hstart', hmem'⟩ := hkey e' he'
    rw [← hstart, ← hstart']
    refine lt_of_le_of_ne h.1 fun heq => h.2 ?_
    rw [hstart, hstart'] at heq
    exact (hparts _ hmem).startOf_inj (hparts _ hmem') heq

/-- The chunks of a file in the order of their offsets. -/
structure OrderedParts (conf : CopyConf) (fs : FileMap) (finalPath : List String)
    (parts : List (List String)) : Prop where
  mem_iff : ∀ p, p ∈ parts ↔ Part conf fs finalPath p
  increasing : parts.Pairwise fun p p' => startOf p < startOf p'

theorem OrderedParts.nodup {conf : CopyConf} {fs : FileMap} {finalPath : List String}
    {parts : List (List String)} (h : OrderedParts conf fs finalPath parts) : parts.Nodup := by
  refine h.increasing.imp ?_
  rintro p p' hlt rfl
  exact lt_irrefl _ hlt

/-- They are determined by the destination. -/
theorem OrderedParts.unique {conf : CopyConf} {fs : FileMap} {finalPath : List String}
    {parts parts' : List (List String)} (h : OrderedParts conf fs finalPath parts)
    (h' : OrderedParts conf fs finalPath parts') : parts = parts' := by
  have hperm : parts.Perm parts' := by
    rw [List.perm_ext_iff_of_nodup h.nodup h'.nodup]
    exact fun p => (h.mem_iff p).trans (h'.mem_iff p).symm
  exact eq_of_perm_of_keys hperm h.increasing h'.increasing

/-- The bytes of some chunks, one after the other. -/
def joined (fs : FileMap) (parts : List (List String)) : Bytes := parts.flatMap fun p => (fs.get? p).getD []

end ServerlessYarn
