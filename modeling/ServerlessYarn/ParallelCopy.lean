/-
  ServerlessYARN model — the block-parallel HDFS copy
  (`simple_distcp/src/main/java/HDFSBlockParallelCopy.java`).

  Each map task copies one split of a file to a chunk
  `.copying.<name>.part-<offset>` next to its destination.  When the job
  commits, the chunks are listed, grouped by their final path and put together
  in the order of their offsets.  The order of the tasks, that of the listing and
  that of the hash map are parameters.

  * `copyRange_eq`: the copy loop of a task copies the bytes of its split;
  * `finalPath?_chunkPath`, `offset_chunkPath`: what the committer reads off the
    name of a chunk;
  * `makeRelative_absolute`, `makeRelative_relative`: where a file goes.  A source
    path that is relative is not a prefix of the paths of its files, which then all
    go to the top of the destination.
-/
import ServerlessYarn.Hdfs
import ServerlessYarn.Lib.Grouping
import ServerlessYarn.Lib.Ranges
import ServerlessYarn.Lib.ZeroPad
import Mathlib.Data.List.Sort

namespace ServerlessYarn

/-! ## The source -/

/-- A name that the input format does not ignore. -/
def IsVisible (n : String) : Prop := IsName n ∧ n.toList.head? ≠ some '.' ∧ n.toList.head? ≠ some '_'

/-- A directory tree of regular files: the bytes of each file, by its path in the tree. -/
structure SourceTree where
  files : FileMap
  nonempty : ∀ file ∈ files.keys, file ≠ []
  visible : ∀ file ∈ files.keys, ∀ n ∈ file, IsVisible n
  tree : ∀ file ∈ files.keys, ∀ file' ∈ files.keys, file <+: file' → file = file'

/-- How many bytes `in.read(buf, 0, n)` returns, for a file and a position before its end. -/
structure Reads where
  count : List String → ℕ → ℕ → ℕ
  pos : ∀ file position n, 0 < n → 0 < count file position n
  le : ∀ file position n, count file position n ≤ n

/-- `FileSplit`, of a file of the tree. -/
structure FileSplit where
  file : List String
  start : ℕ
  length : ℕ
deriving DecidableEq

/-- The ranges of the splits of a file: one of length zero if it is empty, else as many as
    there are, none of them empty. -/
def SplitLengths (bytes : Bytes) (lens : List ℕ) : Prop :=
  if bytes = [] then lens = [0] else (∀ len ∈ lens, 0 < len) ∧ lens.sum = bytes.length

/-- The splits of the tree, for the lengths of those of each file. -/
def SourceTree.splits (src : SourceTree) (lens : List String → List ℕ) : List FileSplit :=
  src.files.keys.flatMap fun file =>
    (consecutive 0 (lens file)).map fun range => ⟨file, range.1, range.2⟩

/-! ## The mapper -/

/-- `copy.src.root` and `copy.dst.root`, and the home directories of the user. -/
structure CopyConf where
  srcRoot : HdfsPath
  dstRoot : HdfsPath
  srcHome : List String
  dstHome : List String
  srcRoot_names : ∀ n ∈ srcRoot.names, IsName n
  srcRoot_nonempty : srcRoot.absolute = false → srcRoot.names ≠ []

namespace CopyConf

/-- The directory of the source, in its file system. -/
def srcDir (conf : CopyConf) : List String := conf.srcRoot.qualify conf.srcHome

/-- The directory of the destination, in its file system. -/
def dstDir (conf : CopyConf) : List String := conf.dstRoot.qualify conf.dstHome

end CopyConf

/-- `copy.buffer.bytes`. -/
def bufferBytes : ℕ := 1 * 1024 * 1024

/-- The copy loop, with as much fuel as there are bytes to copy. -/
def copyLoop (reads : Reads) (file : List String) (bytes : Bytes) :
    ℕ → ℕ → ℕ → Bytes → Bytes
  | 0, _, _, out => out
  | fuel + 1, position, toCopy, out =>
    if toCopy = 0 ∨ bytes.length ≤ position then out
    else
      let r := min (reads.count file position (min bufferBytes toCopy)) (bytes.length - position)
      copyLoop reads file bytes fuel (position + r) (toCopy - r) (out ++ (bytes.drop position).take r)

/-- `in.seek(start)`, and the copy loop. -/
def copyRange (reads : Reads) (file : List String) (bytes : Bytes) (start len : ℕ) : Bytes :=
  copyLoop reads file bytes len start len []

/-- `makeRelative`. -/
def makeRelative (root p : HdfsPath) : List Char :=
  let b := root.getPath
  let f := p.getPath
  if b <+: f then
    let r := f.drop b.length
    if r.head? = some '/' then r.tail else r
  else p.getName.toList

/-- `String.format(".copying.%s.part-%012d", base, start)`. -/
def chunkName (base : String) (start : ℕ) : String :=
  String.ofList (".copying.".toList ++ base.toList ++ ".part-".toList ++ zeroPad 12 start)

namespace CopyConf

/-- The path of a file of the source, as the splits and the listing give it. -/
def srcPath (conf : CopyConf) (file : List String) : HdfsPath := ⟨true, conf.srcDir ++ file⟩

/-- `rel`, and `dstDir`: the directory of the chunks of a file. -/
def chunkDir (conf : CopyConf) (rel : HdfsPath) : List String :=
  (conf.dstRoot.resolve rel.getParent).qualify conf.dstHome

/-- `map`. -/
def map (conf : CopyConf) (src : SourceTree) (reads : Reads) (split : FileSplit) (dst : FileMap) :
    Hdfs FileMap := do
  match src.files.get? split.file with
  | none => .error .fileNotFound
  | some bytes =>
    let rel ← HdfsPath.parse (makeRelative conf.srcRoot (conf.srcPath split.file))
    let dst ← dst.mkdirs (conf.chunkDir rel)
    dst.create (conf.chunkDir rel ++ [chunkName rel.getName split.start]) false
      (copyRange reads split.file bytes split.start split.length)

/-- The map tasks, in the order in which they finish. -/
def mapTasks (conf : CopyConf) (src : SourceTree) (reads : Reads) (tasks : List FileSplit)
    (dst : FileMap) : Hdfs FileMap :=
  tasks.foldlM (fun dst split => conf.map src reads split dst) dst

end CopyConf

/-! ## The committer -/

/-- `s.lastIndexOf(pattern)`. -/
def lastIndexOf (pattern : List Char) : List Char → Option ℕ
  | [] => if pattern = [] then some 0 else none
  | c :: cs =>
    match lastIndexOf pattern cs with
    | some i => some (i + 1)
    | none => if pattern <+: c :: cs then some 0 else none

/-- The final path of a file of the listing, if it is a chunk. -/
def finalPath? (path : List String) : Hdfs (Option (List String)) :=
  let n := (path.getLastD "").toList
  if ¬ ".copying.".toList <+: n then .ok none
  else match lastIndexOf ".part-".toList n with
    | none => .ok none
    | some i =>
      -- `n.substring(".copying.".length(), i)`
      if i < ".copying.".toList.length then .error .indexOutOfBounds
      else
        let base := (n.take i).drop ".copying.".toList.length
        if base = [] then .error .illegalArgument
        else .ok (some (path.dropLast ++ [String.ofList base]))

/-- `Long.parseLong(s)` of a string of digits; other strings throw. -/
def parseLong (s : List Char) : Hdfs ℕ :=
  if s ≠ [] ∧ s.all Char.isDigit then .ok (Nat.ofDigitChars 10 s 0) else .error .numberFormat

/-- The offset of a chunk. -/
def offset (path : List String) : Hdfs ℕ :=
  let n := (path.getLastD "").toList
  match lastIndexOf ".part-".toList n with
  | none => parseLong (n.drop 5)
  | some i => parseLong (n.drop (i + 6))

/-- The body of the loop over the listing. -/
def addChunk (chunks : Dict (List String) (List (List String))) (path : List String) :
    Hdfs (Dict (List String) (List (List String))) := do
  match ← finalPath? path with
  | none => return chunks
  | some finalPath => return chunks.addTo finalPath path

/-- `chunksByFile`, for a listing of the files of the destination. -/
def chunksByFile (listing : List (List String)) : Hdfs (Dict (List String) (List (List String))) :=
  listing.foldlM addChunk .empty

/-- `parts.sort(…)`; one chunk is not compared. -/
def sortParts (parts : List (List String)) : Hdfs (List (List String)) :=
  if parts.length < 2 then .ok parts
  else do
    let keyed ← parts.mapM fun p => do return (← offset p, p)
    return (keyed.insertionSort fun a b => a.1 ≤ b.1).map Prod.snd

/-- The body of the loop over the final files. -/
def assemble (dst : FileMap) (e : List String × List (List String)) : Hdfs FileMap := do
  match ← sortParts e.2 with
  | [] => return dst
  | first :: rest =>
    let dst ← dst.delete e.1
    let dst := dst.rename first e.1
    if rest = [] then return dst else dst.concat e.1 rest

/-- `makeRelativePath`. -/
def makeRelativePath (root p : HdfsPath) : Hdfs HdfsPath :=
  let r := makeRelative root p
  HdfsPath.parse (if r = [] then p.getName.toList else r)

namespace CopyConf

/-- The body of the loop over the files of the source. -/
def createEmpty (conf : CopyConf) (dst : FileMap) (file : List String × Bytes) : Hdfs FileMap := do
  if file.2.length ≠ 0 then return dst
  let rel ← makeRelativePath conf.srcRoot (conf.srcPath file.1)
  let dstEmpty := (conf.dstRoot.resolve rel).qualify conf.dstHome
  if dst.pathExists dstEmpty then return dst
  let dst ← dst.mkdirs dstEmpty.dropLast
  dst.create dstEmpty true []

/-- `dstFs.listFiles(dstRoot, true)` of a directory that exists, in some order. -/
structure Lists (conf : CopyConf) (dst : FileMap) (listing : List (List String)) : Prop where
  nodup : listing.Nodup
  mem_iff : ∀ path, path ∈ listing ↔ path ∈ dst.keys ∧ conf.dstDir <+: path

/-- `commitJob`, for the order of the hash map. -/
def commitJob (conf : CopyConf) (src : SourceTree) (listing : List (List String))
    (order : List (List String × List (List String)) → List (List String × List (List String)))
    (dst : FileMap) : Hdfs FileMap := do
  let chunks ← chunksByFile listing
  let dst ← (order chunks.entries).foldlM assemble dst
  src.files.entries.foldlM conf.createEmpty dst

end CopyConf

/-! ## The bytes of a chunk -/

theorem copyLoop_eq (reads : Reads) (file : List String) (bytes : Bytes) {fuel position toCopy : ℕ}
    {out : Bytes} (hfuel : toCopy ≤ fuel) :
    copyLoop reads file bytes fuel position toCopy out = out ++ (bytes.drop position).take toCopy := by
  induction fuel generalizing position toCopy out with
  | zero =>
    obtain rfl : toCopy = 0 := by omega
    simp [copyLoop]
  | succ fuel ih =>
    unfold copyLoop
    split_ifs with hdone
    · rcases hdone with rfl | hend
      · simp
      · simp [List.drop_eq_nil_of_le hend]
    · have hrequest : 0 < min bufferBytes toCopy := by
        unfold bufferBytes
        omega
      have hpos := reads.pos file position _ hrequest
      have hle := reads.le file position (min bufferBytes toCopy)
      obtain ⟨r, hr⟩ : ∃ r, r = min (reads.count file position (min bufferBytes toCopy))
        (bytes.length - position) := ⟨_, rfl⟩
      simp only [← hr]
      rw [ih (by omega), List.append_assoc, ← List.drop_drop, ← List.take_add]
      congr 2
      omega

/-- The copy loop copies the bytes of the split. -/
theorem copyRange_eq (reads : Reads) (file : List String) (bytes : Bytes) (start len : ℕ) :
    copyRange reads file bytes start len = (bytes.drop start).take len := by
  unfold copyRange
  rw [copyLoop_eq reads file bytes le_rfl, List.nil_append]

/-! ## The name of a chunk -/

theorem lastIndexOf_eq_none {c : Char} {pattern s : List Char} (hs : c ∉ s) :
    lastIndexOf (c :: pattern) s = none := by
  induction s with
  | nil => rfl
  | cons a s ih =>
    rw [List.mem_cons, not_or] at hs
    unfold lastIndexOf
    rw [ih hs.2]
    refine if_neg fun hpre => hs.1 ?_
    obtain ⟨rest, hrest⟩ := hpre
    exact (List.cons.inj hrest).1

/-- The last occurrence of a pattern whose first character does not come again. -/
theorem lastIndexOf_append {c : Char} {pattern before after : List Char}
    (hafter : c ∉ pattern ++ after) :
    lastIndexOf (c :: pattern) (before ++ c :: pattern ++ after) = some before.length := by
  induction before with
  | nil =>
    change lastIndexOf (c :: pattern) (c :: (pattern ++ after)) = some 0
    unfold lastIndexOf
    rw [lastIndexOf_eq_none hafter]
    exact if_pos ⟨after, rfl⟩
  | cons a before ih =>
    change lastIndexOf (c :: pattern) (a :: (before ++ c :: pattern ++ after)) = _
    unfold lastIndexOf
    rw [ih]
    rfl

theorem toList_chunkName (base : String) (start : ℕ) : (chunkName base start).toList =
    (".copying.".toList ++ base.toList) ++ '.' :: "part-".toList ++ zeroPad 12 start := by
  unfold chunkName
  rw [String.toList_ofList]
  rfl

theorem lastIndexOf_chunkName (base : String) (start : ℕ) :
    lastIndexOf ".part-".toList (chunkName base start).toList = some (9 + base.toList.length) := by
  have hdot : '.' ∉ "part-".toList ++ zeroPad 12 start := by
    rw [List.mem_append, not_or]
    refine ⟨by decide, fun hmem => ?_⟩
    have hdigit := isDigit_of_mem_zeroPad hmem
    exact absurd hdigit (by decide)
  rw [toList_chunkName]
  refine (lastIndexOf_append hdot).trans ?_
  rw [List.length_append]
  rfl

/-- The committer reads the final path off the name of a chunk. -/
theorem finalPath?_chunkPath {base : String} (hbase : base ≠ "") (dir : List String) (start : ℕ) :
    finalPath? (dir ++ [chunkName base start]) = .ok (some (dir ++ [base])) := by
  have hlast : (dir ++ [chunkName base start]).getLastD "" = chunkName base start := by simp
  have hpre : ".copying.".toList <+: (chunkName base start).toList := by
    rw [toList_chunkName, List.append_assoc, List.append_assoc]
    exact List.prefix_append _ _
  have hnine : ".copying.".toList.length = 9 := rfl
  have hname : ((chunkName base start).toList.take (9 + base.toList.length)).drop 9 = base.toList := by
    have hlen : (".copying.".toList ++ base.toList).length = 9 + base.toList.length := by
      rw [List.length_append, hnine]
    rw [toList_chunkName, List.append_assoc, ← hlen, List.take_left']
    · exact List.drop_left' hnine
    · rfl
  have hne : base.toList ≠ [] := fun hnil => hbase (String.toList_eq_nil_iff.1 hnil)
  unfold finalPath?
  simp only [hlast, if_neg (not_not.2 hpre), lastIndexOf_chunkName, hnine]
  rw [if_neg (by omega), hname, if_neg hne, List.dropLast_concat, String.ofList_toList]

theorem offset_chunkPath (base : String) (dir : List String) (start : ℕ) :
    offset (dir ++ [chunkName base start]) = .ok start := by
  have hlast : (dir ++ [chunkName base start]).getLastD "" = chunkName base start := by simp
  have hdigits : (chunkName base start).toList.drop (9 + base.toList.length + 6) = zeroPad 12 start := by
    rw [toList_chunkName]
    refine List.drop_left' ?_
    rw [List.length_append, List.length_append]
    rfl
  unfold offset
  simp only [hlast, lastIndexOf_chunkName, hdigits]
  unfold parseLong
  rw [if_pos ⟨zeroPad_ne_nil 12 start, List.all_eq_true.2 fun c hc => isDigit_of_mem_zeroPad hc⟩,
    ofDigitChars_zeroPad]

/-- Distinct files or offsets have distinct chunks. -/
theorem chunkName_injective {base base' : String} {start start' : ℕ}
    (h : chunkName base start = chunkName base' start') : base = base' ∧ start = start' := by
  have hoffset := offset_chunkPath base [] start
  rw [h, offset_chunkPath base' [] start'] at hoffset
  obtain rfl : start' = start := Except.ok.inj hoffset
  refine ⟨?_, rfl⟩
  have hlist := congrArg String.toList h
  rw [toList_chunkName, toList_chunkName] at hlist
  have hbase := List.append_cancel_left (List.append_cancel_right (List.append_cancel_right hlist))
  exact String.toList_injective hbase

/-! ## Where a file goes -/

theorem head?_slashed_tail {names : List String} (hne : names ≠ []) (hnames : ∀ n ∈ names, IsName n) :
    ∃ c, (slashed names).tail.head? = some c ∧ c ≠ '/' := by
  obtain ⟨n, rest, rfl⟩ := List.exists_cons_of_ne_nil hne
  have hn : IsName n := hnames n List.mem_cons_self
  obtain ⟨c, cs, hc⟩ := List.exists_cons_of_ne_nil (toList_ne_nil hn)
  refine ⟨c, ?_, ?_⟩
  · change (n.toList ++ slashed rest).head? = some c
    rw [hc]
    rfl
  · rintro rfl
    exact hn.2 (hc ▸ List.mem_cons_self)

theorem slashed_append (names names' : List String) :
    slashed (names ++ names') = slashed names ++ slashed names' := List.flatMap_append

theorem slashed_eq_cons {names : List String} (hne : names ≠ []) :
    slashed names = '/' :: (slashed names).tail := by
  obtain ⟨n, rest, rfl⟩ := List.exists_cons_of_ne_nil hne
  rfl

/-- Below an absolute root, the path relative to it. -/
theorem makeRelative_absolute {names file : List String} (hne : file ≠ [])
    (hfile : ∀ n ∈ file, IsName n) :
    makeRelative ⟨true, names⟩ ⟨true, names ++ file⟩ = (slashed file).tail := by
  have hpath : (⟨true, names ++ file⟩ : HdfsPath).getPath = slashed names ++ slashed file := by
    unfold HdfsPath.getPath
    rw [if_pos rfl, if_neg (by simp [hne]), slashed_append]
  unfold makeRelative
  rw [hpath]
  by_cases hroot : names = []
  · -- the root of the file system ends with a slash
    subst hroot
    have hb : (⟨true, []⟩ : HdfsPath).getPath = ['/'] := rfl
    have hsplit : slashed [] ++ slashed file = ['/'] ++ (slashed file).tail := slashed_eq_cons hne
    obtain ⟨c, hc, hslash⟩ := head?_slashed_tail hne hfile
    simp only [hb, hsplit, List.prefix_append, if_true]
    rw [List.drop_left' rfl, hc, if_neg (by simpa using hslash)]
  · have hb : (⟨true, names⟩ : HdfsPath).getPath = slashed names := by
      unfold HdfsPath.getPath
      rw [if_pos rfl, if_neg hroot]
    simp only [hb, List.prefix_append, if_true]
    rw [List.drop_left' rfl, slashed_eq_cons hne]
    rfl

/-- A relative root is not a prefix of the path of a file: its name is taken. -/
theorem makeRelative_relative {names dir file : List String} (hroot : names ≠ [])
    (hnames : ∀ n ∈ names, IsName n) (hne : file ≠ []) :
    makeRelative ⟨false, names⟩ ⟨true, dir ++ file⟩ = (file.getLastD "").toList := by
  have hpath : (⟨true, dir ++ file⟩ : HdfsPath).getPath = '/' :: (slashed (dir ++ file)).tail := by
    unfold HdfsPath.getPath
    rw [if_pos rfl, if_neg (by simp [hne])]
    exact slashed_eq_cons (by simp [hne])
  have hb : (⟨false, names⟩ : HdfsPath).getPath = (slashed names).tail := rfl
  obtain ⟨c, hc, hslash⟩ := head?_slashed_tail hroot hnames
  have hnot : ¬ (slashed names).tail <+: '/' :: (slashed (dir ++ file)).tail := by
    rintro ⟨rest, hrest⟩
    obtain ⟨cs, hcs⟩ : ∃ cs, (slashed names).tail = c :: cs := by
      rcases h : (slashed names).tail with _ | ⟨a, cs⟩
      · rw [h] at hc
        cases hc
      · rw [h] at hc
        cases hc
        exact ⟨cs, rfl⟩
    rw [hcs] at hrest
    exact hslash (List.cons.inj hrest).1
  unfold makeRelative
  rw [hpath, hb]
  simp only [if_neg hnot]
  unfold HdfsPath.getName
  congr 1
  simp [List.getLastD_eq_getLast?, List.getLast?_append_of_ne_nil _ hne]

namespace CopyConf

variable (conf : CopyConf)

/-- Where a file goes below the destination. -/
def relative (file : List String) : List String :=
  if conf.srcRoot.absolute then file else [file.getLastD ""]

theorem parse_makeRelative {file : List String} (hne : file ≠ []) (hfile : ∀ n ∈ file, IsName n) :
    HdfsPath.parse (makeRelative conf.srcRoot (conf.srcPath file)) =
      .ok ⟨false, conf.relative file⟩ := by
  rcases hroot : conf.srcRoot with ⟨absolute, names⟩
  have hnames := conf.srcRoot_names
  have hnonempty := conf.srcRoot_nonempty
  unfold srcPath srcDir HdfsPath.qualify relative
  rw [hroot] at hnames hnonempty ⊢
  cases absolute with
  | true =>
    simp only [if_true]
    rw [makeRelative_absolute hne hfile, parse_relString hne hfile]
  | false =>
    simp only [Bool.false_eq_true, if_false]
    rw [makeRelative_relative (hnonempty rfl) hnames hne]
    have hone : (slashed [file.getLastD ""]).tail = (file.getLastD "").toList := by
      simp [slashed]
    rw [← hone, parse_relString (by simp)]
    intro n hn
    rw [List.mem_singleton.1 hn]
    exact hfile _ (getLastD_mem hne)

theorem relative_ne_nil {file : List String} (hne : file ≠ []) : conf.relative file ≠ [] := by
  unfold relative
  split_ifs
  · exact hne
  · simp

/-- The copy of a file. -/
def finalPath (file : List String) : List String := conf.dstDir ++ conf.relative file

/-- A chunk of a file. -/
def chunkPath (file : List String) (start : ℕ) : List String :=
  conf.dstDir ++ (conf.relative file).dropLast ++ [chunkName ((conf.relative file).getLastD "") start]

theorem resolve_qualify (rel : List String) :
    (conf.dstRoot.resolve ⟨false, rel⟩).qualify conf.dstHome = conf.dstDir ++ rel := by
  rcases hroot : conf.dstRoot with ⟨absolute, names⟩
  unfold dstDir HdfsPath.resolve HdfsPath.qualify
  rw [hroot]
  cases absolute with
  | true => rfl
  | false => simp

/-- A map task creates one chunk. -/
theorem map_eq {src : SourceTree} (reads : Reads) {split : FileSplit} {bytes : Bytes}
    (hfile : src.files.get? split.file = some bytes) (dst : FileMap) :
    conf.map src reads split dst =
      dst.mkdirs (conf.dstDir ++ (conf.relative split.file).dropLast) >>= fun dst =>
        dst.create (conf.chunkPath split.file split.start) false
          ((bytes.drop split.start).take split.length) := by
  have hkeys : split.file ∈ src.files.keys := Dict.mem_keys_of_get? hfile
  have hne : split.file ≠ [] := src.nonempty _ hkeys
  have hrel := conf.parse_makeRelative hne fun n hn => (src.visible _ hkeys n hn).1
  have hdir : conf.chunkDir ⟨false, conf.relative split.file⟩ =
      conf.dstDir ++ (conf.relative split.file).dropLast := conf.resolve_qualify _
  unfold map chunkPath
  rw [hfile, ← hdir]
  simp only [hrel, copyRange_eq]
  rfl

end CopyConf

end ServerlessYarn
