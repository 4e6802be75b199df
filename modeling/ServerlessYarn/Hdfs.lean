/-
  ServerlessYARN model — what the copy jobs use of HDFS.

  A file system is a map from paths to bytes; a directory is a path below which
  there is a file.  A path is absolute, or relative to the home directory of the
  user.

  * `parse_relString`: the text of a relative path can be read back;
  * `mkdirs_eq_ok`, `create_eq_ok`, `delete_eq_ok`: when an operation succeeds,
    and with which files.
-/
import ServerlessYarn.Lib.Dict

namespace ServerlessYarn

inductive HdfsError where
  | fileAlreadyExists
  | parentNotDirectory
  | notEmptyDirectory
  | fileNotFound
  | illegalArgument
  | numberFormat
  | indexOutOfBounds
deriving DecidableEq

/-- A computation that may throw. -/
abbrev Hdfs (α : Type) := Except HdfsError α

theorem hdfs_bind_eq_ok {α β : Type} {x : Hdfs α} {f : α → Hdfs β} {b : β} :
    (x >>= f) = .ok b ↔ ∃ a, x = .ok a ∧ f a = .ok b := by
  cases x <;> simp [bind, Except.bind]

/-! ## Paths -/

/-- `Path`; its names are the components. -/
structure HdfsPath where
  absolute : Bool
  names : List String
deriving DecidableEq

/-- Each name with a slash before it. -/
def slashed (names : List String) : List Char := names.flatMap fun n => '/' :: n.toList

namespace HdfsPath

/-- `p.toUri().getPath()`. -/
def getPath (p : HdfsPath) : List Char :=
  if p.absolute then if p.names = [] then ['/'] else slashed p.names
  else (slashed p.names).tail

/-- `new Path(s)`; empty names are dropped. -/
def parse (s : List Char) : Hdfs HdfsPath :=
  if s = [] then .error .illegalArgument
  else .ok ⟨s.head? = some '/', ((s.splitOn '/').filter (· ≠ [])).map String.ofList⟩

def getName (p : HdfsPath) : String := p.names.getLastD ""

/-- `new Path(parent, child)`. -/
def resolve (parent child : HdfsPath) : HdfsPath :=
  if child.absolute then child else ⟨parent.absolute, parent.names ++ child.names⟩

/-- `p.getParent()` of a relative path, `.` at the top. -/
def getParent (p : HdfsPath) : HdfsPath := ⟨p.absolute, p.names.dropLast⟩

/-- The path in the file system, for a home directory. -/
def qualify (home : List String) (p : HdfsPath) : List String :=
  if p.absolute then p.names else home ++ p.names

end HdfsPath

/-- A name that can be a component of a path. -/
def IsName (n : String) : Prop := n ≠ "" ∧ '/' ∉ n.toList

theorem toList_ne_nil {n : String} (h : IsName n) : n.toList ≠ [] := by
  intro hnil
  exact h.1 (String.toList_eq_nil_iff.1 hnil)

/-- A path is its parent and its name. -/
theorem dropLast_append_getLastD {names : List String} (hne : names ≠ []) :
    names.dropLast ++ [names.getLastD ""] = names := by
  rcases List.eq_nil_or_concat names with rfl | ⟨dir, n, rfl⟩
  · exact absurd rfl hne
  · simp

theorem getLastD_mem {names : List String} (hne : names ≠ []) : names.getLastD "" ∈ names := by
  rw [← dropLast_append_getLastD hne]
  simp

theorem splitOn_slashed {names : List String} (hnames : ∀ n ∈ names, IsName n) {s : List Char}
    (hs : '/' ∉ s) : (s ++ slashed names).splitOn '/' = s :: names.map String.toList := by
  induction names generalizing s with
  | nil =>
    rw [slashed, List.flatMap_nil, List.append_nil, List.map_nil, List.splitOn_eq_singleton hs]
  | cons n names ih =>
    have hn : '/' ∉ n.toList := (hnames n List.mem_cons_self).2
    have hrest := ih (fun m hm => hnames m (List.mem_cons_of_mem _ hm)) hn
    change (s ++ '/' :: (n.toList ++ slashed names)).splitOn '/' = _
    rw [List.splitOn_append_cons_self, List.splitOn_eq_singleton hs, hrest]
    rfl

/-- The text of a relative path can be read back. -/
theorem parse_relString {names : List String} (hne : names ≠ []) (hnames : ∀ n ∈ names, IsName n) :
    HdfsPath.parse (slashed names).tail = .ok ⟨false, names⟩ := by
  obtain ⟨n, rest, rfl⟩ := List.exists_cons_of_ne_nil hne
  have hn : IsName n := hnames n List.mem_cons_self
  have htext : (slashed (n :: rest)).tail = n.toList ++ slashed rest := rfl
  have hsplit : (n.toList ++ slashed rest).splitOn '/' = n.toList :: rest.map String.toList :=
    splitOn_slashed (fun m hm => hnames m (List.mem_cons_of_mem _ hm)) hn.2
  have hkeep : ((n :: rest).map String.toList).filter (· ≠ []) = (n :: rest).map String.toList := by
    rw [List.filter_eq_self]
    intro s hs
    obtain ⟨m, hm, rfl⟩ := List.mem_map.1 hs
    simpa using toList_ne_nil (hnames m hm)
  have hhead : (n.toList ++ slashed rest).head? ≠ some '/' := by
    obtain ⟨c, cs, hc⟩ := List.exists_cons_of_ne_nil (toList_ne_nil hn)
    rw [hc]
    intro h
    refine hn.2 ?_
    rw [hc]
    exact (Option.some.inj h) ▸ List.mem_cons_self
  unfold HdfsPath.parse
  rw [htext, if_neg (by simp [toList_ne_nil hn]), hsplit, ← List.map_cons, hkeep]
  rw [decide_eq_false hhead, List.map_map]
  simp [Function.comp_def]

/-! ## Files -/

abbrev Bytes := List UInt8

/-- The files of a file system. -/
abbrev FileMap := Dict (List String) Bytes

namespace FileMap

/-- There is a file below the path. -/
def IsDirectory (fs : FileMap) (path : List String) : Prop := ∃ q ∈ fs.keys, path <+: q ∧ path ≠ q

instance (fs : FileMap) (path : List String) : Decidable (fs.IsDirectory path) :=
  inferInstanceAs (Decidable (∃ q ∈ fs.keys, _))

/-- `fs.exists(path)`. -/
def pathExists (fs : FileMap) (path : List String) : Bool := path ∈ fs.keys ∨ fs.IsDirectory path

/-- `fs.mkdirs(dir)`. -/
def mkdirs (fs : FileMap) (dir : List String) : Hdfs FileMap :=
  if ∃ q ∈ fs.keys, q <+: dir then .error .parentNotDirectory else .ok fs

/-- `fs.create(path, overwrite)`, and the bytes that are written until it is closed. -/
def create (fs : FileMap) (path : List String) (overwrite : Bool) (bytes : Bytes) : Hdfs FileMap :=
  if fs.IsDirectory path ∨ (path ∈ fs.keys ∧ overwrite = false) then .error .fileAlreadyExists
  else .ok (fs.set path bytes)

/-- `fs.delete(path, false)`. -/
def delete (fs : FileMap) (path : List String) : Hdfs FileMap :=
  if fs.IsDirectory path then .error .notEmptyDirectory else .ok (fs.erase path)

/-- `fs.rename(src, dst)` of a file; it returns false if there is nothing to rename, or a
    file in its place, and moves the file into a directory. -/
def rename (fs : FileMap) (src dst : List String) : FileMap :=
  match fs.get? src with
  | none => fs
  | some bytes =>
    let dst := if fs.IsDirectory dst then dst ++ [src.getLastD ""] else dst
    if dst ∈ fs.keys then fs else (fs.erase src).set dst bytes

/-- `fs.concat(target, sources)`: the sources are appended in order, and removed. -/
def concat (fs : FileMap) (target : List String) (sources : List (List String)) : Hdfs FileMap :=
  match fs.get? target, sources.mapM fs.get? with
  | some bytes, some contents =>
    .ok ((sources.foldl Dict.erase fs).set target (bytes ++ contents.flatten))
  | _, _ => .error .fileNotFound

theorem mkdirs_eq_ok {fs fs' : FileMap} {dir : List String} :
    fs.mkdirs dir = .ok fs' ↔ (∀ q ∈ fs.keys, ¬ q <+: dir) ∧ fs' = fs := by
  unfold mkdirs
  split_ifs with h
  · refine iff_of_false (by simp) ?_
    rintro ⟨hnone, -⟩
    obtain ⟨q, hq, hpre⟩ := h
    exact hnone q hq hpre
  · constructor
    · intro heq
      cases heq
      exact ⟨fun q hq hpre => h ⟨q, hq, hpre⟩, rfl⟩
    · rintro ⟨-, rfl⟩
      rfl

theorem create_eq_ok {fs fs' : FileMap} {path : List String} {overwrite : Bool} {bytes : Bytes} :
    fs.create path overwrite bytes = .ok fs' ↔
      ¬ fs.IsDirectory path ∧ (path ∈ fs.keys → overwrite = true) ∧ fs' = fs.set path bytes := by
  unfold create
  split_ifs with h
  · refine iff_of_false (by simp) ?_
    rintro ⟨hdir, hover, -⟩
    rcases h with h | ⟨hmem, hfalse⟩
    · exact hdir h
    · rw [hover hmem] at hfalse
      cases hfalse
  · rw [not_or, not_and, Bool.not_eq_false] at h
    constructor
    · intro heq
      cases heq
      exact ⟨h.1, h.2, rfl⟩
    · rintro ⟨-, -, rfl⟩
      rfl

theorem delete_eq_ok {fs fs' : FileMap} {path : List String} :
    fs.delete path = .ok fs' ↔ ¬ fs.IsDirectory path ∧ fs' = fs.erase path := by
  unfold delete
  split_ifs with h
  · exact iff_of_false (by simp) fun hdir => hdir.1 h
  · constructor
    · intro heq
      cases heq
      exact ⟨h, rfl⟩
    · rintro ⟨-, rfl⟩
      rfl

theorem get?_eraseAll (fs : FileMap) (sources : List (List String)) (p : List String) :
    (sources.foldl Dict.erase fs).get? p = if p ∈ sources then none else fs.get? p := by
  induction sources generalizing fs with
  | nil => rfl
  | cons s sources ih =>
    rw [List.foldl_cons, ih, Dict.get?_erase]
    by_cases hp : p = s
    · simp [hp]
    · by_cases hmem : p ∈ sources <;> simp [hp, hmem]

end FileMap

end ServerlessYarn
