/-
  ServerlessYARN model — tasks on shared file systems (`smart_sharedfs`).

  A task whose destination several hosts mount from one server must not run on all
  of them at once.  Each host looks up everybody's mounts, finds the share that the
  destination lies on, and runs the task only if it is the first host of its share.

  * `longestMount`, `shareIdForMount`: the mount under a path and the name of its share;
  * `isSharedPath`, `electLeader`, `runWrapped`, `runPip`: what a host decides;
  * `electLeader_eq`: the election is the one of `Election.leader?`;
  * `runWrapped_eq_executed_iff`, `runPip_eq_executed_iff`: who runs the task.
-/
import ServerlessYarn.Lib.Election
import ServerlessYarn.Lib.Grouping
import Mathlib.Algebra.Order.Ring.Int
import Mathlib.Data.List.DropRight
import Mathlib.Data.String.Basic

namespace ServerlessYarn

/-! ## Mounts -/

/-- A record of the mount facts; a missing key is `none`. -/
structure Mount where
  mount : Option String
  device : Option String
  fstype : Option String
deriving DecidableEq

/-- `DEFAULT_SHARED_FS_TYPES` -/
def defaultSharedFsTypes : List String :=
  ["nfs", "nfs4", "cifs", "smbfs", "glusterfs", "ceph", "cephfs",
    "gfs2", "lustre", "gpfs", "ocfs2", "afs", "sshfs"]

/-- The root of a POSIX path; two leading slashes, and not three, are kept. -/
def posixRoot : List Char → List Char
  | '/' :: '/' :: '/' :: _ => ['/']
  | '/' :: '/' :: _ => ['/', '/']
  | '/' :: _ => ['/']
  | _ => []

/-- The components of a POSIX path. -/
def posixParts (p : List Char) : List (List Char) :=
  (p.splitOn '/').filter fun x => x ≠ [] ∧ x ≠ ['.']

/-- `normalize_path`: the text of `PurePosixPath(p)`. -/
def normalizePath (p : String) : String :=
  let text := posixRoot p.toList ++ ['/'].intercalate (posixParts p.toList)
  if text = [] then "." else String.ofList text

/-- `mp.rstrip("/") + "/"` -/
def mountDir (mp : String) : List Char := mp.toList.rdropWhile (· = '/') ++ ['/']

/-- `dest == mp or dest.startswith(mp.rstrip("/") + "/")` -/
def UnderMount (dest mp : String) : Prop := dest = mp ∨ (mountDir mp).isPrefixOf dest.toList

instance (dest mp : String) : Decidable (UnderMount dest mp) := instDecidableOr

/-- The body of the loop of `longest_mount`, on `best` and `best_len`. -/
def longestStep (dest : String) (best : Option Mount × ℤ) (m : Mount) : Option Mount × ℤ :=
  match m.mount.filter (· ≠ "") with
  | none => best
  | some mp =>
    if UnderMount dest mp ∧ best.2 < mp.length then (some m, mp.length) else best

/-- `longest_mount` -/
def longestMount (mounts : List Mount) (dest : String) : Option Mount :=
  (mounts.foldl (longestStep (normalizePath dest)) (none, -1)).1

/-- `is_shared_fstype` -/
def isSharedFstype (fstype : String) (sharedTypes : Option (List String)) : Bool :=
  fstype ∈ sharedTypes.getD defaultSharedFsTypes

/-- `share_id_for_mount` -/
def shareIdForMount (m : Mount) : String :=
  m.fstype.getD "unknown" ++ ":" ++ m.device.getD "unknown"

theorem foldl_longestStep_mem (dest : String) (mounts : List Mount) :
    ∀ (best : Option Mount × ℤ) (m : Mount), (mounts.foldl (longestStep dest) best).1 = some m →
      best.1 = some m ∨ m ∈ mounts := by
  induction mounts with
  | nil => intro best m h; exact Or.inl h
  | cons m₀ mounts ih =>
    intro best m h
    rw [List.foldl_cons] at h
    rcases ih _ m h with hstep | hmem
    · unfold longestStep at hstep
      split at hstep
      · exact Or.inl hstep
      · split at hstep
        · exact Or.inr (List.mem_cons.2 (Or.inl (Option.some_inj.1 hstep).symm))
        · exact Or.inl hstep
    · exact Or.inr (List.mem_cons_of_mem _ hmem)

/-- The mount that is found is one of the table. -/
theorem mem_of_longestMount {mounts : List Mount} {dest : String} {m : Mount}
    (h : longestMount mounts dest = some m) : m ∈ mounts := by
  rcases foldl_longestStep_mem _ mounts _ m h with hnone | hmem
  · cases hnone
  · exact hmem

/-! ## What a host knows -/

/-- The facts of one host: `ansible_mounts`, and `mounts` under `ansible_facts`. -/
structure HostFacts where
  ansibleMounts : Option (List Mount) := none
  factsMounts : Option (List Mount) := none

/-- The variables of a task on one host. -/
structure TaskVars where
  inventoryHostname : String
  playHosts : List String
  hostvars : String → HostFacts
  smartSharedfsFstypes : List String := []
  smartSharedfsEnabled : Bool := true
  smartSharedfsAssumeSharedWhenUnknown : Bool := false

/-- An argument of a task. -/
inductive TaskArg where
  | str (s : String)
  | other

/-- What the plugin does with the task. -/
inductive TaskResult where
  | executed
  | skipped (msg : String)
deriving DecidableEq

namespace TaskVars

/-- The same task on the host `h`. -/
def on (v : TaskVars) (h : String) : TaskVars := { v with inventoryHostname := h }

/-- `_get_fact_mounts`; `[]` when there are none. -/
def getFactMounts (v : TaskVars) (host : String) : List Mount :=
  let facts := v.hostvars host
  let mounts := facts.ansibleMounts.getD []
  if mounts ≠ [] then mounts else facts.factsMounts.getD []

/-- `_shared_types` -/
def sharedTypes (v : TaskVars) : List String :=
  if v.smartSharedfsFstypes ≠ [] then v.smartSharedfsFstypes else defaultSharedFsTypes

/-- `_is_shared_path`: whether the path is shared, the share, the mount. -/
def isSharedPath (v : TaskVars) (host dest : String) : Bool × Option String × Option Mount :=
  if v.getFactMounts host = [] then (v.smartSharedfsAssumeSharedWhenUnknown, none, none)
  else match longestMount (v.getFactMounts host) dest with
    | none => (false, none, none)
    | some m =>
      let shared := isSharedFstype (m.fstype.getD "") (some v.sharedTypes)
      (shared, if shared then some (shareIdForMount m) else none, some m)

/-- The body of the loop of `_elect_leader`, on `shared_map` and `my_share_id`. -/
def electStep (v : TaskVars) (dest : String) (st : Dict String (List String) × Option String)
    (h : String) : Dict String (List String) × Option String :=
  let (shared, sid, _) := v.isSharedPath h dest
  let sharedMap := match sid.filter (· ≠ "") with
    | some id => if shared then st.1.addTo id h else st.1
    | none => st.1
  (sharedMap, if h = v.inventoryHostname ∧ shared then sid else st.2)

/-- `_elect_leader`: the share of this host and the leader of that share. -/
def electLeader (v : TaskVars) (hosts : List String) (dest : String) :
    Option String × Option String :=
  let (sharedMap, myShareId) := hosts.foldl (v.electStep dest) (Dict.empty, none)
  match myShareId.filter (· ≠ "") with
  | none => (none, none)
  | some id => (some id, (((sharedMap.get? id).getD []).insertionSort (· ≤ ·)).head?)

/-- `_get_dest_path` for the argument names of a plugin (`PATH_ARGNAMES`). -/
def getDestPath (argnames : List String) (args : String → Option TaskArg) : Option String :=
  argnames.findSome? fun k => match args k with
    | some (.str s) => if s ≠ "" then some s else none
    | _ => none

/-- `PATH_ARGNAMES` of the base class. -/
def pathArgnames : List String := ["dest", "path"]

/-- `PATH_ARGNAMES` of `make`. -/
def makePathArgnames : List String := ["chdir"]

/-- `run_wrapped` -/
def runWrapped (v : TaskVars) (argnames : List String) (args : String → Option TaskArg) :
    TaskResult :=
  match getDestPath argnames args with
  | none => .executed
  | some dest =>
    if ¬ v.smartSharedfsEnabled then .executed
    else match v.electLeader v.playHosts dest with
      | (none, _) => .executed
      | (some myShareId, leader) =>
        if leader = some v.inventoryHostname then .executed
        else .skipped ("Skipped on " ++ v.inventoryHostname ++
          ": destination is on shared filesystem (" ++ myShareId ++
          "). Executed on leader host: " ++ leader.getD "None" ++ ".")

end TaskVars

/-- What `_infer_pip_paths` returns. -/
structure PipPaths where
  venv : Option String := none
  target : Option String := none
  prefixDir : Option String := none
  root : Option String := none
  userSite : Option String := none

/-- The install targets that are given, in the order in which they are looked at. -/
def PipPaths.installTargets (paths : PipPaths) : List String :=
  [paths.venv, paths.target, paths.prefixDir, paths.root, paths.userSite].filterMap
    fun p => p.filter (· ≠ "")

/-- `run` of the `pip` plugin, with the inferred paths. -/
def TaskVars.runPip (v : TaskVars) (paths : PipPaths) : TaskResult :=
  if ¬ v.smartSharedfsEnabled then .executed
  else if paths.installTargets.any fun p => (v.isSharedPath v.inventoryHostname p).1 then
    match paths.installTargets with
    | [] => .executed
    | chosen :: _ =>
      match v.electLeader v.playHosts chosen with
      | (none, _) => .executed
      | (some myShareId, leader) =>
        if leader ≠ some v.inventoryHostname then
          .skipped ("pip install path is on shared FS (" ++ myShareId ++
            "); executed on leader " ++ leader.getD "None" ++ ".")
        else .executed
  else .executed

/-! ## Shares -/

/-- A share: the type and the device of the file system. -/
structure Share where
  fstype : Option String
  device : Option String
deriving DecidableEq

/-- The name that the election uses for a share. -/
def Share.id (s : Share) : String := s.fstype.getD "unknown" ++ ":" ++ s.device.getD "unknown"

theorem Share.id_ne_empty (s : Share) : s.id ≠ "" := by
  intro h
  have hlen := congrArg String.length h
  simp [Share.id] at hlen

namespace TaskVars

/-- The mount facts of the host are known. -/
def Known (v : TaskVars) (host : String) : Prop := v.getFactMounts host ≠ []

instance (v : TaskVars) (host : String) : Decidable (v.Known host) := instDecidableNot

/-- The share on which the path lies for the host. -/
def shareAt (v : TaskVars) (dest host : String) : Option Share :=
  (longestMount (v.getFactMounts host) dest).bind fun m =>
    if isSharedFstype (m.fstype.getD "") (some v.sharedTypes) then some ⟨m.fstype, m.device⟩
    else none

/-- The name of that share. -/
def shareIdAt (v : TaskVars) (dest host : String) : Option String :=
  (v.shareAt dest host).map Share.id

theorem shareAt_of_not_known {v : TaskVars} {host : String} (h : ¬ v.Known host) (dest : String) :
    v.shareAt dest host = none := by
  have hnil : v.getFactMounts host = [] := by simpa [Known] using h
  unfold shareAt
  rw [hnil]
  rfl

/-- For unknown mounts the option decides, and there is no name to elect by. -/
theorem isSharedPath_of_not_known {v : TaskVars} {host : String} (h : ¬ v.Known host)
    (dest : String) :
    v.isSharedPath host dest = (v.smartSharedfsAssumeSharedWhenUnknown, none, none) := by
  have hnil : v.getFactMounts host = [] := by simpa [Known] using h
  unfold isSharedPath
  rw [if_pos hnil]

theorem isSharedPath_of_known {v : TaskVars} {host : String} (h : v.Known host) (dest : String) :
    v.isSharedPath host dest = ((v.shareAt dest host).isSome, v.shareIdAt dest host,
      longestMount (v.getFactMounts host) dest) := by
  unfold isSharedPath shareIdAt shareAt
  rw [if_neg h]
  rcases longestMount (v.getFactMounts host) dest with _ | m
  · rfl
  · cases hs : isSharedFstype (m.fstype.getD "") (some v.sharedTypes) with
    | true => simp [hs, Share.id, shareIdForMount]
    | false => simp [hs]

theorem shareIdAt_filter (v : TaskVars) (dest host : String) :
    (v.shareIdAt dest host).filter (· ≠ "") = v.shareIdAt dest host := by
  unfold shareIdAt
  rcases v.shareAt dest host with _ | s
  · rfl
  · simp [Share.id_ne_empty]

/-! ## The election -/

/-- What one host adds: itself under the name of its share, and the name if it is this host. -/
theorem electStep_eq (v : TaskVars) (dest : String) (st : Dict String (List String) × Option String)
    (h : String) (hst : st.2 = none ∨ st.2 = v.shareIdAt dest v.inventoryHostname) :
    v.electStep dest st h =
      (((v.shareIdAt dest h).map fun id => st.1.addTo id h).getD st.1,
        if h = v.inventoryHostname then v.shareIdAt dest h else st.2) := by
  unfold electStep
  by_cases hk : v.Known h
  · rw [isSharedPath_of_known hk]
    simp only [shareIdAt_filter]
    rcases hs : v.shareAt dest h with _ | s
    · have hid : v.shareIdAt dest h = none := by rw [shareIdAt, hs, Option.map_none]
      by_cases hself : h = v.inventoryHostname
      · rw [← hself, hid, or_self] at hst
        simp [hid, hst]
      · simp [hid, hself]
    · have hid : v.shareIdAt dest h = some s.id := by rw [shareIdAt, hs, Option.map_some]
      simp [hid]
  · have hid : v.shareIdAt dest h = none := by
      rw [shareIdAt, shareAt_of_not_known hk, Option.map_none]
    rw [isSharedPath_of_not_known hk]
    by_cases hself : h = v.inventoryHostname
    · rw [← hself, hid, or_self] at hst
      simp [hid, hst]
    · simp [hid, hself]

/-- The hosts of the play under the names of their shares. -/
def sharedPairs (v : TaskVars) (dest : String) (hosts : List String) : List (String × String) :=
  hosts.filterMap fun h => (v.shareIdAt dest h).map (·, h)

theorem foldl_electStep (v : TaskVars) (dest : String) (hosts : List String) :
    ∀ st : Dict String (List String) × Option String,
      (st.2 = none ∨ st.2 = v.shareIdAt dest v.inventoryHostname) →
      hosts.foldl (v.electStep dest) st =
        ((v.sharedPairs dest hosts).foldl (fun d e => d.addTo e.1 e.2) st.1,
          if v.inventoryHostname ∈ hosts then v.shareIdAt dest v.inventoryHostname else st.2) := by
  induction hosts with
  | nil => intro st _; rfl
  | cons h hosts ih =>
    intro st hst
    rw [List.foldl_cons, electStep_eq v dest st h hst, ih]
    · have hpairs : v.sharedPairs dest (h :: hosts) =
          ((v.shareIdAt dest h).map (·, h)).toList ++ v.sharedPairs dest hosts := by
        rw [sharedPairs, List.filterMap_cons]
        rcases v.shareIdAt dest h with _ | id <;> rfl
      rw [hpairs, List.foldl_append]
      refine Prod.ext ?_ ?_
      · rcases v.shareIdAt dest h with _ | id <;> rfl
      · by_cases hself : h = v.inventoryHostname
        · simp [hself]
        · simp [hself, Ne.symm hself]
    · by_cases hself : h = v.inventoryHostname
      · exact Or.inr (by simp [hself])
      · simpa [hself] using hst

theorem valuesOf_sharedPairs (v : TaskVars) (dest : String) (hosts : List String) (id : String) :
    Dict.valuesOf (v.sharedPairs dest hosts) id =
      hosts.filter fun h => v.shareIdAt dest h = some id := by
  induction hosts with
  | nil => rfl
  | cons h hosts ih =>
    rw [sharedPairs, List.filterMap_cons, List.filter_cons]
    rw [sharedPairs] at ih
    rcases v.shareIdAt dest h with _ | id'
    · simpa using ih
    · rw [Option.map_some, Dict.valuesOf_cons, ih]
      by_cases hid : id' = id <;> simp [hid]

/-- **The election** as each host of the play computes it. -/
theorem electLeader_eq {v : TaskVars} (h : v.inventoryHostname ∈ v.playHosts) (dest : String) :
    v.electLeader v.playHosts dest =
      match v.shareIdAt dest v.inventoryHostname with
      | none => (none, none)
      | some id => (some id, Election.leader? (v.shareIdAt dest) v.playHosts id) := by
  unfold electLeader
  rw [foldl_electStep v dest v.playHosts _ (Or.inl rfl), if_pos h]
  simp only [shareIdAt_filter]
  rcases v.shareIdAt dest v.inventoryHostname with _ | id
  · rfl
  · have hget := Dict.get?_groupPairs (v.sharedPairs dest v.playHosts) id
    rw [valuesOf_sharedPairs] at hget
    rw [← Dict.groupPairs]
    simp only [hget]
    unfold Election.leader?
    split
    · next hnil => rw [hnil]; rfl
    · rfl

/-! ## Who runs the task -/

/-- **A wrapped task** runs on the hosts that the election lets act. -/
theorem runWrapped_eq_executed_iff {v : TaskVars} {argnames : List String}
    {args : String → Option TaskArg} {dest host : String}
    (hd : getDestPath argnames args = some dest) (hh : host ∈ v.playHosts) :
    (v.on host).runWrapped argnames args = .executed ↔
      (v.smartSharedfsEnabled = true → Election.Runs (v.shareIdAt dest) v.playHosts host) := by
  have helect : (v.on host).electLeader (v.on host).playHosts dest = _ :=
    electLeader_eq (v := v.on host) hh dest
  unfold runWrapped
  rw [hd]
  simp only [helect]
  rw [show (v.on host).shareIdAt dest = v.shareIdAt dest from rfl,
    show (v.on host).playHosts = v.playHosts from rfl,
    show (v.on host).inventoryHostname = host from rfl,
    show (v.on host).smartSharedfsEnabled = v.smartSharedfsEnabled from rfl]
  cases v.smartSharedfsEnabled with
  | false => simp
  | true =>
    rw [if_neg (by simp)]
    rcases hk : v.shareIdAt dest host with _ | id
    · simp [Election.runs_of_none hk]
    · rw [Election.runs_iff hk, ← Election.leader?_eq_some_iff]
      by_cases hl : Election.leader? (v.shareIdAt dest) v.playHosts id = some host <;> simp [hl]

/-- The install of packages is elected by the first target that is given. -/
theorem runPip_eq_executed_iff {v : TaskVars} {host : String} (paths : PipPaths)
    (hh : host ∈ v.playHosts) :
    (v.on host).runPip paths = .executed ↔
      (v.smartSharedfsEnabled = true → ∀ chosen, paths.installTargets.head? = some chosen →
        Election.Runs (v.shareIdAt chosen) v.playHosts host) := by
  unfold runPip
  rw [show (v.on host).playHosts = v.playHosts from rfl,
    show (v.on host).inventoryHostname = host from rfl,
    show (v.on host).smartSharedfsEnabled = v.smartSharedfsEnabled from rfl]
  cases v.smartSharedfsEnabled with
  | false => simp
  | true =>
    rw [if_neg (by simp)]
    rcases ht : paths.installTargets with _ | ⟨chosen, rest⟩
    · simp
    · have helect : (v.on host).electLeader v.playHosts chosen = _ :=
        electLeader_eq (v := v.on host) hh chosen
      simp only [helect]
      rw [show (v.on host).shareIdAt chosen = v.shareIdAt chosen from rfl,
        show (v.on host).playHosts = v.playHosts from rfl,
        show (v.on host).inventoryHostname = host from rfl]
      rcases hk : v.shareIdAt chosen host with _ | id
      · simp [Election.runs_of_none hk]
      · -- the chosen target is shared, so the test on all targets succeeds
        have hknown : v.Known host := by
          by_contra hn
          rw [shareIdAt, shareAt_of_not_known hn] at hk
          cases hk
        have hshared : ((v.on host).isSharedPath host chosen).1 = true := by
          have := isSharedPath_of_known (v := v.on host) hknown chosen
          rw [this]
          obtain ⟨s, hs, -⟩ := Option.map_eq_some_iff.1 hk
          exact Option.isSome_iff_exists.2 ⟨s, hs⟩
        rw [List.any_cons, hshared, Bool.true_or, if_pos rfl]
        simp only [List.head?_cons, Option.some_inj, forall_eq', forall_true_left]
        rw [Election.runs_iff hk, ← Election.leader?_eq_some_iff]
        by_cases hl : Election.leader? (v.shareIdAt chosen) v.playHosts id = some host <;> simp [hl]

end TaskVars

end ServerlessYarn
