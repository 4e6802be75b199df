/-
  ServerlessYARN model — who runs a task on a shared file system.

  * `once_per_share_iff`: a wrapped task runs once per share exactly when the names of
    the shares tell them apart, which they do for the usual types (`once_per_share`);
  * `runWrapped_assume`: the option for unknown mounts changes nothing, hence
    `assumed_shared_iff`;
  * `pip_once_per_share_iff`: the install of packages follows its first target only.
-/
import ServerlessYarn.SharedFs

namespace ServerlessYarn
namespace TaskVars

variable {v : TaskVars} {argnames : List String} {args : String → Option TaskArg} {dest : String}

/-- The host runs the wrapped task. -/
def RunsTask (v : TaskVars) (argnames : List String) (args : String → Option TaskArg)
    (host : String) : Prop :=
  (v.on host).runWrapped argnames args = .executed

instance (v : TaskVars) (argnames : List String) (args : String → Option TaskArg) (host : String) :
    Decidable (v.RunsTask argnames args host) :=
  inferInstanceAs (Decidable (_ = _))

/-! ## Once per share -/

/-- For each share under the destination exactly its smallest host runs the task, and so
    does every host for which the destination is not shared. -/
def RunsOncePerShare (v : TaskVars) (argnames : List String) (args : String → Option TaskArg)
    (dest : String) : Prop :=
  Election.OnceEach (v.shareAt dest) v.playHosts (v.RunsTask argnames args)

/-- No two shares under the destination have the same name. -/
def SharesNamedApart (v : TaskVars) (dest : String) : Prop :=
  ∀ h₁ ∈ v.playHosts, ∀ h₂ ∈ v.playHosts, ∀ s₁ s₂, v.shareAt dest h₁ = some s₁ →
    v.shareAt dest h₂ = some s₂ → s₁.id = s₂.id → s₁ = s₂

theorem runsTask_iff (hdest : getDestPath argnames args = some dest)
    (henabled : v.smartSharedfsEnabled = true) {host : String} (hh : host ∈ v.playHosts) :
    v.RunsTask argnames args host ↔ Election.Runs (v.shareIdAt dest) v.playHosts host :=
  (runWrapped_eq_executed_iff hdest hh).trans (forall_prop_of_true henabled)

/-- The hosts that run the task are those that the names of the shares let act. -/
theorem runsOncePerShare_iff_onceEach (hdest : getDestPath argnames args = some dest)
    (henabled : v.smartSharedfsEnabled = true) :
    v.RunsOncePerShare argnames args dest ↔ Election.OnceEach (v.shareAt dest) v.playHosts
      (Election.Runs (fun h => (v.shareAt dest h).map Share.id) v.playHosts) := by
  refine Election.onceEach_congr fun h hh => ?_
  exact runsTask_iff hdest henabled hh

/-- **A task runs once per share** exactly when the names tell the shares apart. -/
theorem once_per_share_iff (hdest : getDestPath argnames args = some dest)
    (henabled : v.smartSharedfsEnabled = true) :
    v.RunsOncePerShare argnames args dest ↔ v.SharesNamedApart dest := by
  rw [runsOncePerShare_iff_onceEach hdest henabled]
  exact Election.onceEach_iff (v.shareAt dest) Share.id v.playHosts

/-- Two texts that are equal split at their first `c`. -/
theorem eq_of_append_cons {c : Char} {x x' y y' : List Char} (hx : c ∉ x) (hx' : c ∉ x')
    (h : x ++ c :: y = x' ++ c :: y') : x = x' ∧ y = y' := by
  rcases List.append_eq_append_iff.1 h with ⟨z, rfl, hz⟩ | ⟨z, rfl, hz⟩
  · rcases z with _ | ⟨a, z⟩
    · exact ⟨(List.append_nil x).symm, (List.cons.inj hz).2⟩
    · obtain rfl : c = a := (List.cons.inj hz).1
      exact absurd (List.mem_append_right _ List.mem_cons_self) hx'
  · rcases z with _ | ⟨a, z⟩
    · exact ⟨List.append_nil x', (List.cons.inj hz).2.symm⟩
    · obtain rfl : c = a := (List.cons.inj hz).1
      exact absurd (List.mem_append_right _ List.mem_cons_self) hx

/-- A `:` in the type is what makes two shares look alike. -/
theorem share_eq_of_id_eq {f f' d d' : String} (hf : ':' ∉ f.toList) (hf' : ':' ∉ f'.toList)
    (h : Share.id ⟨some f, some d⟩ = Share.id ⟨some f', some d'⟩) :
    (⟨some f, some d⟩ : Share) = ⟨some f', some d'⟩ := by
  have hl : f.toList ++ ':' :: d.toList = f'.toList ++ ':' :: d'.toList := by
    simpa [Share.id] using congrArg String.toList h
  obtain ⟨hfl, hdl⟩ := eq_of_append_cons hf hf' hl
  rw [String.toList_inj.1 hfl, String.toList_inj.1 hdl]

/-- The records of a mount table give the type and the device. -/
def Complete (v : TaskVars) : Prop :=
  ∀ h ∈ v.playHosts, ∀ m ∈ v.getFactMounts h, m.fstype.isSome ∧ m.device.isSome

/-- A task runs once per share when the shared types are written without a `:`. -/
theorem once_per_share (hdest : getDestPath argnames args = some dest)
    (henabled : v.smartSharedfsEnabled = true) (hcomplete : v.Complete)
    (hplain : ∀ f ∈ v.sharedTypes, ':' ∉ f.toList) : v.RunsOncePerShare argnames args dest := by
  have hshare : ∀ h ∈ v.playHosts, ∀ s, v.shareAt dest h = some s →
      ∃ f d, s = ⟨some f, some d⟩ ∧ ':' ∉ f.toList := by
    intro h hh s hs
    obtain ⟨m, hm, hif⟩ := Option.bind_eq_some_iff.1 hs
    obtain ⟨hf, hd⟩ := hcomplete h hh m (mem_of_longestMount hm)
    obtain ⟨f, hf⟩ := Option.isSome_iff_exists.1 hf
    obtain ⟨d, hd⟩ := Option.isSome_iff_exists.1 hd
    rw [hf, hd] at hif
    split at hif
    · next hshared =>
      refine ⟨f, d, (Option.some_inj.1 hif).symm, hplain f ?_⟩
      simpa [isSharedFstype] using hshared
    · cases hif
  rw [runsOncePerShare_iff_onceEach hdest henabled, Election.onceEach_iff]
  intro h₁ hh₁ h₂ hh₂ s₁ s₂ hs₁ hs₂ hid
  obtain ⟨f₁, d₁, rfl, hf₁⟩ := hshare h₁ hh₁ s₁ hs₁
  obtain ⟨f₂, d₂, rfl, hf₂⟩ := hshare h₂ hh₂ s₂ hs₂
  exact share_eq_of_id_eq hf₁ hf₂ hid

/-- Two file systems whose type and device read the same when a `:` joins them. -/
def alikeShares : TaskVars where
  inventoryHostname := "a"
  playHosts := ["a", "b"]
  hostvars h := { ansibleMounts := some [
    if h = "a" then ⟨some "/data", some "x:bucket", some "fuse.s3"⟩
    else ⟨some "/data", some "bucket", some "fuse.s3:x"⟩] }
  smartSharedfsFstypes := ["fuse.s3", "fuse.s3:x"]

/-- The arguments of a task on one path. -/
def destArgs (path : String) (k : String) : Option TaskArg :=
  if k = "dest" then some (.str path) else none

theorem alike_once_per_share_iff :
    getDestPath pathArgnames (destArgs "/data/f") = some "/data/f" ∧
      alikeShares.smartSharedfsEnabled = true ∧
      (alikeShares.RunsOncePerShare pathArgnames (destArgs "/data/f") "/data/f" ↔
        alikeShares.SharesNamedApart "/data/f") :=
  ⟨rfl, rfl, once_per_share_iff rfl rfl⟩

/-- Nobody runs the task on the share of `b`. -/
theorem alike_shares_not_once : ¬ ∀ (v : TaskVars) (argnames : List String)
    (args : String → Option TaskArg) (dest : String), getDestPath argnames args = some dest →
    v.smartSharedfsEnabled = true → (∀ h ∈ v.playHosts, v.Known h) →
      v.RunsOncePerShare argnames args dest := by
  intro hall
  have hknown : ∀ h ∈ alikeShares.playHosts, alikeShares.Known h := by decide
  obtain ⟨honce, -⟩ := hall alikeShares pathArgnames (destArgs "/data/f") "/data/f" rfl rfl hknown
  have hb : alikeShares.shareAt "/data/f" "b" = some ⟨some "fuse.s3:x", some "bucket"⟩ := rfl
  obtain ⟨l, hl, hruns⟩ := honce _ ⟨"b", by decide, hb⟩
  have hlb : l = "b" := by
    have hmem : l ∈ ["a", "b"] := hl.1.1
    rcases List.mem_pair.1 hmem with rfl | rfl
    · exact absurd hl.1.2 (by decide +kernel)
    · rfl
  have hrun : alikeShares.RunsTask pathArgnames (destArgs "/data/f") "b" :=
    (hruns "b" (by decide) hb).2 hlb.symm
  exact absurd hrun (by decide +kernel)

/-! ## Unknown mounts -/

/-- The option for unknown mounts is never acted on. -/
theorem runWrapped_assume {host : String} (hh : host ∈ v.playHosts) (flag : Bool) :
    ({ v with smartSharedfsAssumeSharedWhenUnknown := flag } : TaskVars).RunsTask argnames args host ↔
      v.RunsTask argnames args host := by
  rcases hdest : getDestPath argnames args with _ | dest
  · simp [RunsTask, runWrapped, hdest]
  · exact (runWrapped_eq_executed_iff (v := { v with smartSharedfsAssumeSharedWhenUnknown := flag })
      hdest hh).trans (runWrapped_eq_executed_iff hdest hh).symm

/-- A host without facts always runs the task. -/
theorem runsTask_of_not_known {host : String} (hh : host ∈ v.playHosts) (hk : ¬ v.Known host) :
    v.RunsTask argnames args host := by
  rcases hdest : getDestPath argnames args with _ | dest
  · simp [RunsTask, runWrapped, hdest]
  · refine (runWrapped_eq_executed_iff hdest hh).2 fun _ => Election.runs_of_none ?_
    rw [shareIdAt, shareAt_of_not_known hk, Option.map_none]

/-- The option is honoured: if there are hosts without facts, exactly one of them runs the
    task, and the others follow the election of their share. -/
def AssumedShared (v : TaskVars) (argnames : List String) (args : String → Option TaskArg)
    (dest : String) : Prop :=
  ((∃ h ∈ v.playHosts, ¬ v.Known h) →
    ∃! h, h ∈ v.playHosts ∧ ¬ v.Known h ∧ v.RunsTask argnames args h) ∧
  ∀ h ∈ v.playHosts, v.Known h → v.smartSharedfsEnabled = true →
    (v.RunsTask argnames args h ↔
      ∀ id, v.shareIdAt dest h = some id → Election.IsFirst (v.shareIdAt dest) v.playHosts id h)

/-- **The option for unknown mounts**, set or not, is honoured exactly when there is at most
    one host without facts. -/
theorem assumed_shared_iff (hdest : getDestPath argnames args = some dest) :
    v.AssumedShared argnames args dest ↔
      ∀ h₁ ∈ v.playHosts, ∀ h₂ ∈ v.playHosts, ¬ v.Known h₁ → ¬ v.Known h₂ → h₁ = h₂ := by
  constructor
  · rintro ⟨hunknown, -⟩ h₁ hh₁ h₂ hh₂ hk₁ hk₂
    obtain ⟨h, -, huniq⟩ := hunknown ⟨h₁, hh₁, hk₁⟩
    rw [huniq h₁ ⟨hh₁, hk₁, runsTask_of_not_known hh₁ hk₁⟩,
      huniq h₂ ⟨hh₂, hk₂, runsTask_of_not_known hh₂ hk₂⟩]
  · intro hone
    refine ⟨?_, fun h hh _ henabled => ?_⟩
    · rintro ⟨h, hh, hk⟩
      refine ⟨h, ⟨hh, hk, runsTask_of_not_known hh hk⟩, ?_⟩
      rintro h' ⟨hh', hk', -⟩
      exact hone h' hh' h hh hk' hk
    · rw [runsTask_iff hdest henabled hh, Election.Runs]
      simp only [Election.leader?_eq_some_iff]

/-- Two hosts of which nothing is known. -/
def unknownHosts : TaskVars where
  inventoryHostname := "a"
  playHosts := ["a", "b"]
  hostvars _ := {}
  smartSharedfsAssumeSharedWhenUnknown := true

theorem unknown_assumed_shared_iff :
    unknownHosts.AssumedShared pathArgnames (destArgs "/data/f") "/data/f" ↔
      ∀ h₁ ∈ unknownHosts.playHosts, ∀ h₂ ∈ unknownHosts.playHosts,
        ¬ unknownHosts.Known h₁ → ¬ unknownHosts.Known h₂ → h₁ = h₂ :=
  assumed_shared_iff rfl

/-- Both hosts write the destination. -/
theorem unknown_hosts_not_assumed : ¬ ∀ (v : TaskVars) (argnames : List String)
    (args : String → Option TaskArg) (dest : String), getDestPath argnames args = some dest →
    v.smartSharedfsAssumeSharedWhenUnknown = true → v.AssumedShared argnames args dest := by
  intro hall
  obtain ⟨hunknown, -⟩ := hall unknownHosts pathArgnames (destArgs "/data/f") "/data/f" rfl rfl
  obtain ⟨h, -, huniq⟩ := hunknown ⟨"a", by decide, by decide⟩
  have ha : "a" = h := huniq "a" ⟨by decide, by decide, by decide⟩
  have hb : "b" = h := huniq "b" ⟨by decide, by decide, by decide⟩
  exact absurd (ha.trans hb.symm) (by decide)

/-! ## Installs of packages -/

/-- The host runs the install of packages. -/
def RunsPip (v : TaskVars) (paths : PipPaths) (host : String) : Prop :=
  (v.on host).runPip paths = .executed

instance (v : TaskVars) (paths : PipPaths) (host : String) : Decidable (v.RunsPip paths host) :=
  inferInstanceAs (Decidable (_ = _))

/-- Among the hosts that see an install target on one share at most one installs. -/
def PipOncePerShare (v : TaskVars) (paths : PipPaths) : Prop :=
  ∀ target ∈ paths.installTargets, ∀ share, ∀ h₁ ∈ v.playHosts, ∀ h₂ ∈ v.playHosts,
    v.shareAt target h₁ = some share → v.shareAt target h₂ = some share →
    v.RunsPip paths h₁ → v.RunsPip paths h₂ → h₁ = h₂

/-- The host sees the first install target on a share, where another host comes before it. -/
def LeavesPip (v : TaskVars) (paths : PipPaths) (host : String) : Prop :=
  v.smartSharedfsEnabled = true ∧ ∃ chosen, paths.installTargets.head? = some chosen ∧
    Election.Waits (v.shareIdAt chosen) v.playHosts host

theorem runsPip_iff (paths : PipPaths) {host : String} (hh : host ∈ v.playHosts) :
    v.RunsPip paths host ↔ ¬ v.LeavesPip paths host := by
  refine (runPip_eq_executed_iff paths hh).trans ?_
  simp only [LeavesPip, not_and, not_exists, Election.runs_iff_not_waits hh]

/-- **An install runs on one host per share** exactly when no two hosts that share a target
    both do without waiting for the first target. -/
theorem pip_once_per_share_iff (v : TaskVars) (paths : PipPaths) :
    v.PipOncePerShare paths ↔
      ∀ target ∈ paths.installTargets, ∀ share, ∀ h₁ ∈ v.playHosts, ∀ h₂ ∈ v.playHosts, h₁ ≠ h₂ →
        v.shareAt target h₁ = some share → v.shareAt target h₂ = some share →
        v.LeavesPip paths h₁ ∨ v.LeavesPip paths h₂ := by
  unfold PipOncePerShare
  refine forall₂_congr fun target _ => forall_congr' fun share => ?_
  refine forall₂_congr fun h₁ hh₁ => forall₂_congr fun h₂ hh₂ => ?_
  rw [runsPip_iff paths hh₁, runsPip_iff paths hh₂]
  constructor
  · intro honce hne hs₁ hs₂
    by_contra hleave
    obtain ⟨hl₁, hl₂⟩ := not_or.1 hleave
    exact hne (honce hs₁ hs₂ hl₁ hl₂)
  · intro hleave hs₁ hs₂ hl₁ hl₂
    by_contra hne
    exact (hleave hne hs₁ hs₂).elim hl₁ hl₂

/-- With one target an install runs on one host per share. -/
theorem pip_once_per_share_of_single {paths : PipPaths} {target : String}
    (henabled : v.smartSharedfsEnabled = true) (h : paths.installTargets = [target]) :
    v.PipOncePerShare paths := by
  intro p hp share h₁ hh₁ h₂ hh₂ hs₁ hs₂ hr₁ hr₂
  rw [h, List.mem_singleton] at hp
  subst hp
  have runs : ∀ {host}, host ∈ v.playHosts → v.RunsPip paths host →
      Election.Runs (v.shareIdAt p) v.playHosts host := by
    intro host hh hr
    exact (runPip_eq_executed_iff paths hh).1 hr henabled p (by rw [h]; rfl)
  have hid₁ : v.shareIdAt p h₁ = some share.id := by rw [shareIdAt, hs₁, Option.map_some]
  have hid₂ : v.shareIdAt p h₂ = some share.id := by rw [shareIdAt, hs₂, Option.map_some]
  exact Election.runs_unique hid₁ hid₂ (runs hh₁ hr₁) (runs hh₂ hr₂)

/-- Two hosts with their own `/opt` and a common `/home`. -/
def sharedHome : TaskVars where
  inventoryHostname := "a"
  playHosts := ["a", "b"]
  hostvars _ := { ansibleMounts := some [⟨some "/opt", some "/dev/sda1", some "ext4"⟩,
    ⟨some "/home", some "nas:/home", some "nfs"⟩] }

/-- Both hosts install into `/home`: the first target is the local one. -/
theorem shared_home_pip_twice : ¬ ∀ (v : TaskVars) (paths : PipPaths),
    (∀ h ∈ v.playHosts, v.Known h) → v.smartSharedfsEnabled = true → v.PipOncePerShare paths := by
  intro hall
  have hknown : ∀ h ∈ sharedHome.playHosts, sharedHome.Known h := by decide
  have honce := hall sharedHome { venv := some "/opt/venv", target := some "/home/lib" } hknown rfl
  have hab : "a" = "b" := honce "/home/lib" (by decide) ⟨some "nfs", some "nas:/home"⟩ "a"
    (by decide) "b" (by decide) rfl rfl (by decide +kernel) (by decide +kernel)
  exact absurd hab (by decide)

end TaskVars
end ServerlessYarn
