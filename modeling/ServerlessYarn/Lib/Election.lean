/-
  Leaders without messages.

  Every host knows the keys of all hosts and decides alone: the first host among
  those with a key does what is to be done for that key, the others leave it to it.

  * `leader?_eq_some_iff`, `exists_leader`: the leader of a key;
  * `runs_iff`, `runs_iff_not_waits`: who acts;
  * `onceEach_iff`: when the keys stand for other things (a name for what it names),
    there is one acting host for each thing exactly when the names tell them apart.
-/
import Mathlib.Data.List.Sort
import Mathlib.Order.Defs.LinearOrder

namespace Election

variable {H S K : Type*} [LinearOrder H] [DecidableEq K]

/-- The first host among those with the key `k`. -/
def leader? (key : H → Option K) (hosts : List H) (k : K) : Option H :=
  ((hosts.filter fun h => key h = some k).insertionSort (· ≤ ·)).head?

/-- The host acts: it has no key, or it leads the hosts that have its key. -/
def Runs (key : H → Option K) (hosts : List H) (h : H) : Prop :=
  ∀ k, key h = some k → leader? key hosts k = some h

/-- A host with the same key comes before `h`. -/
def Waits (key : H → Option K) (hosts : List H) (h : H) : Prop :=
  ∃ k, key h = some k ∧ ∃ h' ∈ hosts, key h' = some k ∧ h' < h

omit [DecidableEq K] in
/-- The host `h` is the least of those with the share `s`. -/
def IsFirst (share : H → Option S) (hosts : List H) (s : S) (h : H) : Prop :=
  (h ∈ hosts ∧ share h = some s) ∧ ∀ h' ∈ hosts, share h' = some s → h ≤ h'

/-- For each share exactly its least host acts, and so does everybody who has none. -/
def OnceEach (share : H → Option S) (hosts : List H) (runs : H → Prop) : Prop :=
  (∀ s, (∃ h ∈ hosts, share h = some s) →
    ∃ l, IsFirst share hosts s l ∧ ∀ h ∈ hosts, share h = some s → (runs h ↔ h = l)) ∧
  ∀ h ∈ hosts, share h = none → runs h

theorem head?_insertionSort_eq_some_iff {l : List H} {a : H} :
    (l.insertionSort (· ≤ ·)).head? = some a ↔ a ∈ l ∧ ∀ b ∈ l, a ≤ b := by
  have hperm := List.perm_insertionSort (· ≤ ·) l
  have hsorted := List.pairwise_insertionSort (· ≤ ·) l
  rcases hl : l.insertionSort (· ≤ ·) with _ | ⟨x, xs⟩
  · rw [hl] at hperm
    have hnil : l = [] := List.nil_perm.1 hperm
    simp [hnil]
  · rw [hl] at hperm hsorted
    have hx : ∀ b ∈ l, x ≤ b := by
      intro b hb
      rcases List.mem_cons.1 (hperm.mem_iff.2 hb) with rfl | hmem
      · exact le_refl b
      · exact (List.pairwise_cons.1 hsorted).1 b hmem
    have hxl : x ∈ l := hperm.mem_iff.1 List.mem_cons_self
    rw [List.head?_cons, Option.some_inj]
    constructor
    · rintro rfl
      exact ⟨hxl, hx⟩
    · rintro ⟨ha, hle⟩
      exact le_antisymm (hx a ha) (hle x hxl)

/-- The leader is the least host with the key. -/
theorem leader?_eq_some_iff {key : H → Option K} {hosts : List H} {k : K} {h : H} :
    leader? key hosts k = some h ↔ IsFirst key hosts k h := by
  unfold leader? IsFirst
  rw [head?_insertionSort_eq_some_iff]
  simp only [List.mem_filter, decide_eq_true_eq, and_imp]

/-- A key that some host has is led. -/
theorem exists_leader {key : H → Option K} {hosts : List H} {k : K} {h : H} (hh : h ∈ hosts)
    (hk : key h = some k) : ∃ l, leader? key hosts k = some l := by
  unfold leader?
  rw [← Option.isSome_iff_exists, List.isSome_head?, Ne, ← List.length_eq_zero_iff,
    List.length_insertionSort, List.length_eq_zero_iff]
  exact List.ne_nil_of_mem (List.mem_filter.2 ⟨hh, decide_eq_true hk⟩)

omit [DecidableEq K] in
theorem IsFirst.unique {share : H → Option S} {hosts : List H} {s : S} {h h' : H}
    (hl : IsFirst share hosts s h) (hl' : IsFirst share hosts s h') : h = h' :=
  le_antisymm (hl.2 h' hl'.1.1 hl'.1.2) (hl'.2 h hl.1.1 hl.1.2)

/-- A host with a key acts exactly when it is the least one. -/
theorem runs_iff {key : H → Option K} {hosts : List H} {k : K} {h : H} (hk : key h = some k) :
    Runs key hosts h ↔ IsFirst key hosts k h := by
  rw [← leader?_eq_some_iff]
  constructor
  · intro hr
    exact hr k hk
  · rintro hl k' hk'
    rwa [← Option.some_inj.1 (hk.symm.trans hk')]

theorem runs_of_none {key : H → Option K} {hosts : List H} {h : H} (hk : key h = none) :
    Runs key hosts h := by
  intro k hk'
  rw [hk] at hk'
  cases hk'

/-- A host acts unless it waits for another one. -/
theorem runs_iff_not_waits {key : H → Option K} {hosts : List H} {h : H} (hh : h ∈ hosts) :
    Runs key hosts h ↔ ¬ Waits key hosts h := by
  rcases hk : key h with _ | k
  · simp [runs_of_none hk, Waits, hk]
  · rw [runs_iff hk]
    constructor
    · rintro hl ⟨k', hk', h', hh', hkh', hlt⟩
      rw [hk'] at hk
      exact absurd (hl.2 h' hh' (hkh'.trans hk)) (not_le.2 hlt)
    · intro hw
      refine ⟨⟨hh, hk⟩, fun h' hh' hk' => not_lt.1 fun hlt => hw ?_⟩
      exact ⟨k, hk, h', hh', hk', hlt⟩

/-- At most one host with a key acts. -/
theorem runs_unique {key : H → Option K} {hosts : List H} {k : K} {h h' : H} (hk : key h = some k)
    (hk' : key h' = some k) (hr : Runs key hosts h) (hr' : Runs key hosts h') : h = h' :=
  ((runs_iff hk).1 hr).unique ((runs_iff hk').1 hr')

omit [DecidableEq K] in
theorem onceEach_congr {share : H → Option S} {hosts : List H} {runs runs' : H → Prop}
    (h : ∀ a ∈ hosts, (runs a ↔ runs' a)) :
    OnceEach share hosts runs ↔ OnceEach share hosts runs' := by
  unfold OnceEach
  refine and_congr (forall₂_congr fun s _ => exists_congr fun l => and_congr_right fun _ => ?_) ?_
  · exact forall₂_congr fun a ha => by rw [h a ha]
  · exact forall₂_congr fun a ha => by rw [h a ha]

/-- **Names elect one host for each thing** exactly when no two things that occur have
    the same name. -/
theorem onceEach_iff (share : H → Option S) (name : S → K) (hosts : List H) :
    OnceEach share hosts (Runs (fun h => (share h).map name) hosts) ↔
      ∀ h₁ ∈ hosts, ∀ h₂ ∈ hosts, ∀ s₁ s₂, share h₁ = some s₁ → share h₂ = some s₂ →
        name s₁ = name s₂ → s₁ = s₂ := by
  have key_eq : ∀ {h s}, share h = some s → (share h).map name = some (name s) := by
    intro h s hs
    rw [hs, Option.map_some]
  have acts : ∀ {h s}, share h = some s → (Runs (fun h => (share h).map name) hosts h ↔
      IsFirst (fun h => (share h).map name) hosts (name s) h) := by
    intro h s hs
    exact runs_iff (key_eq hs)
  constructor
  · rintro ⟨honce, -⟩ h₁ hh₁ h₂ hh₂ s₁ s₂ hs₁ hs₂ hname
    obtain ⟨l₁, hl₁, hruns₁⟩ := honce s₁ ⟨h₁, hh₁, hs₁⟩
    obtain ⟨l₂, hl₂, hruns₂⟩ := honce s₂ ⟨h₂, hh₂, hs₂⟩
    -- both leaders act, so both lead the one name
    have hr₁ := (acts hl₁.1.2).1 ((hruns₁ l₁ hl₁.1.1 hl₁.1.2).2 rfl)
    have hr₂ := (acts hl₂.1.2).1 ((hruns₂ l₂ hl₂.1.1 hl₂.1.2).2 rfl)
    rw [← hname] at hr₂
    have heq : l₁ = l₂ := hr₁.unique hr₂
    have hs : share l₁ = some s₂ := heq ▸ hl₂.1.2
    exact Option.some_inj.1 (hl₁.1.2.symm.trans hs)
  · intro hinj
    refine ⟨?_, fun h _ hs => runs_of_none (by rw [hs, Option.map_none])⟩
    rintro s ⟨h₀, hh₀, hs₀⟩
    -- the hosts with the name are those with the share
    have hsame : ∀ h ∈ hosts, (share h).map name = some (name s) ↔ share h = some s := by
      intro h hh
      refine ⟨fun hk => ?_, key_eq⟩
      obtain ⟨s', hs', hname⟩ := Option.map_eq_some_iff.1 hk
      rw [hs', hinj h hh h₀ hh₀ s' s hs' hs₀ hname]
    have hleast : ∀ h, IsFirst (fun h => (share h).map name) hosts (name s) h ↔
        IsFirst share hosts s h := by
      intro h
      unfold IsFirst
      constructor
      · rintro ⟨⟨hh, hk⟩, hle⟩
        exact ⟨⟨hh, (hsame h hh).1 hk⟩, fun h' hh' hs' => hle h' hh' ((hsame h' hh').2 hs')⟩
      · rintro ⟨⟨hh, hs⟩, hle⟩
        exact ⟨⟨hh, (hsame h hh).2 hs⟩, fun h' hh' hk' => hle h' hh' ((hsame h' hh').1 hk')⟩
    obtain ⟨l, hl⟩ : ∃ l, leader? (fun h => (share h).map name) hosts (name s) = some l :=
      exists_leader hh₀ (key_eq hs₀)
    rw [leader?_eq_some_iff, hleast] at hl
    refine ⟨l, hl, fun h hh hs => ?_⟩
    rw [acts hs, hleast]
    constructor
    · intro hlh
      exact hlh.unique hl
    · rintro rfl
      exact hl

end Election
