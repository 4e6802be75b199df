/-
  Sessions of a stream.

  The members of a stream are collected under their keys.  A key whose session has been
  closed gets a new one when it comes again.  At most `k` sessions are open: when one more is
  opened, the oldest one is closed.

  * `run_perm`: every member is in exactly one session;
  * `run_opened`: the open sessions are the last `k`;
  * `nodup_iff_inTime`: each key has one session iff no member is late;
  * `run_of_inTime`: then the sessions are the groups of the whole stream, in the order in which
    their keys first come.
-/
import Mathlib.Data.List.Nodup
import Mathlib.Data.List.Perm.Basic
import Mathlib.Data.List.Induction
import Mathlib.Data.List.Infix

namespace Sessions

variable {κ α : Type*} [DecidableEq κ]

/-- A key with the members collected under it. -/
abbrev Session (κ α : Type*) := κ × List α

/-- Puts a member into the session of its key, or into a new one at the end. -/
def insert (key : α → κ) (a : α) : List (Session κ α) → List (Session κ α)
  | [] => [(key a, [a])]
  | s :: ss => if s.1 = key a then (s.1, s.2 ++ [a]) :: ss else s :: insert key a ss

/-- The sessions that are closed, and those that are open. -/
structure State (κ α : Type*) where
  closed : List (Session κ α)
  opened : List (Session κ α)

namespace State

def start : State κ α := ⟨[], []⟩

def all (s : State κ α) : List (Session κ α) := s.closed ++ s.opened

/-- One member. -/
def push (key : α → κ) (k : ℕ) (s : State κ α) (a : α) : State κ α :=
  let opened := insert key a s.opened
  if k < opened.length then ⟨s.closed ++ opened.take 1, opened.drop 1⟩ else ⟨s.closed, opened⟩

end State

/-- A stream. -/
def run (key : α → κ) (k : ℕ) (l : List α) : State κ α := l.foldl (State.push key k) State.start

/-- The keys of a stream, in the order in which they first come. -/
def firsts (key : α → κ) (l : List α) : List κ :=
  l.foldl (fun ks a => if key a ∈ ks then ks else ks ++ [key a]) []

/-- Every member has a new key, or one of the last `k` that were new. -/
def InTime (key : α → κ) (k : ℕ) (l : List α) : Prop :=
  ∀ pre a post, l = pre ++ a :: post → key a ∈ firsts key pre →
    key a ∈ (firsts key pre).drop ((firsts key pre).length - k)

variable {key : α → κ} {k : ℕ} {a : α} {l : List α} {ss : List (Session κ α)}

theorem run_concat : run key k (l ++ [a]) = (run key k l).push key k a := by
  unfold run
  rw [List.foldl_append]
  rfl

theorem firsts_concat :
    firsts key (l ++ [a]) = if key a ∈ firsts key l then firsts key l else firsts key l ++ [key a] := by
  unfold firsts
  rw [List.foldl_append]
  rfl

/-! ## Inserting -/

theorem keys_insert_of_mem (h : key a ∈ ss.map Prod.fst) : (insert key a ss).map Prod.fst = ss.map Prod.fst := by
  induction ss with
  | nil => cases h
  | cons s ss ih =>
    rw [insert]
    split_ifs with heq
    · rfl
    · rw [List.map_cons, List.map_cons, ih ((List.mem_cons.1 h).resolve_left fun h => heq h.symm)]

theorem insert_of_notMem (h : key a ∉ ss.map Prod.fst) : insert key a ss = ss ++ [(key a, [a])] := by
  induction ss with
  | nil => rfl
  | cons s ss ih =>
    rw [List.map_cons, List.mem_cons, not_or] at h
    rw [insert, if_neg fun heq => h.1 heq.symm, ih h.2, List.cons_append]

theorem length_insert : (insert key a ss).length =
    if key a ∈ ss.map Prod.fst then ss.length else ss.length + 1 := by
  split_ifs with h
  · rw [← List.length_map Prod.fst, keys_insert_of_mem h, List.length_map]
  · rw [insert_of_notMem h, List.length_append, List.length_singleton]

theorem insert_perm : ((insert key a ss).flatMap Prod.snd).Perm (ss.flatMap Prod.snd ++ [a]) := by
  induction ss with
  | nil => exact List.Perm.refl _
  | cons s ss ih =>
    rw [insert]
    split_ifs with heq
    · rw [List.flatMap_cons, List.flatMap_cons, List.append_assoc, List.append_assoc]
      exact List.perm_append_comm.append_left s.2
    · rw [List.flatMap_cons, List.flatMap_cons, List.append_assoc]
      exact ih.append_left s.2

/-- What each session has under its key. -/
theorem insert_keyed (h : ∀ s ∈ ss, ∀ b ∈ s.2, key b = s.1) :
    ∀ s ∈ insert key a ss, ∀ b ∈ s.2, key b = s.1 := by
  induction ss with
  | nil =>
    intro s hs b hb
    rw [List.mem_singleton.1 hs] at hb ⊢
    rw [List.mem_singleton.1 hb]
  | cons s ss ih =>
    intro s' hs' b hb
    rw [insert] at hs'
    split_ifs at hs' with heq
    · rcases List.mem_cons.1 hs' with rfl | hs'
      · rcases List.mem_append.1 hb with hb | hb
        · exact h s List.mem_cons_self b hb
        · rw [List.mem_singleton.1 hb]
          exact heq.symm
      · exact h s' (List.mem_cons_of_mem _ hs') b hb
    · rcases List.mem_cons.1 hs' with rfl | hs'
      · exact h s' List.mem_cons_self b hb
      · exact ih (fun s hs => h s (List.mem_cons_of_mem _ hs)) s' hs' b hb

/-! ## Pushing -/

/-- A push inserts into the open sessions. -/
theorem all_push (s : State κ α) : (s.push key k a).all = s.closed ++ insert key a s.opened := by
  unfold State.push State.all
  dsimp only
  split_ifs
  · rw [List.append_assoc, List.take_append_drop]
  · rfl

theorem run_perm : ((run key k l).all.flatMap Prod.snd).Perm l := by
  induction l using List.reverseRecOn with
  | nil => exact List.Perm.refl _
  | append_singleton l a ih =>
    rw [run_concat, all_push, List.flatMap_append]
    refine (insert_perm.append_left _).trans ?_
    rw [← List.append_assoc]
    have hall := ih.append_right [a]
    rwa [State.all, List.flatMap_append] at hall

/-- **Every member is under its key.** -/
theorem run_keyed : ∀ s ∈ (run key k l).all, ∀ b ∈ s.2, key b = s.1 := by
  induction l using List.reverseRecOn with
  | nil => exact fun s hs => by cases hs
  | append_singleton l a ih =>
    rw [run_concat, all_push]
    intro s hs
    rcases List.mem_append.1 hs with hs | hs
    · exact ih s (List.mem_append_left _ hs)
    · exact insert_keyed (fun s hs => ih s (List.mem_append_right _ hs)) s hs

/-- Once a session has been closed, `k` of them stay open. -/
theorem run_bounds : (run key k l).opened.length ≤ k ∧
    ((run key k l).closed ≠ [] → (run key k l).opened.length = k) := by
  induction l using List.reverseRecOn with
  | nil => exact ⟨Nat.zero_le k, fun h => absurd rfl h⟩
  | append_singleton l a ih =>
    obtain ⟨hle, hfull⟩ := ih
    have hlength : (insert key a (run key k l).opened).length ≤ (run key k l).opened.length + 1 ∧
        (run key k l).opened.length ≤ (insert key a (run key k l).opened).length := by
      rw [length_insert]
      split_ifs <;> omega
    rw [run_concat, State.push]
    split_ifs with hmore
    · rw [List.length_drop]
      omega
    · exact ⟨not_lt.1 hmore, fun hne => le_antisymm (not_lt.1 hmore) ((hfull hne).symm.le.trans hlength.2)⟩

/-- **The open sessions are the last `k`.** -/
theorem run_opened : (run key k l).opened = (run key k l).all.drop ((run key k l).all.length - k) := by
  obtain ⟨hle, hfull⟩ := @run_bounds _ _ _ key k l
  have hlength : (run key k l).all.length = (run key k l).closed.length + (run key k l).opened.length :=
    List.length_append
  by_cases hnone : (run key k l).closed = []
  · rw [State.all, hnone, List.nil_append, Nat.sub_eq_zero_of_le hle, List.drop_zero]
  · have hk := hfull hnone
    rw [State.all, List.drop_left' (by rw [← State.all]; omega)]

/-- The keys of all sessions, after one more member. -/
theorem keys_push (s : State κ α) : (s.push key k a).all.map Prod.fst =
    if key a ∈ s.opened.map Prod.fst then s.all.map Prod.fst else s.all.map Prod.fst ++ [key a] := by
  rw [all_push, State.all, List.map_append, List.map_append]
  split_ifs with h
  · rw [keys_insert_of_mem h]
  · rw [insert_of_notMem h, List.map_append, List.append_assoc]
    rfl

/-! ## Members in time -/

theorem inTime_concat : InTime key k (l ++ [a]) ↔ InTime key k l ∧
    (key a ∈ firsts key l → key a ∈ (firsts key l).drop ((firsts key l).length - k)) := by
  constructor
  · intro h
    refine ⟨fun pre b post heq => h pre b (post ++ [a]) (by rw [heq]; simp), h l a [] rfl⟩
  · rintro ⟨h, ha⟩ pre b post heq
    rcases List.eq_nil_or_concat post with rfl | ⟨post', c, rfl⟩
    · obtain ⟨rfl, hb⟩ := List.append_inj' heq rfl
      cases hb
      exact ha
    · rw [List.concat_eq_append, ← List.cons_append, ← List.append_assoc] at heq
      exact h pre b post' (List.append_inj' heq rfl).1

theorem nodup_firsts : (firsts key l).Nodup := by
  induction l using List.reverseRecOn with
  | nil => exact List.nodup_nil
  | append_singleton l a ih =>
    rw [firsts_concat]
    split_ifs with h
    · exact ih
    · exact List.nodup_append.2 ⟨ih, List.nodup_singleton _, fun b hb c hc heq =>
        h (by rw [← List.mem_singleton.1 hc, ← heq]; exact hb)⟩

theorem mem_firsts {t : κ} : t ∈ firsts key l ↔ t ∈ l.map key := by
  induction l using List.reverseRecOn with
  | nil => simp [firsts]
  | append_singleton l a ih =>
    rw [firsts_concat, List.map_append, List.mem_append, List.map_singleton, List.mem_singleton, ← ih]
    split_ifs with h
    · constructor
      · exact Or.inl
      · rintro (ht | rfl)
        · exact ht
        · exact h
    · rw [List.mem_append, List.mem_singleton]

/-- The groups of a stream, in the order in which their keys first come. -/
def groups (key : α → κ) (l : List α) : List (Session κ α) :=
  (firsts key l).map fun t => (t, l.filter fun a => key a = t)

theorem keys_groups : (groups key l).map Prod.fst = firsts key l := by
  unfold groups
  rw [List.map_map]
  exact List.map_id _

theorem insert_append (ss' : List (Session κ α)) (h : key a ∉ ss.map Prod.fst) :
    insert key a (ss ++ ss') = ss ++ insert key a ss' := by
  induction ss with
  | nil => rfl
  | cons s ss ih =>
    rw [List.map_cons, List.mem_cons, not_or] at h
    rw [List.cons_append, insert, if_neg fun heq => h.1 heq.symm, ih h.2, List.cons_append]

theorem insert_map {ks : List κ} {g : κ → List α} (hks : ks.Nodup) (h : key a ∈ ks) :
    insert key a (ks.map fun t => (t, g t)) = ks.map fun t => (t, if key a = t then g t ++ [a] else g t) := by
  induction ks with
  | nil => cases h
  | cons t ks ih =>
    obtain ⟨ht, hks⟩ := List.nodup_cons.1 hks
    rw [List.map_cons, insert, List.map_cons]
    dsimp only
    split_ifs with heq heq' heq'
    · refine congrArg _ (List.map_congr_left fun t' ht' => ?_)
      have hne : key a ≠ t' := by
        rintro rfl
        exact ht (heq ▸ ht')
      rw [if_neg hne]
    · exact absurd heq.symm heq'
    · exact absurd heq'.symm heq
    · rw [ih hks ((List.mem_cons.1 h).resolve_left heq')]

theorem filter_concat (t : κ) : (l ++ [a]).filter (fun b => key b = t) =
    if key a = t then l.filter (fun b => key b = t) ++ [a] else l.filter fun b => key b = t := by
  rw [List.filter_append, List.filter_singleton]
  split_ifs with h <;> simp [h]

/-- The groups after one more member. -/
theorem groups_concat : groups key (l ++ [a]) = insert key a (groups key l) := by
  unfold groups
  rw [firsts_concat]
  simp only [filter_concat]
  split_ifs with h
  · rw [insert_map nodup_firsts h]
  · have hnone : l.filter (fun b => key b = key a) = [] := by
      rw [List.filter_eq_nil_iff]
      intro b hb heq
      exact h (mem_firsts.2 (List.mem_map.2 ⟨b, hb, of_decide_eq_true heq⟩))
    rw [insert_of_notMem (by rw [← groups, keys_groups]; exact h), List.map_append, List.map_singleton,
      if_pos rfl, hnone]
    refine congrArg (· ++ _) (List.map_congr_left fun t ht => ?_)
    have hne : key a ≠ t := by
      rintro rfl
      exact h ht
    rw [if_neg hne]

/-- The keys of the open sessions are the last `k` of all. -/
theorem keys_opened : (run key k l).opened.map Prod.fst =
    ((run key k l).all.map Prod.fst).drop (((run key k l).all.map Prod.fst).length - k) := by
  rw [List.length_map, ← List.map_drop, ← run_opened]

/-- **If no member is late, the sessions are the groups of the stream.** -/
theorem run_of_inTime (h : InTime key k l) : (run key k l).all = groups key l := by
  induction l using List.reverseRecOn with
  | nil => rfl
  | append_singleton l a ih =>
    obtain ⟨hl, ha⟩ := inTime_concat.1 h
    have hall := ih hl
    have hkeys : (run key k l).all.map Prod.fst = firsts key l := by rw [hall, keys_groups]
    have hclosed : key a ∉ (run key k l).closed.map Prod.fst := by
      intro hmem
      have hfirst : key a ∈ firsts key l := by
        rw [← hkeys, State.all, List.map_append]
        exact List.mem_append_left _ hmem
      have hopen : key a ∈ (run key k l).opened.map Prod.fst := by
        rw [keys_opened, hkeys]
        exact ha hfirst
      have hnodup : ((run key k l).all.map Prod.fst).Nodup := hkeys ▸ nodup_firsts
      rw [State.all, List.map_append] at hnodup
      exact (List.nodup_append.1 hnodup).2.2 _ hmem _ hopen rfl
    rw [run_concat, all_push, ← insert_append _ hclosed, ← State.all, hall, groups_concat]

/-- **Each key has one session iff no member is late.** -/
theorem nodup_iff_inTime : ((run key k l).all.map Prod.fst).Nodup ↔ InTime key k l := by
  constructor
  · induction l using List.reverseRecOn with
    | nil => exact fun _ pre a post heq => by simp at heq
    | append_singleton l a ih =>
      intro h
      rw [run_concat, keys_push] at h
      have hbefore : ((run key k l).all.map Prod.fst).Nodup := by
        split_ifs at h
        · exact h
        · exact (List.nodup_append.1 h).1
      have hl := ih hbefore
      have hkeys : (run key k l).all.map Prod.fst = firsts key l := by rw [run_of_inTime hl, keys_groups]
      refine inTime_concat.2 ⟨hl, fun hfirst => ?_⟩
      rw [← hkeys, ← keys_opened]
      by_contra hlate
      rw [if_neg hlate, hkeys] at h
      exact (List.nodup_append.1 h).2.2 _ hfirst _ (List.mem_singleton.2 rfl) rfl
  · intro h
    rw [run_of_inTime h, keys_groups]
    exact nodup_firsts

end Sessions
