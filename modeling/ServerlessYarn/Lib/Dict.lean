/-
  Insertion-ordered dictionaries.

  `Dict κ α` is a list of entries with distinct keys, in insertion order: the
  dictionaries of scripting languages whose iteration order is part of the
  program's behaviour.  Assigning to a present key keeps its position, a new
  key goes to the end.

  * `get?_eq_some_iff`: lookup is membership of the entry (the bridge through
    which every other lookup lemma goes);
  * `get?_set`, `get?_modify`, `get?_filterMap`, `get?_setAll`: what each
    operation does to every key;
  * `sum_modify`: how a sum over all entries moves when one of them changes.
-/
import Mathlib.Algebra.BigOperators.Group.List.Basic
import Mathlib.Algebra.Group.Basic
import Mathlib.Data.List.Nodup
import Mathlib.Tactic.Ring.RingNF
import Mathlib.Tactic.Abel

/-- A dictionary: entries with distinct keys, in insertion order. -/
structure Dict (κ α : Type*) where
  entries : List (κ × α)
  distinct : (entries.map Prod.fst).Nodup

namespace Dict

variable {κ α β M : Type*}

@[ext] theorem ext {d d' : Dict κ α} (h : d.entries = d'.entries) : d = d' := by
  cases d; cases d'; cases h; rfl

instance [DecidableEq κ] [DecidableEq α] : DecidableEq (Dict κ α) :=
  fun d d' => decidable_of_iff (d.entries = d'.entries) ⟨ext, fun h => h ▸ rfl⟩

/-- The keys, in insertion order. -/
def keys (d : Dict κ α) : List κ := d.entries.map Prod.fst

def empty : Dict κ α := ⟨[], List.nodup_nil⟩

/-- Apply `f` to every value, keeping the keys and their order. -/
def mapVal (f : κ → α → β) (d : Dict κ α) : Dict κ β where
  entries := d.entries.map fun e => (e.1, f e.1 e.2)
  distinct := by rw [List.map_map]; exact d.distinct

theorem keys_filterMap_sublist (f : κ → α → Option β) : ∀ es : List (κ × α),
    ((es.filterMap fun e => (f e.1 e.2).map (e.1, ·)).map Prod.fst).Sublist (es.map Prod.fst)
  | [] => List.Sublist.slnil
  | e :: es => by
    rcases h : f e.1 e.2 with _ | b
    · simpa [List.filterMap_cons, h] using (keys_filterMap_sublist f es).cons _
    · simpa [List.filterMap_cons, h] using keys_filterMap_sublist f es

/-- Keep the entries on which `f` is defined, with its value. -/
def filterMap (f : κ → α → Option β) (d : Dict κ α) : Dict κ β where
  entries := d.entries.filterMap fun e => (f e.1 e.2).map (e.1, ·)
  distinct := d.distinct.sublist (keys_filterMap_sublist f d.entries)

/-- The entries of a loop that returned, read off its steps. -/
theorem mapM_entries {ε : Type*} {f : κ → α → Except ε β} {es : List (κ × α)} {es' : List (κ × β)}
    (h : (es.mapM fun e => (f e.1 e.2).map fun b => (e.1, b)) = .ok es') :
    List.Forall₂ (fun e e' => e'.1 = e.1 ∧ f e.1 e.2 = .ok e'.2) es es' := by
  induction es generalizing es' with
  | nil =>
    cases h
    exact .nil
  | cons e es ih =>
    rw [List.mapM_cons] at h
    rcases hb : f e.1 e.2 with _ | b
    · rw [hb] at h
      cases h
    · rw [hb] at h
      rcases hes : es.mapM fun e => (f e.1 e.2).map fun b => (e.1, b) with _ | bs
      · rw [hes] at h
        cases h
      · rw [hes] at h
        cases h
        exact .cons ⟨rfl, hb⟩ (ih hes)

theorem keys_of_forall₂ {R : κ × α → κ × β → Prop} (hR : ∀ e e', R e e' → e'.1 = e.1)
    {es : List (κ × α)} {es' : List (κ × β)} (h : List.Forall₂ R es es') :
    es'.map Prod.fst = es.map Prod.fst := by
  induction h with
  | nil => rfl
  | cons he _ ih => rw [List.map_cons, List.map_cons, ih, hR _ _ he]

/-- Apply a fallible `f` to every value, in order; the first error is raised. -/
def mapValM {ε : Type*} (f : κ → α → Except ε β) (d : Dict κ α) : Except ε (Dict κ β) :=
  match h : d.entries.mapM fun e => (f e.1 e.2).map fun b => (e.1, b) with
  | .ok es => .ok ⟨es, by rw [keys_of_forall₂ (fun _ _ he => he.1) (mapM_entries h)]; exact d.distinct⟩
  | .error e => .error e

theorem mapValM_eq_ok {ε : Type*} {f : κ → α → Except ε β} {d : Dict κ α} {d' : Dict κ β} :
    d.mapValM f = .ok d' ↔
      (d.entries.mapM fun e => (f e.1 e.2).map fun b => (e.1, b)) = .ok d'.entries := by
  unfold mapValM
  split
  · next es h => simp [h, Dict.ext_iff]
  · next e h => simp [h]

theorem keys_of_mapValM {ε : Type*} {f : κ → α → Except ε β} {d : Dict κ α} {d' : Dict κ β}
    (h : d.mapValM f = .ok d') : d'.keys = d.keys :=
  keys_of_forall₂ (fun _ _ he => he.1) (mapM_entries (mapValM_eq_ok.1 h))

/-- The sum of `g` over the entries. -/
def sum [AddCommMonoid M] (g : κ → α → M) (d : Dict κ α) : M :=
  (d.entries.map fun e => g e.1 e.2).sum

theorem nodup_keys (d : Dict κ α) : d.keys.Nodup := d.distinct

@[simp] theorem keys_empty : (empty : Dict κ α).keys = [] := rfl

@[simp] theorem keys_mapVal (f : κ → α → β) (d : Dict κ α) : (d.mapVal f).keys = d.keys := by
  simp [keys, mapVal]

@[simp] theorem sum_empty [AddCommMonoid M] (g : κ → α → M) : (empty : Dict κ α).sum g = 0 := rfl

theorem sum_filterMap [AddCommMonoid M] (f : κ → α → Option β) (g : κ → β → M) (d : Dict κ α) :
    (d.filterMap f).sum g = d.sum fun k a => ((f k a).map (g k)).getD 0 := by
  rcases d with ⟨es, hd⟩
  simp only [sum, filterMap]
  clear hd
  induction es with
  | nil => rfl
  | cons e es ih =>
    rcases h : f e.1 e.2 with _ | b <;> simp [h, ih]

variable [DecidableEq κ]

def get? (d : Dict κ α) (k : κ) : Option α := (d.entries.find? fun e => e.1 = k).map Prod.snd

/-- Apply `f` to the value of `k`, if present. -/
def modify (d : Dict κ α) (k : κ) (f : α → α) : Dict κ α :=
  d.mapVal fun j a => if j = k then f a else a

/-- `d[k] = v`. -/
def set (d : Dict κ α) (k : κ) (v : α) : Dict κ α :=
  if h : k ∈ d.keys then d.modify k fun _ => v
  else ⟨d.entries ++ [(k, v)], by
    rw [List.map_append]
    exact List.Nodup.append d.distinct (List.nodup_singleton k) (by simpa [keys] using h)⟩

/-- `d[k] = f k` for every `k` of a list, in its order. -/
def setAll (d : Dict κ α) (f : κ → α) (ks : List κ) : Dict κ α :=
  ks.foldl (fun d k => d.set k (f k)) d

/-- `d.update(d')`. -/
def update (d d' : Dict κ α) : Dict κ α := d'.entries.foldl (fun d e => d.set e.1 e.2) d

/-- `d.pop(k, None)`. -/
def erase (d : Dict κ α) (k : κ) : Dict κ α :=
  d.filterMap fun j a => if j = k then none else some a

/-! ## Lookup -/

theorem find?_eq_none_of_notMem {es : List (κ × α)} {k : κ} (h : k ∉ es.map Prod.fst) :
    es.find? (fun e => e.1 = k) = none := by
  rw [List.find?_eq_none]
  intro e he hk
  exact h (List.mem_map.2 ⟨e, he, of_decide_eq_true hk⟩)

theorem get?_eq_some_iff {d : Dict κ α} {k : κ} {v : α} :
    d.get? k = some v ↔ (k, v) ∈ d.entries := by
  rcases d with ⟨es, hd⟩
  simp only [get?]
  induction es with
  | nil => simp
  | cons e es ih =>
    rw [List.map_cons, List.nodup_cons] at hd
    by_cases h : e.1 = k
    · have hk : ∀ v', (k, v') ∉ es := fun v' hv' => hd.1 (h ▸ List.mem_map_of_mem (f := Prod.fst) hv')
      rcases e with ⟨k', v'⟩
      cases h
      simp [hk, eq_comm]
    · have hne : (k, v) ≠ e := fun he => h (he ▸ rfl)
      rw [List.find?_cons_of_neg (by simpa using h), ih hd.2, List.mem_cons, or_iff_right hne]

/-- A property of all entries can be decided. -/
theorem forall_get?_iff {d : Dict κ α} {p : κ → α → Prop} :
    (∀ k v, d.get? k = some v → p k v) ↔ ∀ e ∈ d.entries, p e.1 e.2 := by
  simp only [get?_eq_some_iff, Prod.forall]

theorem mem_keys_iff {d : Dict κ α} {k : κ} : k ∈ d.keys ↔ ∃ v, d.get? k = some v := by
  simp only [get?_eq_some_iff, keys, List.mem_map, Prod.exists, exists_and_right, exists_eq_right]

theorem get?_eq_none_iff {d : Dict κ α} {k : κ} : d.get? k = none ↔ k ∉ d.keys := by
  rw [mem_keys_iff, ← Option.isSome_iff_exists, Option.not_isSome_iff_eq_none]

/-- What a loop over the entries stores under each key. -/
theorem get?_of_mapValM {ε : Type*} {f : κ → α → Except ε β} {d : Dict κ α} {d' : Dict κ β}
    (h : d.mapValM f = .ok d') {k : κ} {a : α} (ha : d.get? k = some a) :
    ∃ b, f k a = .ok b ∧ d'.get? k = some b := by
  have hes := mapM_entries (mapValM_eq_ok.1 h)
  rw [get?_eq_some_iff] at ha
  generalize d.entries = es at hes ha
  simp only [get?_eq_some_iff]
  generalize d'.entries = es' at hes
  induction hes with
  | nil => exact absurd ha List.not_mem_nil
  | @cons e e' es es' he _ ih =>
    rcases List.mem_cons.1 ha with rfl | ha
    · exact ⟨e'.2, he.2, List.mem_cons.2 (.inl (Prod.ext he.1.symm rfl))⟩
    · obtain ⟨b, hb, hmem⟩ := ih ha
      exact ⟨b, hb, List.mem_cons_of_mem _ hmem⟩

/-- A loop over the entries returns if no step raises. -/
theorem mapValM_ok {ε : Type*} {f : κ → α → Except ε β} {d : Dict κ α}
    (h : ∀ k a, d.get? k = some a → ∃ b, f k a = .ok b) : ∃ d', d.mapValM f = .ok d' := by
  have hes : ∃ es', (d.entries.mapM fun e => (f e.1 e.2).map fun b => (e.1, b)) = .ok es' := by
    simp only [get?_eq_some_iff] at h
    generalize d.entries = es at h
    induction es with
    | nil => exact ⟨[], rfl⟩
    | cons e es ih =>
      obtain ⟨b, hb⟩ := h e.1 e.2 List.mem_cons_self
      obtain ⟨es', hes'⟩ := ih fun k a ha => h k a (List.mem_cons_of_mem _ ha)
      refine ⟨(e.1, b) :: es', ?_⟩
      rw [List.mapM_cons, hb, hes']
      rfl
  obtain ⟨es', hes'⟩ := hes
  refine ⟨⟨es', ?_⟩, mapValM_eq_ok.2 hes'⟩
  rw [keys_of_forall₂ (fun _ _ he => he.1) (mapM_entries hes')]
  exact d.distinct

theorem mem_keys_of_get? {d : Dict κ α} {k : κ} {v : α} (h : d.get? k = some v) : k ∈ d.keys :=
  mem_keys_iff.2 ⟨v, h⟩

@[simp] theorem get?_empty (k : κ) : (empty : Dict κ α).get? k = none := rfl

@[simp] theorem get?_mapVal (f : κ → α → β) (d : Dict κ α) (k : κ) :
    (d.mapVal f).get? k = (d.get? k).map (f k) := by
  rcases h : d.get? k with _ | v
  · rw [get?_eq_none_iff] at h
    rw [Option.map_none, get?_eq_none_iff, keys_mapVal]
    exact h
  · rw [get?_eq_some_iff] at h
    rw [Option.map_some, get?_eq_some_iff]
    exact List.mem_map.2 ⟨(k, v), h, rfl⟩

@[simp] theorem get?_filterMap (f : κ → α → Option β) (d : Dict κ α) (k : κ) :
    (d.filterMap f).get? k = (d.get? k).bind (f k) := by
  ext b
  rw [get?_eq_some_iff, Option.bind_eq_some_iff]
  simp only [filterMap, List.mem_filterMap, Option.map_eq_some_iff, Prod.exists, Prod.mk.injEq,
    get?_eq_some_iff]
  constructor
  · rintro ⟨_, a, ha, _, hb, rfl, rfl⟩; exact ⟨a, ha, hb⟩
  · rintro ⟨a, ha, hb⟩; exact ⟨k, a, ha, b, hb, rfl, rfl⟩

@[simp] theorem keys_modify (d : Dict κ α) (k : κ) (f : α → α) : (d.modify k f).keys = d.keys :=
  keys_mapVal _ d

theorem map_keys_modify (d : Option (Dict κ α)) (k : κ) (f : α → α) :
    (d.map fun d => d.modify k f).map keys = d.map keys := by
  cases d with
  | none => rfl
  | some d => exact congrArg some (keys_modify d k f)

theorem get?_modify (d : Dict κ α) (k : κ) (f : α → α) (j : κ) :
    (d.modify k f).get? j = if j = k then (d.get? j).map f else d.get? j := by
  rw [modify, get?_mapVal]
  split_ifs with h
  · simp [h]
  · simp

@[simp] theorem get?_modify_self (d : Dict κ α) (k : κ) (f : α → α) :
    (d.modify k f).get? k = (d.get? k).map f := by
  rw [get?_modify, if_pos rfl]

theorem get?_modify_of_ne (d : Dict κ α) {j k : κ} (f : α → α) (h : j ≠ k) :
    (d.modify k f).get? j = d.get? j := by
  rw [get?_modify, if_neg h]

theorem modify_modify (d : Dict κ α) (k : κ) (f g : α → α) :
    (d.modify k f).modify k g = d.modify k (g ∘ f) := by
  ext1
  simp only [modify, mapVal, List.map_map]
  refine List.map_congr_left fun e _ => ?_
  by_cases h : e.1 = k <;> simp [h]

theorem get?_set (d : Dict κ α) (k : κ) (v : α) (j : κ) :
    (d.set k v).get? j = if j = k then some v else d.get? j := by
  unfold set
  split_ifs with hk hj hj
  · obtain ⟨w, hw⟩ := mem_keys_iff.1 hk
    rw [hj, get?_modify_self, hw, Option.map_some]
  · exact get?_modify_of_ne d _ hj
  · rw [get?_eq_some_iff, hj]; simp
  · ext w; rw [get?_eq_some_iff, get?_eq_some_iff]; simp [hj]

@[simp] theorem get?_set_self (d : Dict κ α) (k : κ) (v : α) : (d.set k v).get? k = some v := by
  rw [get?_set, if_pos rfl]

theorem get?_set_of_ne (d : Dict κ α) {j k : κ} (v : α) (h : j ≠ k) :
    (d.set k v).get? j = d.get? j := by
  rw [get?_set, if_neg h]

theorem mem_keys_set {d : Dict κ α} {k j : κ} {v : α} :
    j ∈ (d.set k v).keys ↔ j = k ∨ j ∈ d.keys := by
  rw [mem_keys_iff, mem_keys_iff]
  simp only [get?_set]
  by_cases h : j = k <;> simp [h]

/-- The keys after a loop of assignments. -/
theorem mem_keys_foldl_set {ι : Type*} {f : ι → κ} {g : ι → α} {l : List ι} {d : Dict κ α} {k : κ} :
    k ∈ (l.foldl (fun d i => d.set (f i) (g i)) d).keys ↔ k ∈ d.keys ∨ ∃ i ∈ l, k = f i := by
  induction l generalizing d with
  | nil => simp
  | cons i l ih =>
    rw [List.foldl_cons, ih, mem_keys_set, List.exists_mem_cons_iff]
    constructor
    · rintro ((rfl | hk) | hk)
      · exact .inr (.inl rfl)
      · exact .inl hk
      · exact .inr (.inr hk)
    · rintro (hk | rfl | hk)
      · exact .inl (.inr hk)
      · exact .inl (.inl rfl)
      · exact .inr hk

theorem entries_set_of_notMem (d : Dict κ α) {k : κ} (v : α) (h : k ∉ d.keys) :
    (d.set k v).entries = d.entries ++ [(k, v)] := by
  unfold set
  rw [dif_neg h]

/-- A loop of assignments to distinct new keys adds them at the end, in order. -/
theorem entries_foldl_set {ι : Type*} {f : ι → κ} {g : ι → α} {l : List ι} {d : Dict κ α}
    (hl : (l.map f).Nodup) (hd : ∀ i ∈ l, f i ∉ d.keys) :
    (l.foldl (fun d i => d.set (f i) (g i)) d).entries = d.entries ++ l.map fun i => (f i, g i) := by
  induction l generalizing d with
  | nil => simp
  | cons i l ih =>
    rw [List.map_cons, List.nodup_cons] at hl
    have hi : f i ∉ d.keys := hd i List.mem_cons_self
    have hrest : ∀ j ∈ l, f j ∉ (d.set (f i) (g i)).keys := by
      intro j hj hmem
      rcases mem_keys_set.1 hmem with heq | hmem
      · exact hl.1 (List.mem_map.2 ⟨j, hj, heq⟩)
      · exact hd j (List.mem_cons_of_mem _ hj) hmem
    rw [List.foldl_cons, ih hl.2 hrest, entries_set_of_notMem _ _ hi, List.map_cons,
      List.append_assoc, List.singleton_append]

/-- A loop of changes at distinct keys changes each of these once. -/
theorem get?_foldl_modify {ι : Type*} {f : ι → κ} {g : ι → α → α} {l : List ι} {d : Dict κ α}
    (hl : (l.map f).Nodup) {i : ι} (hi : i ∈ l) :
    (l.foldl (fun d i => d.modify (f i) (g i)) d).get? (f i) = (d.get? (f i)).map (g i) := by
  have hother : ∀ (l : List ι) (d : Dict κ α), f i ∉ l.map f →
      (l.foldl (fun d i => d.modify (f i) (g i)) d).get? (f i) = d.get? (f i) := by
    intro l
    induction l with
    | nil => exact fun d _ => rfl
    | cons j l ih =>
      intro d hnot
      rw [List.map_cons, List.mem_cons, not_or] at hnot
      rw [List.foldl_cons, ih _ hnot.2, get?_modify_of_ne _ _ hnot.1]
  induction l generalizing d with
  | nil => cases hi
  | cons j l ih =>
    rw [List.map_cons, List.nodup_cons] at hl
    rw [List.foldl_cons]
    rcases List.mem_cons.1 hi with rfl | hi
    · rw [hother l _ hl.1, get?_modify_self]
    · have hne : f i ≠ f j := fun heq => hl.1 (heq ▸ List.mem_map_of_mem hi)
      rw [ih hl.2 hi, get?_modify_of_ne _ _ hne]

/-- One key has a value of this kind exactly when the kind occurs once. -/
theorem existsUnique_key_iff [DecidableEq β] {d : Dict κ α} {f : α → β} {b : β} :
    (∃! k, ∃ v, d.get? k = some v ∧ f v = b) ↔ (d.entries.map fun e => f e.2).count b = 1 := by
  have hcount : (d.entries.map fun e => f e.2).count b = (d.entries.filter fun e => f e.2 = b).length := by
    rw [List.count, List.countP_map, List.countP_eq_length_filter]
    rfl
  have hmem (k : κ) : (∃ v, d.get? k = some v ∧ f v = b) ↔
      k ∈ (d.entries.filter fun e => f e.2 = b).map Prod.fst := by
    simp [get?_eq_some_iff]
  have hnodup : ((d.entries.filter fun e => f e.2 = b).map Prod.fst).Nodup :=
    d.distinct.sublist (List.filter_sublist.map _)
  rw [hcount]
  simp only [hmem]
  rw [← List.length_map (f := Prod.fst)]
  generalize (d.entries.filter fun e => f e.2 = b).map Prod.fst = ks at hnodup
  constructor
  · rintro ⟨k, hk, hunique⟩
    have hperm : ks.Perm [k] :=
      (List.perm_ext_iff_of_nodup hnodup (List.nodup_singleton k)).2 fun j => by
        rw [List.mem_singleton]
        exact ⟨hunique j, fun h => h ▸ hk⟩
    exact hperm.length_eq
  · intro h
    obtain ⟨k, rfl⟩ := List.length_eq_one_iff.1 h
    exact ⟨k, List.mem_singleton_self k, fun j hj => List.mem_singleton.1 hj⟩

/-- A dictionary with one key. -/
theorem entries_eq_singleton {d : Dict κ α} {k : κ} {v : α} (hk : ∀ j ∈ d.keys, j = k)
    (h : d.get? k = some v) : d.entries = [(k, v)] := by
  rw [get?_eq_some_iff] at h
  rcases d with ⟨es, hd⟩
  rcases es with _ | ⟨e, _ | ⟨e', es⟩⟩
  · cases h
  · rw [List.mem_singleton.1 h]
  · -- a second entry would have the same key
    have he : e.1 = k := hk e.1 (by simp [keys])
    have he' : e'.1 = k := hk e'.1 (by simp [keys])
    simp [he, he'] at hd

theorem get?_setAll (f : κ → α) (j : κ) : ∀ (ks : List κ) (d : Dict κ α),
    (d.setAll f ks).get? j = if j ∈ ks then some (f j) else d.get? j
  | [], d => by simp [setAll]
  | k :: ks, d => by
    rw [setAll, List.foldl_cons, ← setAll, get?_setAll f j ks, get?_set]
    by_cases hj : j ∈ ks
    · simp [hj]
    · by_cases hk : j = k <;> simp [hj, hk]

/-- The entries of `d'` override those of `d`. -/
theorem get?_update (d d' : Dict κ α) (k : κ) : (d.update d').get? k = (d'.get? k).or (d.get? k) := by
  rcases d' with ⟨es, hd⟩
  simp only [update, get?]
  induction es generalizing d with
  | nil => rfl
  | cons e es ih =>
    rw [List.map_cons, List.nodup_cons] at hd
    rw [List.foldl_cons]
    refine (ih (d.set e.1 e.2) hd.2).trans ?_
    by_cases he : e.1 = k
    · -- no later entry has this key
      rw [find?_eq_none_of_notMem (he ▸ hd.1), List.find?_cons_of_pos (by simpa using he)]
      change (d.set e.1 e.2).get? k = some e.2
      rw [← he, get?_set_self]
    · rw [List.find?_cons_of_neg (by simpa using he)]
      change ((es.find? fun e => e.1 = k).map Prod.snd).or ((d.set e.1 e.2).get? k) = _
      rw [get?_set_of_ne _ _ (Ne.symm he)]
      rfl

/-- A loop over the entries that keeps the value of one key. -/
theorem foldl_entries_eq (f : α → β) (d : Dict κ α) (k : κ) (b : β) :
    d.entries.foldl (fun b e => if k = e.1 then f e.2 else b) b = ((d.get? k).map f).getD b := by
  rcases d with ⟨es, hd⟩
  simp only [get?]
  induction es generalizing b with
  | nil => rfl
  | cons e es ih =>
    rw [List.map_cons, List.nodup_cons] at hd
    rw [List.foldl_cons, ih _ hd.2]
    by_cases he : e.1 = k
    · -- no later entry has this key
      rw [find?_eq_none_of_notMem (he ▸ hd.1), List.find?_cons_of_pos (by simpa using he), if_pos he.symm]
      rfl
    · rw [List.find?_cons_of_neg (by simpa using he), if_neg (Ne.symm he)]

@[simp] theorem get?_erase (d : Dict κ α) (k j : κ) :
    (d.erase k).get? j = if j = k then none else d.get? j := by
  rw [erase, get?_filterMap]
  split_ifs with h <;> simp

/-! ## Sums over the entries -/

section sum
variable [AddCommMonoid M]

theorem sum_congr {g g' : κ → α → M} {d : Dict κ α}
    (h : ∀ k v, d.get? k = some v → g k v = g' k v) : d.sum g = d.sum g' := by
  unfold sum
  refine congrArg List.sum (List.map_congr_left fun e he => ?_)
  exact h e.1 e.2 (get?_eq_some_iff.2 he)

theorem sum_set_of_notMem (g : κ → α → M) (d : Dict κ α) {k : κ} (v : α) (h : k ∉ d.keys) :
    (d.set k v).sum g = d.sum g + g k v := by
  unfold set sum
  rw [dif_neg h, List.map_append, List.sum_append]
  simp

theorem sum_setAll_of_disjoint (g : κ → α → M) (f : κ → α) : ∀ (ks : List κ) (d : Dict κ α),
    ks.Nodup → (∀ k ∈ ks, k ∉ d.keys) →
      (d.setAll f ks).sum g = d.sum g + (ks.map fun k => g k (f k)).sum
  | [], d, _, _ => by simp [setAll]
  | k :: ks, d, hn, hk => by
    rw [List.nodup_cons] at hn
    have hks : ∀ j ∈ ks, j ∉ (d.set k (f k)).keys := by
      intro j hj hj'
      rcases mem_keys_set.1 hj' with rfl | hj'
      · exact hn.1 hj
      · exact hk j (List.mem_cons_of_mem _ hj) hj'
    rw [setAll, List.foldl_cons, ← setAll, sum_setAll_of_disjoint g f ks _ hn.2 hks,
      sum_set_of_notMem g d (f k) (hk k List.mem_cons_self), List.map_cons, List.sum_cons, add_assoc]

/-- Changing one value changes the sum by the same amount. -/
theorem sum_modify_add (g : κ → α → M) {d : Dict κ α} {k : κ} {v : α} {f : α → α} {x y : M}
    (hk : d.get? k = some v) (hx : g k (f v) + x = g k v + y) :
    (d.modify k f).sum g + x = d.sum g + y := by
  rcases d with ⟨es, hd⟩
  rw [get?_eq_some_iff] at hk
  simp only [sum, modify, mapVal, List.map_map, Function.comp_def]
  induction es with
  | nil => simp at hk
  | cons e es ih =>
    rw [List.map_cons, List.nodup_cons] at hd
    rcases e with ⟨j, w⟩
    rcases List.mem_cons.1 hk with he | hk
    · cases he
      have hrest : ∀ e ∈ es, g e.1 (if e.1 = k then f e.2 else e.2) = g e.1 e.2 := by
        intro e he
        rw [if_neg]
        intro hek
        exact hd.1 (List.mem_map.2 ⟨e, he, hek⟩)
      simp only [List.map_cons, List.sum_cons, if_true, List.map_congr_left hrest]
      rw [add_right_comm, hx, add_right_comm]
    · have hjk : j ≠ k := by
        intro hjk
        exact hd.1 (List.mem_map.2 ⟨(k, v), hk, hjk.symm⟩)
      simp only [List.map_cons, List.sum_cons, if_neg hjk, add_assoc, ih hd.2 hk]

/-- Changing one value by `x` changes the sum by `x`. -/
theorem sum_modify (g : κ → α → M) {d : Dict κ α} {k : κ} {v : α} {f : α → α} {x : M}
    (hk : d.get? k = some v) (hx : g k (f v) = g k v + x) :
    (d.modify k f).sum g = d.sum g + x := by
  rw [← sum_modify_add g hk (x := 0) (by rw [add_zero, hx]), add_zero]

/-- A sum in which only one key counts. -/
theorem sum_ite_eq (f : α → M) (d : Dict κ α) (k : κ) :
    (d.sum fun j v => if j = k then f v else 0) = ((d.get? k).map f).getD 0 := by
  rcases d with ⟨es, hd⟩
  simp only [sum, get?]
  induction es with
  | nil => rfl
  | cons e es ih =>
    rw [List.map_cons, List.nodup_cons] at hd
    rw [List.map_cons, List.sum_cons, ih hd.2]
    by_cases he : e.1 = k
    · rw [if_pos he, find?_eq_none_of_notMem (he ▸ hd.1), List.find?_cons_of_pos (by simpa using he)]
      simp
    · rw [if_neg he, zero_add, List.find?_cons_of_neg (by simpa using he)]

/-- A sum of naturals is `1` if one entry has `1` and the others `0`. -/
theorem exists_of_sum_eq_one {g : κ → α → ℕ} {d : Dict κ α} (h : d.sum g = 1) :
    ∃ k v, d.get? k = some v ∧ g k v = 1 ∧
      ∀ k' v', d.get? k' = some v' → k' ≠ k → g k' v' = 0 := by
  rcases d with ⟨es, hd⟩
  simp only [get?_eq_some_iff]
  simp only [sum] at h
  induction es with
  | nil => simp at h
  | cons e es ih =>
    rw [List.map_cons, List.nodup_cons] at hd
    rw [List.map_cons, List.sum_cons] at h
    rcases Nat.eq_zero_or_pos (g e.1 e.2) with he | he
    · obtain ⟨k, v, hkv, hone, hrest⟩ := ih hd.2 (by omega)
      refine ⟨k, v, List.mem_cons_of_mem _ hkv, hone, fun k' v' hk' hne => ?_⟩
      rcases List.mem_cons.1 hk' with rfl | hk'
      · exact he
      · exact hrest k' v' hk' hne
    · refine ⟨e.1, e.2, List.mem_cons_self, by omega, fun k' v' hk' hne => ?_⟩
      rcases List.mem_cons.1 hk' with rfl | hk'
      · exact absurd rfl hne
      · have hzero : (es.map fun e => g e.1 e.2).sum = 0 := by omega
        exact List.sum_eq_zero_iff_forall_eq_nat.1 hzero _ (List.mem_map.2 ⟨_, hk', rfl⟩)

theorem eq_zero_of_sum_eq_zero {g : κ → α → ℕ} {d : Dict κ α} (h : d.sum g = 0) {k : κ} {v : α}
    (hk : d.get? k = some v) : g k v = 0 :=
  List.sum_eq_zero_iff_forall_eq_nat.1 h _ (List.mem_map.2 ⟨_, get?_eq_some_iff.1 hk, rfl⟩)

end sum

end Dict
