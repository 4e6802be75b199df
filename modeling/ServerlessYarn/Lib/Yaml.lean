/-
  YAML documents as values: finite trees of mappings, sequences, scalars and
  nulls, addressed by paths of keys.

  * `get?_set`: what an assignment does to every key of a mapping;
  * `at?_append`, `open_map_cons`: reading along a path, and paths on which no
    scalar and no sequence stands in the way;
  * `WellFormed.at?`: the keys of every mapping of a document are distinct.
-/
import Mathlib.Data.List.Nodup

/-- A value of a document. -/
inductive Yaml (κ σ : Type) where
  | null
  | scalar (s : σ)
  | seq (items : List (Yaml κ σ))
  | map (entries : List (κ × Yaml κ σ))

namespace Yaml

variable {κ σ : Type}

/-! ## Mappings -/

/-- The keys of a mapping, in their order. -/
def keys (es : List (κ × Yaml κ σ)) : List κ := es.map Prod.fst

/-- Every mapping in the document has distinct keys. -/
inductive WellFormed : Yaml κ σ → Prop
  | null : WellFormed .null
  | scalar (s : σ) : WellFormed (.scalar s)
  | seq {items : List (Yaml κ σ)} (h : ∀ t ∈ items, WellFormed t) : WellFormed (.seq items)
  | map {es : List (κ × Yaml κ σ)} (distinct : (keys es).Nodup) (h : ∀ e ∈ es, WellFormed e.2) :
      WellFormed (.map es)

variable [DecidableEq κ]

def get? (es : List (κ × Yaml κ σ)) (k : κ) : Option (Yaml κ σ) :=
  (es.find? fun e => e.1 = k).map Prod.snd

/-- `es[k] = v`: a present key keeps its place, a new one goes to the end. -/
def set (k : κ) (v : Yaml κ σ) : List (κ × Yaml κ σ) → List (κ × Yaml κ σ)
  | [] => [(k, v)]
  | e :: es => if e.1 = k then (e.1, v) :: es else e :: set k v es

@[simp] theorem get?_nil (k : κ) : get? ([] : List (κ × Yaml κ σ)) k = none := rfl

theorem get?_cons (e : κ × Yaml κ σ) (es : List (κ × Yaml κ σ)) (k : κ) :
    get? (e :: es) k = if e.1 = k then some e.2 else get? es k := by
  unfold get?
  rw [List.find?_cons]
  by_cases h : e.1 = k <;> simp [h]

theorem get?_set (k : κ) (v : Yaml κ σ) (es : List (κ × Yaml κ σ)) (j : κ) :
    get? (set k v es) j = if j = k then some v else get? es j := by
  induction es with
  | nil =>
    rw [set, get?_cons]
    by_cases h : k = j
    · rw [if_pos h, if_pos h.symm]
    · rw [if_neg h, if_neg (Ne.symm h)]
  | cons e es ih =>
    rw [set]
    split_ifs with hek hjk hjk
    · rw [get?_cons, if_pos (hek.trans hjk.symm)]
    · rw [get?_cons, get?_cons, if_neg, if_neg]
      all_goals exact fun h => hjk (h.symm.trans hek)
    · rw [get?_cons, ih, if_pos hjk, if_neg]
      exact fun h => hek (h.trans hjk)
    · rw [get?_cons, get?_cons, ih, if_neg hjk]

/-- Assigning what is already there changes nothing. -/
theorem set_eq_self {k : κ} {v : Yaml κ σ} {es : List (κ × Yaml κ σ)} (h : get? es k = some v) :
    set k v es = es := by
  induction es with
  | nil => cases h
  | cons e es ih =>
    rw [get?_cons] at h
    rw [set]
    split_ifs at h ⊢ with hek
    · cases h
      rfl
    · rw [ih h]

theorem get?_eq_none_iff {es : List (κ × Yaml κ σ)} {k : κ} : get? es k = none ↔ k ∉ keys es := by
  induction es with
  | nil => simp [keys]
  | cons e es ih =>
    rw [get?_cons, keys, List.map_cons, List.mem_cons, not_or, ← keys, ← ih]
    by_cases h : e.1 = k
    · simp [h]
    · simp [h, Ne.symm h]

theorem mem_of_get? {es : List (κ × Yaml κ σ)} {k : κ} {v : Yaml κ σ} (h : get? es k = some v) :
    (k, v) ∈ es := by
  unfold get? at h
  obtain ⟨e, he, rfl⟩ := Option.map_eq_some_iff.1 h
  have hk : e.1 = k := by simpa using List.find?_some he
  rw [← hk]
  exact List.mem_of_find?_eq_some he

theorem get?_of_mem {es : List (κ × Yaml κ σ)} (hn : (keys es).Nodup) {k : κ} {v : Yaml κ σ}
    (h : (k, v) ∈ es) : get? es k = some v := by
  induction es with
  | nil => cases h
  | cons e es ih =>
    rw [keys, List.map_cons, List.nodup_cons] at hn
    rw [get?_cons]
    rcases List.mem_cons.1 h with rfl | h
    · rw [if_pos rfl]
    · rw [if_neg, ih hn.2 h]
      intro hek
      exact hn.1 (hek ▸ List.mem_map_of_mem (f := Prod.fst) h)

theorem keys_set (k : κ) (v : Yaml κ σ) (es : List (κ × Yaml κ σ)) :
    keys (set k v es) = if k ∈ keys es then keys es else keys es ++ [k] := by
  induction es with
  | nil => simp [set, keys]
  | cons e es ih =>
    rw [set]
    by_cases h : e.1 = k
    · rw [if_pos h, if_pos]
      · rfl
      · exact List.mem_cons.2 (.inl h.symm)
    · have hmem : k ∈ keys (e :: es) ↔ k ∈ keys es := by
        rw [keys, List.map_cons, List.mem_cons, or_iff_right (Ne.symm h), ← keys]
      rw [if_neg h, keys, List.map_cons, ← keys, ih]
      split_ifs with hin hin' hin'
      · rfl
      · exact absurd (hmem.2 hin) hin'
      · exact absurd (hmem.1 hin') hin
      · rfl

theorem mem_set {k : κ} {v : Yaml κ σ} {es : List (κ × Yaml κ σ)} {e : κ × Yaml κ σ}
    (h : e ∈ set k v es) : e.2 = v ∨ e ∈ es := by
  induction es with
  | nil => exact .inl (congrArg Prod.snd (List.mem_singleton.1 h))
  | cons e' es ih =>
    rw [set] at h
    split_ifs at h
    · rcases List.mem_cons.1 h with rfl | h
      · exact .inl rfl
      · exact .inr (List.mem_cons_of_mem _ h)
    · rcases List.mem_cons.1 h with rfl | h
      · exact .inr List.mem_cons_self
      · exact (ih h).imp_right (List.mem_cons_of_mem _)

/-- An assignment keeps the keys distinct and the values well formed. -/
theorem WellFormed.set {es : List (κ × Yaml κ σ)} (h : WellFormed (.map es)) (k : κ)
    {v : Yaml κ σ} (hv : WellFormed v) : WellFormed (.map (Yaml.set k v es)) := by
  cases h with
  | map distinct hes =>
    refine .map ?_ ?_
    · rw [keys_set]
      split_ifs with hk
      · exact distinct
      · exact distinct.append (List.nodup_singleton k) (by simpa using hk)
    · intro e he
      rcases mem_set he with he | he
      · rw [he]
        exact hv
      · exact hes e he

theorem WellFormed.get? {es : List (κ × Yaml κ σ)} (h : WellFormed (.map es)) {k : κ}
    {v : Yaml κ σ} (hk : Yaml.get? es k = some v) : WellFormed v := by
  cases h with
  | map _ hes => exact hes (k, v) (mem_of_get? hk)

/-! ## Paths -/

/-- The value at a path of keys. -/
def at? : Yaml κ σ → List κ → Option (Yaml κ σ)
  | t, [] => some t
  | .map es, k :: p => (get? es k).bind fun v => v.at? p
  | _, _ :: _ => none

@[simp] theorem at?_root (t : Yaml κ σ) : t.at? [] = some t := by cases t <;> rfl

@[simp] theorem at?_null_cons (k : κ) (p : List κ) : (null : Yaml κ σ).at? (k :: p) = none := rfl

@[simp] theorem at?_scalar_cons (s : σ) (k : κ) (p : List κ) :
    (scalar s : Yaml κ σ).at? (k :: p) = none := rfl

@[simp] theorem at?_seq_cons (items : List (Yaml κ σ)) (k : κ) (p : List κ) :
    (seq items).at? (k :: p) = none := rfl

@[simp] theorem at?_map_cons (es : List (κ × Yaml κ σ)) (k : κ) (p : List κ) :
    (map es).at? (k :: p) = (get? es k).bind fun v => v.at? p := rfl

theorem at?_append (t : Yaml κ σ) (p q : List κ) :
    t.at? (p ++ q) = (t.at? p).bind fun v => v.at? q := by
  induction p generalizing t with
  | nil => simp
  | cons k p ih =>
    cases t with
    | null => rfl
    | scalar => rfl
    | seq => rfl
    | map es =>
      rw [List.cons_append, at?_map_cons, at?_map_cons, Option.bind_assoc]
      rcases get? es k with _ | v
      · rfl
      · exact ih v

theorem WellFormed.at? {t v : Yaml κ σ} (h : WellFormed t) {p : List κ} (hv : t.at? p = some v) :
    WellFormed v := by
  induction p generalizing t with
  | nil =>
    rw [at?_root] at hv
    cases hv
    exact h
  | cons k p ih =>
    cases t with
    | null => cases hv
    | scalar => cases hv
    | seq => cases hv
    | map es =>
      rw [at?_map_cons, Option.bind_eq_some_iff] at hv
      obtain ⟨w, hw, hv⟩ := hv
      exact ih (h.get? hw) hv

/-- A scalar or a sequence: what has no keys and is not null. -/
def IsLeaf : Yaml κ σ → Prop
  | .null => False
  | .scalar _ => True
  | .seq _ => True
  | .map _ => False

/-- Above the path stand only mappings, nulls and absent values. -/
def Open (t : Yaml κ σ) (p : List κ) : Prop :=
  ∀ q k r v, p = q ++ k :: r → t.at? q = some v → ¬ v.IsLeaf

@[simp] theorem open_root (t : Yaml κ σ) : t.Open [] := by
  intro q k r v hp
  simp at hp

@[simp] theorem open_null (p : List κ) : (null : Yaml κ σ).Open p := by
  intro q k r v _ hv
  cases q with
  | nil =>
    cases hv
    exact id
  | cons j q => cases hv

theorem not_open_cons {t : Yaml κ σ} (h : t.IsLeaf) (k : κ) (p : List κ) : ¬ t.Open (k :: p) :=
  fun ho => ho [] k p t rfl (at?_root t) h

theorem open_map_cons {es : List (κ × Yaml κ σ)} {k : κ} {p : List κ} :
    (map es).Open (k :: p) ↔ ∀ v, get? es k = some v → v.Open p := by
  constructor
  · intro h v hv q j r w hp hw
    refine h (k :: q) j r w (by rw [hp, List.cons_append]) ?_
    rw [at?_map_cons, hv]
    exact hw
  · intro h q j r w hp hw
    cases q with
    | nil =>
      cases hw
      exact id
    | cons i q =>
      rw [List.cons_append, List.cons.injEq] at hp
      obtain ⟨rfl, hp⟩ := hp
      rw [at?_map_cons, Option.bind_eq_some_iff] at hw
      obtain ⟨v, hv, hw⟩ := hw
      exact h v hv q j r w hp hw

/-- Above a value stand only mappings. -/
theorem at?_above {t w : Yaml κ σ} {q r : List κ} {k : κ} (h : t.at? (q ++ k :: r) = some w) :
    ∃ es, t.at? q = some (map es) := by
  rw [at?_append, Option.bind_eq_some_iff] at h
  obtain ⟨v, hv, hw⟩ := h
  cases v with
  | null => cases hw
  | scalar => cases hw
  | seq => cases hw
  | map es => exact ⟨es, hv⟩

end Yaml

/-- A well-formed document. -/
def YamlDocument (κ σ : Type) := {t : Yaml κ σ // t.WellFormed}
