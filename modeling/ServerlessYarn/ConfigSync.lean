/-
  ServerlessYARN model — the synchronisation of a configuration with its
  template (`sync_yaml_config.py`): `deep_merge_defaults`, `find_extra_keys` and
  `sync_file`.

  The documents are values; of the comments, only where new ones are put is kept.
  Reading and writing YAML is a parameter, `Ruamel`.

  * `at?_merged_of_user`, `at?_merged_of_absent`: the merged document, path by path;
  * `wellFormed_merged`: the merge of two documents is a document;
  * `findExtraKeys_eq`: the reported keys are the paths that leave the template.
-/
import ServerlessYarn.Lib.Yaml
import ServerlessYarn.Texts

namespace ServerlessYarn

open Yaml

/-! ## The merge -/

/-- What `deep_merge_defaults` reports: the keys that were added, and those above which
    a comment was put. -/
structure MergeReport where
  added_keys : List String
  commented : List String
  deriving DecidableEq

def MergeReport.empty : MergeReport := ⟨[], []⟩

section model

variable {κ σ : Type} [DecidableEq κ] (str : κ → String)

/-- `f"{path}.{key}" if path else str(key)`. -/
def currentPath (path : String) (key : κ) : String :=
  if path = "" then str key else String.join [path, ".", str key]

/-- A key is added; the first one of a level gets the comment. -/
def MergeReport.add (report : MergeReport) (comment_added_in_this_level : Bool)
    (current_path : String) : MergeReport where
  added_keys := report.added_keys ++ [current_path]
  commented := if comment_added_in_this_level then report.commented
    else report.commented ++ [current_path]

mutual

/-- `deep_merge_defaults`; the accumulator is the report. -/
def deepMergeDefaults : Yaml κ σ → Yaml κ σ → MergeReport → String → Yaml κ σ × MergeReport
  | template, .null, report, path =>
    (template, { report with
      added_keys := report.added_keys ++ [if path = "" then "<root>" else path] })
  | .map template, .map user, report, path =>
    let r := mergeItems template user false report path
    (.map r.1, r.2)
  | _, user, report, _ => (user, report)

/-- The loop over `template.items()`. -/
def mergeItems : List (κ × Yaml κ σ) → List (κ × Yaml κ σ) → Bool → MergeReport → String →
    List (κ × Yaml κ σ) × MergeReport
  | [], user, _, report, _ => (user, report)
  | (key, template_value) :: items, user, comment_added_in_this_level, report, path =>
    let current_path := currentPath str path key
    match get? user key with
    | none => mergeItems items (set key template_value user) true
        (report.add comment_added_in_this_level current_path) path
    | some value =>
      let r := deepMergeDefaults template_value value report current_path
      mergeItems items (set key r.1 user) comment_added_in_this_level r.2 path

end

mutual

/-- `find_extra_keys`. -/
def findExtraKeys : Yaml κ σ → Yaml κ σ → List String → String → List String
  | template, .map user, extra_keys, path =>
    match template with
    | .map template => extraItems template user extra_keys path
    | _ => extra_keys
  | _, _, extra_keys, _ => extra_keys

/-- The loop over the keys of `user`. -/
def extraItems (template : List (κ × Yaml κ σ)) :
    List (κ × Yaml κ σ) → List String → String → List String
  | [], extra_keys, _ => extra_keys
  | (key, value) :: user, extra_keys, path =>
    let current_path := currentPath str path key
    match get? template key with
    | none => extraItems template user (extra_keys ++ [current_path]) path
    | some template_value =>
      extraItems template user (findExtraKeys template_value value extra_keys current_path) path

end

end model

/-! ## The files -/

/-- `NEW_PARAMS_COMMENT`, with the time of the import. -/
def newParamsComment (now : String) : String :=
  String.join ["NEW PARAMETERS ADDED BY UPDATED TEMPLATE (", now,
    ") --> See template to check parameter(s) description"]

/-- `ensure_blank_line_before_new_params_comment`. -/
def ensureBlankLineBeforeNewParamsComment (now text : String) : String :=
  let marker := (String.join ["# ", newParamsComment now]).toList
  let output := (splitlinesFrom [] text.toList).foldl (fun output line =>
    let output := if strip line = marker ∧ ∃ last ∈ output.getLast?, strip last ≠ [] then
        output ++ [[]] else output
    output ++ [line]) []
  String.ofList ((output.intersperse ['\n']).flatten ++ ['\n'])

/-- `ruamel.yaml`: reading a text, which may fail, and writing a document with the
    comments of the texts it was read from and the new ones. -/
structure Ruamel (κ σ : Type) where
  load : String → Except String (YamlDocument κ σ)
  dump : (template config : Option String) → Yaml κ σ → (commented : List String) → String

/-- The files of one module of the configuration. -/
structure ConfigFiles where
  template : Option String
  config : Option String
  backup : Option String
  deriving DecidableEq

/-- What is written by `sync_file`. -/
inductive FileWrite where
  /-- `shutil.copy2(config_path, backup_path)` -/
  | backup (text : String)
  /-- the end of `save_yaml` -/
  | config (text : String)
  deriving DecidableEq

def FileWrite.apply (files : ConfigFiles) : FileWrite → ConfigFiles
  | .backup text => { files with backup := some text }
  | .config text => { files with config := some text }

section files

variable {κ σ : Type} [DecidableEq κ] (str : κ → String) (yaml : Ruamel κ σ)

/-- An empty `CommentedMap`. -/
def emptyMap : YamlDocument κ σ :=
  ⟨.map [], .map List.nodup_nil fun _ h => absurd h List.not_mem_nil⟩

/-- `data if data is not None else CommentedMap()`. -/
def orEmptyMap (d : YamlDocument κ σ) : YamlDocument κ σ :=
  match d.1 with
  | .null => emptyMap
  | _ => d

/-- `load_yaml`, from the text of an existing file. -/
def loadYaml : Option String → Except String (YamlDocument κ σ)
  | none => .ok emptyMap
  | some text => (yaml.load text).map orEmptyMap

/-- The text that `save_yaml` writes. -/
def savedText (now : String) (files : ConfigFiles) (data : Yaml κ σ) (commented : List String) :
    String :=
  ensureBlankLineBeforeNewParamsComment now (yaml.dump files.template files.config data commented)

/-- What `sync_file` returns, with what it has written. -/
structure SyncResult where
  added_keys : List String
  extra_keys : List String
  writes : List FileWrite
  deriving DecidableEq

/-- `sync_file`. -/
def syncFile (now : String) (files : ConfigFiles) (backup report_extra : Bool) :
    Except String SyncResult := do
  let template_data ← loadYaml yaml files.template
  let user_data ← loadYaml yaml files.config
  let (updated_data, report) := deepMergeDefaults str template_data.1 user_data.1 .empty ""
  let extra_keys := if report_extra then findExtraKeys str template_data.1 updated_data [] "" else []
  let copied := match files.config with
    | some text => if backup then [FileWrite.backup text] else []
    | none => []
  let writes := if report.added_keys = [] then [] else
    copied ++ [.config (savedText yaml now files updated_data report.commented)]
  return ⟨report.added_keys, extra_keys, writes⟩

/-- The files after the writes. -/
def SyncResult.after (r : SyncResult) (files : ConfigFiles) : ConfigFiles :=
  r.writes.foldl FileWrite.apply files

end files

/-! ## The merged document -/

section merged

variable {κ σ : Type} [DecidableEq κ] (str : κ → String)

mutual

/-- The merged value does not depend on what has been reported. -/
theorem deepMergeDefaults_fst (t u : Yaml κ σ) (report report' : MergeReport) (path path' : String) :
    (deepMergeDefaults str t u report path).1 = (deepMergeDefaults str t u report' path').1 := by
  cases t with
  | map ts =>
    cases u with
    | map us => exact congrArg Yaml.map (mergeItems_fst ts us false false report report' path path')
    | null => rfl
    | scalar => rfl
    | seq => rfl
  | null => cases u <;> rfl
  | scalar => cases u <;> rfl
  | seq => cases u <;> rfl

theorem mergeItems_fst (ts us : List (κ × Yaml κ σ)) (commented commented' : Bool)
    (report report' : MergeReport) (path path' : String) :
    (mergeItems str ts us commented report path).1 =
      (mergeItems str ts us commented' report' path').1 := by
  cases ts with
  | nil => rfl
  | cons e ts =>
    obtain ⟨key, t⟩ := e
    rw [mergeItems, mergeItems]
    cases get? us key with
    | none => exact mergeItems_fst ts _ _ _ _ _ _ _
    | some u =>
      simp only []
      rw [deepMergeDefaults_fst t u report report' (currentPath str path key) (currentPath str path' key)]
      exact mergeItems_fst ts _ _ _ _ _ _ _

end

/-- The merged document. -/
def merged (t u : Yaml κ σ) : Yaml κ σ := (deepMergeDefaults str t u .empty "").1

@[simp] theorem merged_null (t : Yaml κ σ) : merged str t .null = t := by
  unfold merged
  cases t <;> rfl

@[simp] theorem null_merged (u : Yaml κ σ) : merged str .null u = u := by
  unfold merged
  cases u <;> rfl

theorem merged_of_isLeaf {u : Yaml κ σ} (t : Yaml κ σ) (h : u.IsLeaf) : merged str t u = u := by
  unfold merged
  cases u with
  | null => exact h.elim
  | map => exact h.elim
  | scalar => cases t <;> rfl
  | seq => cases t <;> rfl

/-- The merged entries of a level. -/
def mergedItems (ts us : List (κ × Yaml κ σ)) : List (κ × Yaml κ σ) :=
  (mergeItems str ts us false .empty "").1

theorem merged_map (ts us : List (κ × Yaml κ σ)) :
    merged str (.map ts) (.map us) = .map (mergedItems str ts us) := rfl

@[simp] theorem mergedItems_nil (us : List (κ × Yaml κ σ)) : mergedItems str [] us = us := rfl

/-- The value of a key that both may have. -/
def mergedValue (key : κ) (t : Yaml κ σ) (us : List (κ × Yaml κ σ)) : Yaml κ σ :=
  match get? us key with
  | none => t
  | some u => merged str t u

theorem mergedItems_cons (key : κ) (t : Yaml κ σ) (ts us : List (κ × Yaml κ σ)) :
    mergedItems str ((key, t) :: ts) us =
      mergedItems str ts (set key (mergedValue str key t us) us) := by
  unfold mergedValue mergedItems
  rw [mergeItems]
  cases get? us key with
  | none => exact mergeItems_fst str ts _ _ _ _ _ _ _
  | some u =>
    simp only [merged]
    rw [deepMergeDefaults_fst str t u .empty .empty "" (currentPath str "" key)]
    exact mergeItems_fst str ts _ _ _ _ _ _ _

theorem wellFormed_mergedItems {ts : List (κ × Yaml κ σ)}
    (ih : ∀ e ∈ ts, ∀ u : Yaml κ σ, u.WellFormed → (merged str e.2 u).WellFormed)
    (hts : ∀ e ∈ ts, e.2.WellFormed) {us : List (κ × Yaml κ σ)} (hus : WellFormed (.map us)) :
    WellFormed (.map (mergedItems str ts us)) := by
  induction ts generalizing us with
  | nil => exact hus
  | cons e ts ihts =>
    rw [mergedItems_cons]
    refine ihts (fun e' he' => ih e' (List.mem_cons_of_mem _ he'))
      (fun e' he' => hts e' (List.mem_cons_of_mem _ he')) (hus.set _ ?_)
    unfold mergedValue
    cases hu : get? us e.1 with
    | none => exact hts e List.mem_cons_self
    | some u => exact ih e List.mem_cons_self u (hus.get? hu)

/-- The merge of two documents is a document. -/
theorem wellFormed_merged {t : Yaml κ σ} (ht : t.WellFormed) {u : Yaml κ σ} (hu : u.WellFormed) :
    (merged str t u).WellFormed := by
  induction ht generalizing u with
  | null => cases hu <;> constructor <;> assumption
  | scalar s => cases hu <;> constructor <;> assumption
  | seq h _ => cases hu <;> constructor <;> assumption
  | @map ts distinct h ih =>
    cases u with
    | null =>
      rw [merged_null]
      exact .map distinct h
    | scalar => exact hu
    | seq => exact hu
    | map us => exact wellFormed_mergedItems str (fun e he _ hw => ih e he hw) h hu

theorem get?_mergedItems {ts : List (κ × Yaml κ σ)} (distinct : (keys ts).Nodup)
    (us : List (κ × Yaml κ σ)) (k : κ) :
    get? (mergedItems str ts us) k =
      ((get? ts k).map fun t => mergedValue str k t us).or (get? us k) := by
  induction ts generalizing us with
  | nil => rfl
  | cons e ts ih =>
    obtain ⟨key, t⟩ := e
    rw [keys, List.map_cons, List.nodup_cons] at distinct
    rw [mergedItems_cons, ih distinct.2, get?_cons, get?_set]
    by_cases hk : key = k
    · -- the key does not come back in the template
      subst hk
      rw [get?_eq_none_iff.2 distinct.1]
      simp
    · have hsame (t' : Yaml κ σ) : mergedValue str k t' (set key (mergedValue str key t us) us) =
          mergedValue str k t' us := by
        unfold mergedValue
        rw [get?_set, if_neg (Ne.symm hk)]
      simp only [hsame, if_neg hk, if_neg (Ne.symm hk)]

/-- One step down in the merged document. -/
theorem get?_mergedItems_of_user {ts us : List (κ × Yaml κ σ)} (distinct : (keys ts).Nodup) {k : κ}
    {v : Yaml κ σ} (hv : get? us k = some v) :
    get? (mergedItems str ts us) k =
      some (match get? ts k with | none => v | some t => merged str t v) := by
  rw [get?_mergedItems str distinct, hv]
  cases get? ts k with
  | none => rfl
  | some t =>
    unfold mergedValue
    rw [hv]
    rfl

theorem get?_mergedItems_of_absent {ts us : List (κ × Yaml κ σ)} (distinct : (keys ts).Nodup)
    {k : κ} (hk : get? us k = none) : get? (mergedItems str ts us) k = get? ts k := by
  rw [get?_mergedItems str distinct, hk]
  cases get? ts k with
  | none => rfl
  | some t =>
    unfold mergedValue
    rw [hk]
    rfl

/-- What the user has, and what both have. -/
theorem at?_merged_of_user {t u v : Yaml κ σ} (ht : t.WellFormed) {p : List κ}
    (hv : u.at? p = some v) :
    (merged str t u).at? p =
      some (match t.at? p with | none => v | some w => merged str w v) := by
  induction p generalizing t u with
  | nil =>
    rw [at?_root] at hv
    cases hv
    rw [at?_root, at?_root]
  | cons k p ih =>
    cases u with
    | null => cases hv
    | scalar => cases hv
    | seq => cases hv
    | map us =>
      cases ht with
      | null => exact hv
      | scalar => exact hv
      | seq => exact hv
      | @map ts distinct hts =>
        rw [at?_map_cons, Option.bind_eq_some_iff] at hv
        obtain ⟨u, hu, hv⟩ := hv
        rw [merged_map, at?_map_cons, get?_mergedItems_of_user str distinct hu, at?_map_cons]
        cases hk : get? ts k with
        | none => exact hv
        | some t => exact ih (hts (k, t) (mem_of_get? hk)) hv

theorem at?_merged_of_both {t u v w : Yaml κ σ} (ht : t.WellFormed) {p : List κ}
    (hv : u.at? p = some v) (hw : t.at? p = some w) :
    (merged str t u).at? p = some (merged str w v) := by
  rw [at?_merged_of_user str ht hv, hw]

/-- What the user does not have, and could have. -/
theorem at?_merged_of_absent {t u : Yaml κ σ} (ht : t.WellFormed) {p : List κ}
    (hp : u.at? p = none) (ho : u.Open p) : (merged str t u).at? p = t.at? p := by
  induction p generalizing t u with
  | nil => cases u <;> cases hp
  | cons k p ih =>
    cases u with
    | null => rw [merged_null]
    | scalar s => exact absurd ho (not_open_cons (t := .scalar s) trivial k p)
    | seq items => exact absurd ho (not_open_cons (t := .seq items) trivial k p)
    | map us =>
      cases ht with
      | null => exact hp
      | scalar => exact hp
      | seq => exact hp
      | @map ts distinct hts =>
        rw [merged_map, at?_map_cons, at?_map_cons]
        rw [at?_map_cons] at hp
        cases hu : get? us k with
        | none => rw [get?_mergedItems_of_absent str distinct hu]
        | some u =>
          rw [hu] at hp
          rw [get?_mergedItems_of_user str distinct hu]
          cases hk : get? ts k with
          | none => exact hp
          | some t => exact ih (hts (k, t) (mem_of_get? hk)) hp (open_map_cons.1 ho u hu)

/-- A scalar or a sequence of the user stays where it is. -/
theorem at?_merged_leaf {t u v : Yaml κ σ} (ht : t.WellFormed) {p : List κ}
    (hv : u.at? p = some v) (hleaf : v.IsLeaf) : (merged str t u).at? p = some v := by
  rw [at?_merged_of_user str ht hv]
  cases t.at? p with
  | none => rfl
  | some w => exact congrArg some (merged_of_isLeaf str w hleaf)

/-- The template is not followed below a scalar or a sequence of the user. -/
theorem open_of_open_merged {t u : Yaml κ σ} (ht : t.WellFormed) {p : List κ}
    (ho : (merged str t u).Open p) : u.Open p := by
  intro q k r v hp hv hleaf
  exact ho q k r v hp (at?_merged_leaf str ht hv hleaf) hleaf

theorem at?_merged_of_blocked {t u : Yaml κ σ} (ht : t.WellFormed) {p : List κ}
    (ho : ¬ u.Open p) : (merged str t u).at? p = none := by
  unfold Open at ho
  push Not at ho
  obtain ⟨q, k, r, v, rfl, hv, hleaf⟩ := ho
  rw [at?_append, at?_merged_leaf str ht hv hleaf]
  cases v with
  | null => exact hleaf.elim
  | map => exact hleaf.elim
  | scalar => rfl
  | seq => rfl

end merged

/-! ## The keys that only the user has -/

section extra

variable {κ σ : Type} [DecidableEq κ] (str : κ → String)

/-- The text of a path below `path`. -/
def pathText (path : String) : List κ → String
  | [] => path
  | k :: p => pathText (currentPath str path k) p

/-- A path of the user that leaves the template below common mappings. -/
def Leaves (t u : Yaml κ σ) (p : List κ) : Prop :=
  ∃ q k ts us, p = q ++ [k] ∧ t.at? q = some (.map ts) ∧ u.at? q = some (.map us) ∧
    k ∈ keys us ∧ k ∉ keys ts

/-- The rest of a path whose first key leads to `t` and to `u`. -/
def LeavesBelow (t : Option (Yaml κ σ)) (u : Yaml κ σ) (p : List κ) : Prop :=
  match t with
  | none => p = []
  | some t => Leaves t u p

theorem not_leaves_root {t u : Yaml κ σ} : ¬ Leaves t u [] := by
  rintro ⟨q, k, ts, us, hp, -⟩
  simp at hp

/-- Both documents are mappings where a path leaves the template. -/
theorem Leaves.maps {t u : Yaml κ σ} {p : List κ} (h : Leaves t u p) :
    (∃ ts, t = .map ts) ∧ ∃ us, u = .map us := by
  obtain ⟨q, k, ts, us, -, ht, hu, -⟩ := h
  cases q with
  | nil =>
    rw [at?_root] at ht hu
    exact ⟨⟨ts, Option.some.inj ht⟩, ⟨us, Option.some.inj hu⟩⟩
  | cons j q =>
    constructor
    · cases t with
      | map es => exact ⟨es, rfl⟩
      | null => cases ht
      | scalar => cases ht
      | seq => cases ht
    · cases u with
      | map es => exact ⟨es, rfl⟩
      | null => cases hu
      | scalar => cases hu
      | seq => cases hu

theorem leaves_map_cons {ts us : List (κ × Yaml κ σ)} {k : κ} {p : List κ} :
    Leaves (.map ts) (.map us) (k :: p) ↔
      ∃ u, get? us k = some u ∧ LeavesBelow (get? ts k) u p := by
  constructor
  · rintro ⟨q, j, ts', us', hp, ht, hu, hj, hj'⟩
    cases q with
    | nil =>
      rw [at?_root] at ht hu
      cases ht
      cases hu
      rw [List.nil_append, List.cons.injEq] at hp
      obtain ⟨rfl, rfl⟩ := hp
      obtain ⟨u, hu⟩ := Option.ne_none_iff_exists'.1 (fun h => get?_eq_none_iff.1 h hj)
      refine ⟨u, hu, ?_⟩
      rw [get?_eq_none_iff.2 hj']
      exact rfl
    | cons i q =>
      rw [List.cons_append, List.cons.injEq] at hp
      obtain ⟨rfl, rfl⟩ := hp
      rw [at?_map_cons, Option.bind_eq_some_iff] at ht hu
      obtain ⟨t, htk, ht⟩ := ht
      obtain ⟨u, huk, hu⟩ := hu
      refine ⟨u, huk, ?_⟩
      rw [htk]
      exact ⟨q, j, ts', us', rfl, ht, hu, hj, hj'⟩
  · rintro ⟨u, hu, h⟩
    cases ht : get? ts k with
    | none =>
      rw [ht] at h
      cases h
      refine ⟨[], k, ts, us, rfl, rfl, rfl, ?_, get?_eq_none_iff.1 ht⟩
      exact List.mem_map.2 ⟨(k, u), mem_of_get? hu, rfl⟩
    | some t =>
      rw [ht] at h
      obtain ⟨q, j, ts', us', rfl, ht', hu', hj, hj'⟩ := h
      refine ⟨k :: q, j, ts', us', rfl, ?_, ?_, hj, hj'⟩
      · rw [at?_map_cons, ht]
        exact ht'
      · rw [at?_map_cons, hu]
        exact hu'

/-- The paths reported for two documents. -/
def Reports (t u : Yaml κ σ) (ps : List (List κ)) : Prop :=
  ps.Nodup ∧ (∀ p, p ∈ ps ↔ Leaves t u p) ∧
    ∀ extra_keys path, findExtraKeys str t u extra_keys path =
      extra_keys ++ ps.map (pathText str path)

/-- The paths reported by the loop over some of the keys. -/
theorem extraItems_eq (ts : List (κ × Yaml κ σ)) {us : List (κ × Yaml κ σ)}
    (distinct : (keys us).Nodup) (ih : ∀ e ∈ us, ∀ t, ∃ ps, Reports str t e.2 ps) :
    ∃ ps : List (List κ), ps.Nodup ∧
      (∀ p, p ∈ ps ↔ ∃ k r u, p = k :: r ∧ get? us k = some u ∧ LeavesBelow (get? ts k) u r) ∧
      ∀ extra_keys path, extraItems str ts us extra_keys path =
        extra_keys ++ ps.map (pathText str path) := by
  induction us with
  | nil =>
    refine ⟨[], List.nodup_nil, ?_, fun extra_keys path => (List.append_nil _).symm⟩
    intro p
    simp
  | cons e us ihus =>
    obtain ⟨key, value⟩ := e
    rw [keys, List.map_cons, List.nodup_cons] at distinct
    obtain ⟨rest, hn, hrest, htext⟩ := ihus distinct.2 fun e he => ih e (List.mem_cons_of_mem _ he)
    -- the paths through the first key
    have hfirst : ∃ ps : List (List κ), ps.Nodup ∧ (∀ p, p ∈ ps ↔ LeavesBelow (get? ts key) value p) ∧
        ∀ extra_keys path, extraItems str ts ((key, value) :: us) extra_keys path =
          extraItems str ts us (extra_keys ++ (ps.map (key :: ·)).map (pathText str path)) path := by
      cases ht : get? ts key with
      | none =>
        refine ⟨[[]], List.nodup_singleton _, fun p => List.mem_singleton, ?_⟩
        intro extra_keys path
        rw [extraItems, ht]
        rfl
      | some t =>
        obtain ⟨ps, hn, hps, htext⟩ := ih (key, value) List.mem_cons_self t
        refine ⟨ps, hn, hps, ?_⟩
        intro extra_keys path
        rw [extraItems, ht]
        simp only [htext, List.map_map]
        rfl
    obtain ⟨ps, hnps, hps, htextps⟩ := hfirst
    refine ⟨ps.map (key :: ·) ++ rest, ?_, ?_, ?_⟩
    · refine (hnps.map (List.cons_injective)).append hn ?_
      -- a path of the rest begins with another key
      intro p hp hp'
      obtain ⟨r, -, rfl⟩ := List.mem_map.1 hp
      obtain ⟨k, r', u, hkr, hu, -⟩ := (hrest _).1 hp'
      cases hkr
      exact distinct.1 (List.mem_map.2 ⟨(key, u), mem_of_get? hu, rfl⟩)
    · intro p
      rw [List.mem_append, List.mem_map, hrest]
      constructor
      · rintro (⟨r, hr, rfl⟩ | ⟨k, r, u, rfl, hu, h⟩)
        · exact ⟨key, r, value, rfl, by rw [get?_cons, if_pos rfl], (hps r).1 hr⟩
        · refine ⟨k, r, u, rfl, ?_, h⟩
          rw [get?_cons, if_neg, hu]
          rintro rfl
          exact distinct.1 (List.mem_map.2 ⟨(key, u), mem_of_get? hu, rfl⟩)
      · rintro ⟨k, r, u, rfl, hu, h⟩
        rw [get?_cons] at hu
        split_ifs at hu with hk
        · dsimp only at hk
          subst hk
          cases hu
          exact .inl ⟨r, (hps r).2 h, rfl⟩
        · exact .inr ⟨k, r, u, rfl, hu, h⟩
    · intro extra_keys path
      rw [htextps, htext, List.append_assoc, List.map_append]

theorem reports_nil {t u : Yaml κ σ} (h : ∀ us ts, u = .map us → t ≠ .map ts)
    (heq : ∀ extra_keys path, findExtraKeys str t u extra_keys path = extra_keys) :
    Reports str t u [] := by
  refine ⟨List.nodup_nil, ?_, ?_⟩
  · intro p
    refine ⟨fun hp => absurd hp List.not_mem_nil, fun hp => ?_⟩
    obtain ⟨⟨ts, ht⟩, us, hus⟩ := hp.maps
    exact absurd ht (h us ts hus)
  · intro extra_keys path
    rw [heq, List.map_nil, List.append_nil]

/-- **The reported keys** are the paths that leave the template, each once. -/
theorem findExtraKeys_eq (t : Yaml κ σ) {u : Yaml κ σ} (hu : u.WellFormed) :
    ∃ ps, Reports str t u ps := by
  induction hu generalizing t with
  | null => exact ⟨[], reports_nil str (fun _ _ h => by cases h) fun _ _ => by cases t <;> rfl⟩
  | scalar => exact ⟨[], reports_nil str (fun _ _ h => by cases h) fun _ _ => by cases t <;> rfl⟩
  | seq => exact ⟨[], reports_nil str (fun _ _ h => by cases h) fun _ _ => by cases t <;> rfl⟩
  | @map us distinct _ ih =>
    cases t with
    | null => exact ⟨[], reports_nil str (fun _ _ _ h => by cases h) fun _ _ => rfl⟩
    | scalar => exact ⟨[], reports_nil str (fun _ _ _ h => by cases h) fun _ _ => rfl⟩
    | seq => exact ⟨[], reports_nil str (fun _ _ _ h => by cases h) fun _ _ => rfl⟩
    | map ts =>
      obtain ⟨ps, hn, hps, htext⟩ := extraItems_eq str ts distinct ih
      refine ⟨ps, hn, ?_, htext⟩
      intro p
      rw [hps]
      cases p with
      | nil =>
        refine ⟨?_, fun h => absurd h not_leaves_root⟩
        rintro ⟨k, r, u, hp, -⟩
        cases hp
      | cons k p =>
        rw [leaves_map_cons]
        constructor
        · rintro ⟨k', r, u, hp, hu, h⟩
          cases hp
          exact ⟨u, hu, h⟩
        · rintro ⟨u, hu, h⟩
          exact ⟨k, p, u, rfl, hu, h⟩

/-- Merging neither adds nor removes a path that leaves the template. -/
theorem leaves_merged {t : Yaml κ σ} (ht : t.WellFormed) (u : Yaml κ σ) (p : List κ) :
    Leaves t (merged str t u) p ↔ Leaves t u p := by
  constructor
  · rintro ⟨q, k, ts, ms, rfl, htq, hmq, hk, hk'⟩
    cases hu : u.at? q with
    | none =>
      -- what comes from the template has no other keys
      by_cases ho : u.Open q
      · rw [at?_merged_of_absent str ht hu ho, htq] at hmq
        cases hmq
        exact absurd hk hk'
      · rw [at?_merged_of_blocked str ht ho] at hmq
        cases hmq
    | some v =>
      rw [at?_merged_of_user str ht hu, htq] at hmq
      have hmv : merged str (.map ts) v = .map ms := Option.some.inj hmq
      cases v with
      | null =>
        rw [merged_null] at hmv
        cases hmv
        exact absurd hk hk'
      | scalar => cases hmv
      | seq => cases hmv
      | map us =>
        refine ⟨q, k, ts, us, rfl, htq, hu, ?_, hk'⟩
        rw [merged_map] at hmv
        cases hmv
        by_contra hus
        rw [← get?_eq_none_iff] at hus hk'
        have hwf := ht.at? htq
        cases hwf with
        | map distinct _ =>
          refine get?_eq_none_iff.1 ?_ hk
          rw [get?_mergedItems str distinct, hk', hus]
          rfl
  · rintro ⟨q, k, ts, us, rfl, htq, huq, hk, hk'⟩
    have hm := at?_merged_of_user str ht huq
    rw [htq] at hm
    refine ⟨q, k, ts, mergedItems str ts us, rfl, htq, hm, ?_, hk'⟩
    have hwf := ht.at? htq
    cases hwf with
    | map distinct _ =>
      by_contra hms
      rw [← get?_eq_none_iff, get?_mergedItems str distinct, get?_eq_none_iff.2 hk'] at hms
      exact get?_eq_none_iff.1 hms hk

end extra

end ServerlessYarn
