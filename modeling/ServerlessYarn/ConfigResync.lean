/-
  ServerlessYARN model — a second synchronisation with the same template.

  A merge adds nothing where the user has a value, other than null, for every path of
  the template (`Settled`).  After a first merge only a null of the template can be in
  the way: it is copied, and taken for a missing value the next time.

  * `merged_of_covered`, `merged_idem`: the second merge changes no value;
  * `addedKeys_length`: it reports as many keys as are not settled;
  * `config_resync_quiet_iff`: it reports none, and writes nothing, exactly when the
    user answers every null of the template.
-/
import ServerlessYarn.ConfigContents

namespace ServerlessYarn

open Yaml

variable {κ σ : Type} [DecidableEq κ] (str : κ → String)

/-! ## What stops a merge -/

/-- For every path of the template that the user does not block, the user has a value
    that answers the one of the template. -/
def Answers (P : Yaml κ σ → Yaml κ σ → Prop) (t u : Yaml κ σ) : Prop :=
  ∀ p w, t.at? p = some w → u.Open p → ∃ v, u.at? p = some v ∧ P v w

/-- The user has a value for every path of the template, and a null only for a null. -/
def Covered (t u : Yaml κ σ) : Prop := Answers (fun v w => v = .null → w = .null) t u

/-- The user has a value other than null for every path of the template. -/
def Settled (t u : Yaml κ σ) : Prop := Answers (fun v _ => v ≠ .null) t u

/-- The user has a value other than null wherever the template has a null. -/
def NullsAnswered (t u : Yaml κ σ) : Prop :=
  ∀ p, t.at? p = some .null → u.Open p → ∃ v, u.at? p = some v ∧ v ≠ .null

theorem Answers.below {P : Yaml κ σ → Yaml κ σ → Prop} {ts us : List (κ × Yaml κ σ)}
    (h : Answers P (.map ts) (.map us)) {k : κ} {t : Yaml κ σ} (ht : get? ts k = some t) :
    ∃ u, get? us k = some u ∧ Answers P t u := by
  have hk : (Yaml.map ts).at? [k] = some t := by rw [at?_map_cons, ht, Option.bind_some, at?_root]
  obtain ⟨v, hv, -⟩ := h [k] t hk (open_map_cons.2 fun v _ => open_root v)
  rw [at?_map_cons, Option.bind_eq_some_iff] at hv
  obtain ⟨u, hu, -⟩ := hv
  refine ⟨u, hu, ?_⟩
  intro p w hw ho
  obtain ⟨v, hv, hP⟩ := h (k :: p) w (by rw [at?_map_cons, ht]; exact hw)
    (open_map_cons.2 fun v hv => by rw [hu] at hv; cases hv; exact ho)
  rw [at?_map_cons, hu] at hv
  exact ⟨v, hv, hP⟩

theorem Answers.root {P : Yaml κ σ → Yaml κ σ → Prop} {t u : Yaml κ σ} (h : Answers P t u) :
    P u t := by
  obtain ⟨v, hv, hP⟩ := h [] t (at?_root t) (open_root u)
  rw [at?_root] at hv
  cases hv
  exact hP

theorem settled_of_isLeaf (t : Yaml κ σ) {u : Yaml κ σ} (h : u.IsLeaf) : Settled t u := by
  intro p w _ ho
  cases p with
  | nil =>
    refine ⟨u, at?_root u, ?_⟩
    rintro rfl
    exact h
  | cons k p => exact absurd ho (not_open_cons h k p)

/-- A template that is no mapping asks for nothing below the root. -/
theorem settled_map_of_not_map {t : Yaml κ σ} (ht : ∀ ts, t ≠ .map ts) (us : List (κ × Yaml κ σ)) :
    Settled t (.map us) := by
  intro p w hw _
  cases p with
  | nil => exact ⟨.map us, rfl, fun h => by cases h⟩
  | cons k p =>
    cases t with
    | map ts => exact absurd rfl (ht ts)
    | null => cases hw
    | scalar => cases hw
    | seq => cases hw

theorem settled_map_iff {ts us : List (κ × Yaml κ σ)} (distinct : (keys ts).Nodup) :
    Settled (.map ts) (.map us) ↔
      ∀ e ∈ ts, ∃ u, get? us e.1 = some u ∧ Settled e.2 u := by
  constructor
  · intro h e he
    exact Answers.below h (get?_of_mem distinct he)
  · intro h p w hw ho
    cases p with
    | nil => exact ⟨.map us, rfl, fun h => by cases h⟩
    | cons k p =>
      rw [at?_map_cons, Option.bind_eq_some_iff] at hw
      obtain ⟨t, ht, hw⟩ := hw
      obtain ⟨u, hu, hsettled⟩ := h (k, t) (mem_of_get? ht)
      obtain ⟨v, hv, hne⟩ := hsettled p w hw (open_map_cons.1 ho u hu)
      refine ⟨v, ?_, hne⟩
      rw [at?_map_cons, hu]
      exact hv

/-! ## The values of the second merge -/

theorem mergedItems_of_forall {ts us : List (κ × Yaml κ σ)}
    (h : ∀ e ∈ ts, ∃ u, get? us e.1 = some u ∧ merged str e.2 u = u) :
    mergedItems str ts us = us := by
  induction ts with
  | nil => rfl
  | cons e ts ih =>
    obtain ⟨u, hu, hm⟩ := h e List.mem_cons_self
    have hval : mergedValue str e.1 e.2 us = u := by
      unfold mergedValue
      rw [hu]
      exact hm
    rw [mergedItems_cons, hval, set_eq_self hu]
    exact ih fun e he => h e (List.mem_cons_of_mem _ he)

/-- Nothing changes where the user has a value for every path of the template. -/
theorem merged_of_covered {t : Yaml κ σ} (ht : t.WellFormed) {u : Yaml κ σ} (h : Covered t u) :
    merged str t u = u := by
  induction ht generalizing u with
  | @map ts distinct hts ih =>
    cases u with
    | null =>
      rw [merged_null]
      exact h.root rfl
    | scalar s => exact merged_of_isLeaf str _ (u := .scalar s) trivial
    | seq items => exact merged_of_isLeaf str _ (u := .seq items) trivial
    | map us =>
      rw [merged_map, mergedItems_of_forall]
      intro e he
      obtain ⟨u, hu, hcovered⟩ := Answers.below h (get?_of_mem distinct he)
      exact ⟨u, hu, ih e he hcovered⟩
  | null => cases u <;> rfl
  | scalar | seq =>
    cases u with
    | null =>
      rw [merged_null]
      exact h.root rfl
    | scalar s => rfl
    | seq items => rfl
    | map us => rfl

/-- A null is left only where the user had one. -/
theorem merged_eq_null {t u : Yaml κ σ} (h : merged str t u = .null) : u = .null := by
  cases u with
  | null => rfl
  | scalar s => rw [merged_of_isLeaf str t (u := .scalar s) trivial] at h; exact h
  | seq items => rw [merged_of_isLeaf str t (u := .seq items) trivial] at h; exact h
  | map us =>
    cases t with
    | map ts => cases h
    | null => cases h
    | scalar => cases h
    | seq => cases h

/-- After a merge the user has a value for every path of the template. -/
theorem covered_merged {t : Yaml κ σ} (ht : t.WellFormed) (u : Yaml κ σ) :
    Covered t (merged str t u) := by
  intro p w hw ho
  have hou : u.Open p := open_of_open_merged str ht ho
  cases hu : u.at? p with
  | none => exact ⟨w, (at?_merged_of_absent str ht hu hou).trans hw, id⟩
  | some v =>
    refine ⟨merged str w v, at?_merged_of_both str ht hu hw, ?_⟩
    intro hnull
    rwa [merged_eq_null str hnull, merged_null] at hnull

/-- A second merge changes no value. -/
theorem merged_idem {t : Yaml κ σ} (ht : t.WellFormed) (u : Yaml κ σ) :
    merged str t (merged str t u) = merged str t u :=
  merged_of_covered str ht (covered_merged str ht u)

/-! ## The keys that are reported -/

/-- A merge reports `n` keys, and does nothing else than merging if that is none. -/
def AddsKeys (t u : Yaml κ σ) (n : ℕ) : Prop :=
  ∀ report path, (deepMergeDefaults str t u report path).2.added_keys.length =
    report.added_keys.length + n ∧ (n = 0 → (deepMergeDefaults str t u report path).2 = report)

theorem addedItems_length {ts : List (κ × Yaml κ σ)} (distinct : (keys ts).Nodup)
    (ih : ∀ e ∈ ts, ∀ u, ∃ n, AddsKeys str e.2 u n ∧ (n = 0 ↔ Settled e.2 u))
    (us : List (κ × Yaml κ σ)) :
    ∃ n, (∀ comment report path, (mergeItems str ts us comment report path).2.added_keys.length =
        report.added_keys.length + n ∧
        (n = 0 → (mergeItems str ts us comment report path).2 = report)) ∧
      (n = 0 ↔ ∀ e ∈ ts, ∃ u, get? us e.1 = some u ∧ Settled e.2 u) := by
  induction ts generalizing us with
  | nil => exact ⟨0, fun _ _ _ => ⟨rfl, fun _ => rfl⟩, by simp⟩
  | cons e ts ihts =>
    obtain ⟨key, t⟩ := e
    rw [keys, List.map_cons, List.nodup_cons] at distinct
    obtain ⟨n, hn, hzero⟩ := ihts distinct.2 (fun e he => ih e (List.mem_cons_of_mem _ he))
      (set key (mergedValue str key t us) us)
    -- the later keys are looked up in what the user had
    have hrest : (∀ e ∈ ts, ∃ u, get? (set key (mergedValue str key t us) us) e.1 = some u ∧
        Settled e.2 u) ↔ ∀ e ∈ ts, ∃ u, get? us e.1 = some u ∧ Settled e.2 u := by
      refine forall₂_congr fun e he => ?_
      rw [get?_set, if_neg]
      intro hek
      exact distinct.1 (List.mem_map.2 ⟨e, he, hek⟩)
    rw [hrest] at hzero
    cases hu : get? us key with
    | none =>
      refine ⟨n + 1, fun comment report path => ⟨?_, fun h => by cases h⟩, ?_⟩
      · have hval : mergedValue str key t us = t := by
          unfold mergedValue
          rw [hu]
        rw [hval] at hn
        rw [mergeItems, hu]
        rw [(hn true _ path).1]
        simp [MergeReport.add]
        omega
      · refine ⟨fun h => absurd h n.succ_ne_zero, fun h => ?_⟩
        obtain ⟨u, hu', -⟩ := h (key, t) List.mem_cons_self
        rw [hu] at hu'
        cases hu'
    | some u =>
      obtain ⟨m, hm, hmzero⟩ := ih (key, t) List.mem_cons_self u
      have hval : mergedValue str key t us = merged str t u := by
        unfold mergedValue
        rw [hu]
      rw [hval] at hn
      have hstep (comment : Bool) (report : MergeReport) (path : String) :
          mergeItems str ((key, t) :: ts) us comment report path =
            mergeItems str ts (set key (merged str t u) us) comment
              (deepMergeDefaults str t u report (currentPath str path key)).2 path := by
        rw [mergeItems, hu]
        simp only [merged]
        rw [deepMergeDefaults_fst str t u report .empty (currentPath str path key) ""]
      refine ⟨m + n, fun comment report path => ⟨?_, fun h => ?_⟩, ?_⟩
      · rw [hstep, (hn _ _ _).1, (hm _ _).1, Nat.add_assoc]
      · rw [hstep, (hn _ _ _).2 (by omega), (hm _ _).2 (by omega)]
      · rw [Nat.add_eq_zero_iff, hmzero, hzero, List.forall_mem_cons, hu]
        simp

theorem AddsKeys.of_eq {t u : Yaml κ σ}
    (h : ∀ report path, deepMergeDefaults str t u report path = (u, report)) : AddsKeys str t u 0 := by
  intro report path
  rw [h]
  exact ⟨rfl, fun _ => rfl⟩

/-- A merge that does not go down into two mappings. -/
theorem addedKeys_of_not_maps {t u : Yaml κ σ} (h : ∀ ts us, t = .map ts → u ≠ .map us) :
    ∃ n, AddsKeys str t u n ∧ (n = 0 ↔ Settled t u) := by
  cases u with
  | null =>
    -- a null is reported, whatever replaces it
    refine ⟨1, ?_, fun h => absurd h Nat.one_ne_zero, fun h => absurd rfl h.root⟩
    intro report path
    cases t <;> exact ⟨List.length_append, fun h => absurd h Nat.one_ne_zero⟩
  | scalar s =>
    refine ⟨0, AddsKeys.of_eq str ?_, fun _ => settled_of_isLeaf t (u := .scalar s) trivial, fun _ => rfl⟩
    intro report path
    cases t <;> rfl
  | seq items =>
    refine ⟨0, AddsKeys.of_eq str ?_, fun _ => settled_of_isLeaf t (u := .seq items) trivial, fun _ => rfl⟩
    intro report path
    cases t <;> rfl
  | map us =>
    have ht : ∀ ts, t ≠ .map ts := fun ts ht => h ts us ht rfl
    refine ⟨0, AddsKeys.of_eq str ?_, fun _ => settled_map_of_not_map ht us, fun _ => rfl⟩
    intro report path
    cases t with
    | map ts => exact absurd rfl (ht ts)
    | null => rfl
    | scalar => rfl
    | seq => rfl

/-- What a merge reports, and when it reports nothing. -/
theorem addedKeys_length {t : Yaml κ σ} (ht : t.WellFormed) (u : Yaml κ σ) :
    ∃ n, AddsKeys str t u n ∧ (n = 0 ↔ Settled t u) := by
  induction ht generalizing u with
  | null => exact addedKeys_of_not_maps str fun _ _ h => by cases h
  | scalar => exact addedKeys_of_not_maps str fun _ _ h => by cases h
  | seq => exact addedKeys_of_not_maps str fun _ _ h => by cases h
  | @map ts distinct _ ih =>
    cases u with
    | null => exact addedKeys_of_not_maps str fun _ _ _ h => by cases h
    | scalar => exact addedKeys_of_not_maps str fun _ _ _ h => by cases h
    | seq => exact addedKeys_of_not_maps str fun _ _ _ h => by cases h
    | map us =>
      obtain ⟨n, hn, hzero⟩ := addedItems_length str distinct ih us
      exact ⟨n, hn false, hzero.trans (settled_map_iff distinct).symm⟩

/-- A merge reports nothing exactly when the user has a value everywhere. -/
theorem report_eq_empty_iff {t : Yaml κ σ} (ht : t.WellFormed) (u : Yaml κ σ) :
    ((deepMergeDefaults str t u .empty "").2 = .empty ↔ Settled t u) ∧
      ((deepMergeDefaults str t u .empty "").2.added_keys = [] ↔ Settled t u) := by
  obtain ⟨n, hn, hzero⟩ := addedKeys_length str ht u
  obtain ⟨hlength, hsame⟩ := hn .empty ""
  have hempty : (MergeReport.empty).added_keys.length = 0 := rfl
  rw [hempty, Nat.zero_add] at hlength
  have hkeys : (deepMergeDefaults str t u .empty "").2.added_keys = [] ↔ Settled t u := by
    rw [← List.length_eq_zero_iff, hlength, hzero]
  refine ⟨⟨fun h => hkeys.1 (by rw [h]; rfl), fun h => hsame (hzero.2 h)⟩, hkeys⟩

/-! ## The second synchronisation -/

/-- A path of the template that the user does not block is not blocked by the merge. -/
theorem open_merged {t u w : Yaml κ σ} (ht : t.WellFormed) {p : List κ} (hp : t.at? p = some w)
    (ho : u.Open p) : (merged str t u).Open p := by
  intro q k r v hpq hv hleaf
  subst hpq
  obtain ⟨ts, hts⟩ := at?_above hp
  cases hu : u.at? q with
  | none =>
    have hoq : u.Open q := by
      intro q' k' r' v' hq' hv'
      exact ho q' k' (r' ++ k :: r) v' (by rw [hq', List.append_assoc, List.cons_append]) hv'
    rw [at?_merged_of_absent str ht hu hoq, hts] at hv
    cases hv
    exact hleaf
  | some x =>
    rw [at?_merged_of_both str ht hu hts] at hv
    cases x with
    | null =>
      rw [merged_null] at hv
      cases hv
      exact hleaf
    | scalar s => exact ho q k r (.scalar s) rfl hu trivial
    | seq items => exact ho q k r (.seq items) rfl hu trivial
    | map us =>
      cases hv
      exact hleaf

/-- After a merge every path is settled if the user has answered the nulls. -/
theorem settled_merged_iff {t : Yaml κ σ} (ht : t.WellFormed) (u : Yaml κ σ) :
    Settled t (merged str t u) ↔ NullsAnswered t u := by
  constructor
  · intro h p hp ho
    obtain ⟨v, hv, hne⟩ := h p .null hp (open_merged str ht hp ho)
    cases hu : u.at? p with
    | none =>
      rw [at?_merged_of_absent str ht hu ho, hp] at hv
      exact absurd (Option.some.inj hv).symm hne
    | some x =>
      rw [at?_merged_of_both str ht hu hp, null_merged] at hv
      exact ⟨x, rfl, by rwa [Option.some.inj hv]⟩
  · intro h p w hw ho
    obtain ⟨v, hv, hnull⟩ := covered_merged str ht u p w hw ho
    refine ⟨v, hv, ?_⟩
    rintro rfl
    cases hnull rfl
    -- a null that is left is one of the template that the user has not answered
    obtain ⟨x, hx, hne⟩ := h p hw (open_of_open_merged str ht ho)
    rw [at?_merged_of_both str ht hx hw, null_merged] at hv
    exact hne (Option.some.inj hv)

/-- The writes leave the template alone. -/
theorem template_after (writes : List FileWrite) (files : ConfigFiles) :
    (writes.foldl FileWrite.apply files).template = files.template := by
  induction writes generalizing files with
  | nil => rfl
  | cons w writes ih =>
    rw [List.foldl_cons, ih]
    cases w <;> rfl

omit [DecidableEq κ] in
theorem orEmptyMap_of_ne_null {d : YamlDocument κ σ} (h : d.1 ≠ .null) : orEmptyMap d = d := by
  obtain ⟨t, ht⟩ := d
  cases t with
  | null => exact absurd rfl h
  | scalar => rfl
  | seq => rfl
  | map => rfl

omit [DecidableEq κ] in
theorem ne_null_of_loadYaml {yaml : Ruamel κ σ} {file : Option String} {d : YamlDocument κ σ}
    (h : loadYaml yaml file = .ok d) : d.1 ≠ .null := by
  cases file with
  | none =>
    cases h
    exact fun h => by cases h
  | some text =>
    change (yaml.load text).map orEmptyMap = .ok d at h
    cases hl : yaml.load text with
    | error e =>
      rw [hl] at h
      cases h
    | ok d' =>
      rw [hl] at h
      cases h
      intro hnull
      by_cases hd : d'.1 = .null
      · unfold orEmptyMap at hnull
        simp only [hd] at hnull
        cases hnull
      · rw [orEmptyMap_of_ne_null hd] at hnull
        exact hd hnull

/-- The second run reads the template again, and the merged document. -/
theorem loadYaml_after {yaml : Ruamel κ σ} {now : String} {files : ConfigFiles}
    {backup report_extra : Bool} {template user : YamlDocument κ σ} {r : SyncResult}
    (hu : loadYaml yaml files.config = .ok user) (hnull : user.1 ≠ .null)
    (h : Synced str yaml now files backup report_extra template user r)
    (hread : ∀ text, .config text ∈ r.writes →
      ∃ d, yaml.load text = .ok d ∧ d.1 = merged str template.1 user.1) :
    ∃ d, loadYaml yaml (r.after files).config = .ok d ∧ d.1 = merged str template.1 user.1 := by
  by_cases hkeys : r.added_keys = []
  · unfold SyncResult.after
    rw [h.quiet hkeys]
    refine ⟨user, hu, ?_⟩
    have hsettled : Settled template.1 user.1 :=
      ((report_eq_empty_iff str template.2 user.1).2).1 (h.added.symm.trans hkeys)
    refine (merged_of_covered str template.2 ?_).symm
    intro p w hw ho
    obtain ⟨v, hv, hne⟩ := hsettled p w hw ho
    exact ⟨v, hv, fun h => absurd h hne⟩
  · obtain ⟨copied, -, hwrites⟩ := h.written hkeys
    obtain ⟨d, hd, hm⟩ := hread _ (by rw [hwrites]; exact List.mem_append_right _ List.mem_cons_self)
    refine ⟨d, ?_, hm⟩
    unfold SyncResult.after
    rw [hwrites, List.foldl_append]
    change (yaml.load _).map orEmptyMap = .ok d
    rw [hd]
    refine congrArg Except.ok (orEmptyMap_of_ne_null ?_)
    rw [hm]
    exact fun h => hnull (merged_eq_null str h)

/-- **A second synchronisation is quiet exactly when the user has answered the nulls**
    of the template: the merge changes nothing and reports nothing, and `sync_file`,
    if it reads back what it has written, writes neither the file nor the backup. -/
theorem config_resync_quiet_iff (template user : YamlDocument κ σ) :
    let first := deepMergeDefaults str template.1 user.1 .empty ""
    let second := deepMergeDefaults str template.1 first.1 .empty ""
    ((second.1 = first.1 ∧ second.2 = .empty) ↔ NullsAnswered template.1 user.1) ∧
    ∀ (yaml : Ruamel κ σ) now now' files backup backup' report_extra report_extra' r r',
      loadYaml yaml files.template = .ok template → loadYaml yaml files.config = .ok user →
      syncFile str yaml now files backup report_extra = .ok r →
      (∀ text, .config text ∈ r.writes → ∃ d, yaml.load text = .ok d ∧ d.1 = first.1) →
      syncFile str yaml now' (r.after files) backup' report_extra' = .ok r' →
      (r'.writes = [] ↔ NullsAnswered template.1 user.1) := by
  intro first second
  have hfirst : first.1 = merged str template.1 user.1 := rfl
  have hsettled := settled_merged_iff str template.2 user.1
  constructor
  · have hreport := (report_eq_empty_iff str template.2 first.1).1
    rw [hfirst, hsettled] at hreport
    refine ⟨fun h => hreport.1 h.2, fun h => ⟨?_, hreport.2 h⟩⟩
    exact (deepMergeDefaults_fst str template.1 first.1 .empty .empty "" "").trans
      (merged_idem str template.2 user.1)
  · intro yaml now now' files backup backup' report_extra report_extra' r r' ht hu hr hread hr'
    obtain ⟨t, u, ht', hu', hsynced⟩ := syncFile_eq_ok str hr
    cases ht.symm.trans ht'
    cases hu.symm.trans hu'
    obtain ⟨d, hd, hdm⟩ := loadYaml_after str hu (ne_null_of_loadYaml hu) hsynced hread
    obtain ⟨t, u, ht', hu', hsynced'⟩ := syncFile_eq_ok str hr'
    rw [SyncResult.after, template_after] at ht'
    cases ht.symm.trans ht'
    cases hd.symm.trans hu'
    have hkeys : r'.added_keys = [] ↔ NullsAnswered template.1 user.1 := by
      rw [hsynced'.added, hdm, (report_eq_empty_iff str template.2 _).2, hsettled]
    rw [← hkeys]
    refine ⟨fun h => ?_, hsynced'.quiet⟩
    by_contra hne
    obtain ⟨copied, -, hwrites⟩ := hsynced'.written hne
    rw [h] at hwrites
    simp at hwrites

/-- A mapping with one key. -/
def oneSetting (key : String) {v : Yaml String String} (hv : v.WellFormed) :
    YamlDocument String String :=
  ⟨.map [(key, v)], .map (List.nodup_singleton key) fun _ he => by
    rw [List.mem_singleton.1 he]
    exact hv⟩

/-- A null of the template is reported again by every run. -/
theorem config_resync_counterexample :
    ¬ ∀ template user : YamlDocument String String,
      let first := deepMergeDefaults id template.1 user.1 .empty ""
      let second := deepMergeDefaults id template.1 first.1 .empty ""
      second.1 = first.1 ∧ second.2.added_keys = [] := by
  intro h
  have hadded := (h (oneSetting "debug" .null) emptyMap).2
  exact absurd hadded (by decide)

/-- The setting `debug: true`. -/
def debugSetting : YamlDocument String String := oneSetting "debug" (.scalar "true")

/-- The reader and the writer, on the texts that hold this setting. -/
def debugYaml : Ruamel String String where
  load _ := .ok debugSetting
  dump _ _ _ commented :=
    if commented = ["debug"] then
      String.join ["# ", newParamsComment "01-01-2026 10:00:00", "\ndebug: true\n"]
    else "debug: true\n"

theorem nullsAnswered_debugSetting (u : Yaml String String) : NullsAnswered debugSetting.1 u := by
  intro p hp
  cases p with
  | nil => cases hp
  | cons k p =>
    change (get? [("debug", .scalar "true")] k).bind (fun v => v.at? p) = some .null at hp
    rw [get?_cons] at hp
    split_ifs at hp
    · cases p <;> cases hp
    · cases hp

theorem config_resync_quiet_debug :
    ∃ r r', syncFile id debugYaml "01-01-2026 10:00:00" ⟨some "debug: true\n", none, none⟩ true true = .ok r ∧
      r.added_keys = ["debug"] ∧
      syncFile id debugYaml "02-01-2026 10:00:00"
        (r.after ⟨some "debug: true\n", none, none⟩) true true = .ok r' ∧ r'.writes = [] := by
  refine ⟨_, _, rfl, rfl, rfl, ?_⟩
  refine ((config_resync_quiet_iff id debugSetting emptyMap).2 debugYaml "01-01-2026 10:00:00"
    "02-01-2026 10:00:00" ⟨some "debug: true\n", none, none⟩ true true true true _ _ rfl rfl rfl ?_ rfl).2
    (nullsAnswered_debugSetting _)
  intro text _
  exact ⟨debugSetting, rfl, rfl⟩

end ServerlessYarn
