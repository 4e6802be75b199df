/-
  ServerlessYARN model — what a synchronised configuration contains.

  * `Synced`, `syncFile_eq_ok`: what a run of `sync_file` reports and writes;
  * `config_sync_keeps_and_completes`: the values of the user are kept, the paths of
    the template are there unless a value of the user stands in the way, nothing else
    is there, and the keys reported as unknown are those of the user.
-/
import ServerlessYarn.ConfigSync

namespace ServerlessYarn

open Yaml

variable {κ σ : Type} [DecidableEq κ] (str : κ → String)

/-- What a run of `sync_file` returns and writes, from what it has read. -/
structure Synced (yaml : Ruamel κ σ) (now : String) (files : ConfigFiles)
    (backup report_extra : Bool) (template_data user_data : YamlDocument κ σ) (r : SyncResult) :
    Prop where
  added : r.added_keys = (deepMergeDefaults str template_data.1 user_data.1 .empty "").2.added_keys
  extra : r.extra_keys = if report_extra then
    findExtraKeys str template_data.1 (merged str template_data.1 user_data.1) [] "" else []
  quiet : r.added_keys = [] → r.writes = []
  written : r.added_keys ≠ [] → ∃ copied : List FileWrite,
    (∀ w ∈ copied, ∃ text, files.config = some text ∧ backup = true ∧ w = .backup text) ∧
    r.writes = copied ++ [.config (savedText yaml now files (merged str template_data.1 user_data.1)
      (deepMergeDefaults str template_data.1 user_data.1 .empty "").2.commented)]

theorem syncFile_eq_ok {yaml : Ruamel κ σ} {now : String} {files : ConfigFiles}
    {backup report_extra : Bool} {r : SyncResult}
    (h : syncFile str yaml now files backup report_extra = .ok r) :
    ∃ template_data user_data, loadYaml yaml files.template = .ok template_data ∧
      loadYaml yaml files.config = .ok user_data ∧
      Synced str yaml now files backup report_extra template_data user_data r := by
  unfold syncFile at h
  cases ht : loadYaml yaml files.template with
  | error e =>
    rw [ht] at h
    cases h
  | ok template_data =>
    cases hu : loadYaml yaml files.config with
    | error e =>
      rw [ht, hu] at h
      cases h
    | ok user_data =>
      rw [ht, hu] at h
      cases h
      refine ⟨template_data, user_data, rfl, rfl, rfl, rfl, fun hkeys => if_pos hkeys, fun hkeys => ?_⟩
      refine ⟨_, ?_, if_neg hkeys⟩
      intro w hw
      cases hc : files.config with
      | none =>
        rw [hc] at hw
        cases hw
      | some text =>
        rw [hc] at hw
        cases backup with
        | false => cases hw
        | true => exact ⟨text, rfl, rfl, List.mem_singleton.1 hw⟩

/-- **What the synchronised configuration contains**, path by path, and the keys that
    are reported as unknown to the template. -/
theorem config_sync_keeps_and_completes (template user : YamlDocument κ σ) :
    let updated := (deepMergeDefaults str template.1 user.1 .empty "").1
    (∀ p v, user.1.at? p = some v → v.IsLeaf → updated.at? p = some v) ∧
    (∀ p w, template.1.at? p = some w → user.1.Open p → ∃ v, updated.at? p = some v) ∧
    (∀ p v, updated.at? p = some v →
      (∃ w, template.1.at? p = some w) ∨ ∃ w, user.1.at? p = some w) ∧
    ∃ ps : List (List κ), ps.Nodup ∧ (∀ p, p ∈ ps ↔ Leaves template.1 user.1 p) ∧
      findExtraKeys str template.1 updated [] "" = ps.map (pathText str "") ∧
      ∀ (yaml : Ruamel κ σ) now files backup r, loadYaml yaml files.template = .ok template →
        loadYaml yaml files.config = .ok user → syncFile str yaml now files backup true = .ok r →
        r.extra_keys = ps.map (pathText str "") := by
  intro updated
  have ht : template.1.WellFormed := template.2
  refine ⟨?_, ?_, ?_, ?_⟩
  · intro p v hv hleaf
    exact at?_merged_leaf str ht hv hleaf
  · intro p w hw ho
    cases hu : user.1.at? p with
    | none => exact ⟨w, (at?_merged_of_absent str ht hu ho).trans hw⟩
    | some v => exact ⟨_, at?_merged_of_user str ht hu⟩
  · intro p v hv
    cases hu : user.1.at? p with
    | some w => exact .inr ⟨w, rfl⟩
    | none =>
      by_cases ho : user.1.Open p
      · exact .inl ⟨v, (at?_merged_of_absent str ht hu ho).symm.trans hv⟩
      · rw [show updated.at? p = none from at?_merged_of_blocked str ht ho] at hv
        cases hv
  · obtain ⟨ps, hn, hps, htext⟩ :=
      findExtraKeys_eq str template.1 (wellFormed_merged str ht user.2)
    have hextra : findExtraKeys str template.1 updated [] "" = ps.map (pathText str "") :=
      (htext [] "").trans (List.nil_append _)
    refine ⟨ps, hn, fun p => (hps p).trans (leaves_merged str ht user.1 p), hextra, ?_⟩
    intro yaml now files backup r htemplate huser hr
    obtain ⟨t, u, hlt, hlu, hsynced⟩ := syncFile_eq_ok str hr
    rw [htemplate] at hlt
    rw [huser] at hlu
    cases hlt
    cases hlu
    exact hsynced.extra.trans hextra

end ServerlessYarn
