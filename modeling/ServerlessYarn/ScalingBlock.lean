/-
  ServerlessYARN model — leaving a block with disabled scaling services
  (`ui/background_tasks.py`: `scaling_services_disabled`).

  The services are switched off before the `try`, so a script that fails there
  raises without switching the others on again.

  * `scaling_reenabled_iff`: after the block every service is active again if and
    only if no deactivation script failed, or all of them did and left their
    services active.
-/
import ServerlessYarn.Tasks

namespace ServerlessYarn

open Fallible Tasks

variable {ext : External} {power_budgeting : Bool} {w : World}

/-- Once all deactivation scripts have succeeded, the services are on again at
    the end, whatever the body does. -/
theorem scalingServicesDisabled_active {α : Type} (body : Task α)
    (hoff : ∀ service ∈ scalingServices power_budgeting,
      ext.script w.history service false = .succeeded)
    (hon : ∀ h, ∀ service ∈ scalingServices power_budgeting, ext.script h service true = .succeeded) :
    ∀ service ∈ scalingServices power_budgeting,
      (after (scalingServicesDisabled ext power_budgeting body) w).active service = true := by
  -- switching on leaves every service active and does not raise
  have hswitch : ∀ w₁, wp (Tasks.manageScalingServices ext power_budgeting true)
      (fun _ w' => ∀ service ∈ scalingServices power_budgeting, w'.active service = true)
      (fun _ _ => False) w₁ := by
    intro w₁
    refine wp.mono (manageScalingServices_does power_budgeting true) ?_ ?_
    · rintro _ w' ⟨es, -, -, rfl, hall⟩ service hservice
      simp only [afterScripts, if_pos hservice, hall service hservice]
    · rintro _ w' ⟨es, -, -, -, service, hservice, hfailed⟩
      exact hfailed (hon _ service hservice)
  refine (wp_after fun w' : World => ∀ service ∈ scalingServices power_budgeting,
    w'.active service = true).1 ?_
  refine wp_seq (manageScalingServices_does power_budgeting false) (fun _ w₁ _ => ?_) ?_
  · exact wp_tryFinally.2 (((wp_after fun _ => True).2 trivial : wp body (fun _ _ => True) (fun _ _ => True) w₁).mono
      (fun _ w₂ _ => (hswitch w₂).mono (fun _ _ h => h) fun _ _ h => h.elim)
      fun _ w₂ _ => (hswitch w₂).mono (fun _ _ h => h) fun _ _ h => h.elim)
  · rintro _ w' ⟨es, -, -, -, service, hservice, hfailed⟩
    exact absurd (hoff service hservice) hfailed

/-- If a deactivation script fails, the body is not entered and nothing is
    switched on. -/
theorem scalingServicesDisabled_failed {α : Type} (body : Task α)
    (hfailed : ∃ service ∈ scalingServices power_budgeting,
      ext.script w.history service false ≠ .succeeded) :
    (after (scalingServicesDisabled ext power_budgeting body) w).active =
      afterScripts ext (scalingServices power_budgeting) false w := by
  refine (wp_after fun w' : World => w'.active = _).1 ?_
  refine wp_seq (manageScalingServices_does power_budgeting false) ?_ ?_
  · rintro _ w' ⟨es, -, -, -, hall⟩
    obtain ⟨service, hservice, hfailed⟩ := hfailed
    exact absurd (hall service hservice) hfailed
  · rintro _ w' ⟨es, -, -, rfl, -⟩
    rfl

/-- **When a block re-enables the scaling services.** -/
theorem scaling_reenabled_iff {α : Type} (ext : External) (body : Task α) (w : World)
    (hon : ∀ h, ∀ service ∈ scalingServices power_budgeting, ext.script h service true = .succeeded) :
    (∀ service ∈ scalingServices power_budgeting,
      (after (scalingServicesDisabled ext power_budgeting body) w).active service = true) ↔
    (∀ service ∈ scalingServices power_budgeting,
        ext.script w.history service false = .succeeded) ∨
      ∀ service ∈ scalingServices power_budgeting, ∃ err,
        ext.script w.history service false = .failed err true := by
  by_cases hoff : ∀ service ∈ scalingServices power_budgeting,
      ext.script w.history service false = .succeeded
  · exact iff_of_true (scalingServicesDisabled_active body hoff hon) (.inl hoff)
  · have hfailed : ∃ service ∈ scalingServices power_budgeting,
        ext.script w.history service false ≠ .succeeded := by
      simpa using hoff
    rw [scalingServicesDisabled_failed body hfailed, or_iff_right hoff]
    refine forall_congr' fun service => forall_congr' fun hservice => ?_
    rw [afterScripts, if_pos hservice]
    rcases ext.script w.history service false with _ | ⟨err, active⟩
    · simp
    · simp

/-- All scripts succeed, and the body raises. -/
theorem scaling_reenabled_iff_raised : (scalingServices true).all
    (after (scalingServicesDisabled .healthy true (throw .valueError : Task Unit))
      (.initial .empty)).active := by
  refine List.all_eq_true.2 fun service hservice => ?_
  exact (scaling_reenabled_iff .healthy (throw .valueError : Task Unit) (.initial .empty)
    fun _ _ _ => rfl).2 (.inl fun _ _ => rfl) service hservice

/-- The deactivation script of the Guardian reports a failure: the Scaler stays off. -/
theorem scaling_not_reenabled : ¬ ∀ (ext : External) (power_budgeting : Bool) (body : Task Unit)
    (w : World), (∀ service ∈ scalingServices power_budgeting, w.active service = true) →
      (∀ h, ∀ service ∈ scalingServices power_budgeting, ext.script h service true = .succeeded) →
        ∀ service ∈ scalingServices power_budgeting,
          (after (scalingServicesDisabled ext power_budgeting body) w).active service = true := by
  intro hall
  let ext : External :=
    { External.healthy with
      script := fun _ service enable =>
        if service = .guardian ∧ enable = false then .failed "" true else .succeeded }
  have hon : ∀ (h : List Event), ∀ service ∈ scalingServices true,
      ext.script h service true = .succeeded := by
    intro h service _
    simp [ext]
  have hactive := hall ext true (pure ()) (.initial .empty) (fun _ _ => rfl) hon .scaler (by decide)
  have hoff : (after (scalingServicesDisabled ext true (pure ())) (.initial .empty)).active .scaler =
      false := rfl
  rw [hoff] at hactive
  exact Bool.false_ne_true hactive

end ServerlessYarn
