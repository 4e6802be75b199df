/-
  ServerlessYARN model — switching the scaling services off and on
  (`ui/background_tasks.py`: `manage_scaling_services` and
  `scaling_services_disabled`).

  A task that deploys or removes containers runs in a block that switches the
  scaling services off when it is entered and on when it is left.  The switch is
  global: leaving a block switches the services on whoever else is in a block.

  * `scaling_disabled_iff`: the services stay off while any block is open if and
    only if every block is left last, with no other one open.
-/
import Mathlib.Logic.Function.Basic
import ServerlessYarn.Lib.Run

namespace ServerlessYarn

/-- The services of the orchestrator that are switched. -/
inductive ScalingService where
  | scaler | guardian | rebalancer | energyController
deriving DecidableEq

def ScalingService.name : ScalingService → String
  | scaler => "Scaler"
  | guardian => "Guardian"
  | rebalancer => "Rebalancer"
  | energyController => "EnergyController"

/-- `services` of `manage_scaling_services`. -/
def scalingServices (power_budgeting : Bool) : List ScalingService :=
  [.scaler, .guardian, .rebalancer] ++ if power_budgeting then [.energyController] else []

/-- `manage_scaling_services(enable)`, with all scripts succeeding. -/
def manageScalingServices (power_budgeting enable : Bool) (active : ScalingService → Bool) :
    ScalingService → Bool :=
  fun service => if service ∈ scalingServices power_budgeting then enable else active service

/-- The services, and in how many blocks each task is. -/
structure ScalingState (ι : Type) where
  active : ScalingService → Bool
  blocks : ι → ℕ

inductive ScalingEvent (ι : Type) where
  | enter (i : ι)
  | leave (i : ι)

variable {ι : Type} [DecidableEq ι]

/-- A task enters or leaves `with scaling_services_disabled()`. -/
inductive ScalingStep (power_budgeting : Bool) (s : ScalingState ι) :
    ScalingEvent ι → ScalingState ι → Prop
  | enter {i} :
      ScalingStep power_budgeting s (.enter i)
        { active := manageScalingServices power_budgeting false s.active
          blocks := Function.update s.blocks i (s.blocks i + 1) }
  | leave {i} (hi : 0 < s.blocks i) :
      ScalingStep power_budgeting s (.leave i)
        { active := manageScalingServices power_budgeting true s.active
          blocks := Function.update s.blocks i (s.blocks i - 1) }

/-- No task is in a block. -/
def ScalingState.initial (active : ScalingService → Bool) : ScalingState ι := ⟨active, fun _ => 0⟩

/-- While a task is in a block, the scaling services are inactive. -/
def ScalingDisabled (power_budgeting : Bool) (s : ScalingState ι) : Prop :=
  (∃ i, 0 < s.blocks i) → ∀ service ∈ scalingServices power_budgeting, s.active service = false

/-- A block is only left when no other one is open. -/
def LeavesLast (s : ScalingState ι) : ScalingEvent ι → Prop
  | .leave i => s.blocks i = 1 ∧ ∀ j, j ≠ i → s.blocks j = 0
  | _ => True

variable {power_budgeting : Bool} {active : ScalingService → Bool} {s s' s'' : ScalingState ι}
  {e : ScalingEvent ι} {es : List (ScalingEvent ι)}

theorem manageScalingServices_mem {enable : Bool} {service : ScalingService}
    (h : service ∈ scalingServices power_budgeting) :
    manageScalingServices power_budgeting enable active service = enable :=
  if_pos h

theorem ScalingStep.deterministic (h : ScalingStep power_budgeting s e s')
    (h' : ScalingStep power_budgeting s e s'') : s' = s'' := by
  cases h <;> cases h' <;> rfl

omit [DecidableEq ι] in
theorem ScalingDisabled.initial : ScalingDisabled power_budgeting (ScalingState.initial (ι := ι) active) := by
  rintro ⟨i, hi⟩
  exact absurd hi (Nat.lt_irrefl 0)

/-- Entering a block switches the services off; leaving the last one leaves no
    task in a block. -/
theorem ScalingStep.disabled (h : ScalingStep power_budgeting s e s') (hlast : LeavesLast s e) :
    ScalingDisabled power_budgeting s' := by
  cases h with
  | enter =>
    intro _ service hservice
    exact manageScalingServices_mem hservice
  | @leave i hi =>
    obtain ⟨hone, hother⟩ := hlast
    rintro ⟨j, hj⟩
    exfalso
    by_cases hji : j = i
    · subst hji
      simp [hone] at hj
    · simp [Function.update_of_ne hji, hother j hji] at hj

/-- Leaving a block while another one is open switches the services on. -/
theorem ScalingStep.leavesLast (h : ScalingStep power_budgeting s e s')
    (hdis : ScalingDisabled power_budgeting s') : LeavesLast s e := by
  cases h with
  | enter => trivial
  | @leave i hi =>
    have hscaler : ScalingService.scaler ∈ scalingServices power_budgeting := by simp [scalingServices]
    -- the scaler is on now, so no task is in a block
    have hnone : ∀ j, Function.update s.blocks i (s.blocks i - 1) j = 0 := by
      intro j
      by_contra hj
      have hoff := hdis ⟨j, Nat.pos_of_ne_zero hj⟩ _ hscaler
      have hon : manageScalingServices power_budgeting true s.active .scaler = true :=
        manageScalingServices_mem hscaler
      exact Bool.false_ne_true (hoff.symm.trans hon)
    refine ⟨?_, fun j hji => ?_⟩
    · have := hnone i
      rw [Function.update_self] at this
      omega
    · have := hnone j
      rwa [Function.update_of_ne hji] at this

/-- **When the scaling services stay disabled.** -/
theorem scaling_disabled_iff
    (h : Run (ScalingStep power_budgeting) (ScalingState.initial active) es s) :
    (∀ es₁ es₂ s₁, es = es₁ ++ es₂ →
      Run (ScalingStep power_budgeting) (ScalingState.initial active) es₁ s₁ →
      ScalingDisabled power_budgeting s₁) ↔
    Run (fun s e s' => ScalingStep power_budgeting s e s' ∧ LeavesLast s e)
      (ScalingState.initial active) es s := by
  constructor
  · intro hdis
    induction h with
    | nil => exact .nil
    | @snoc es e s s' hr hst ih =>
      refine .snoc (ih fun es₁ es₂ s₁ hes h₁ => ?_) ⟨hst, ?_⟩
      · exact hdis es₁ (es₂ ++ [e]) s₁ (by rw [hes, List.append_assoc]) h₁
      · exact hst.leavesLast (hdis _ [] s' (List.append_nil _).symm (hr.snoc hst))
  · rintro hrun es₁ es₂ s₁ rfl h₁
    obtain ⟨s₂, h₂, -⟩ := hrun.of_append
    have h₂' : Run (ScalingStep power_budgeting) (ScalingState.initial active) es₁ s₂ :=
      h₂.mono fun _ _ _ hst => hst.1
    obtain rfl : s₁ = s₂ :=
      h₁.deterministic (fun _ _ _ _ hs hs' => hs.deterministic hs') h₂'
    cases h₂ with
    | nil => exact ScalingDisabled.initial
    | snoc _ hst => exact hst.1.disabled hst.2

/-- A task that deploys containers after another one has left its block. -/
theorem scaling_disabled_iff_apart : ∃ s : ScalingState Bool,
    Run (ScalingStep true) (.initial fun _ => true) [.enter true, .leave true, .enter false] s ∧
    ∀ es₁ es₂ s₁, [ScalingEvent.enter true, .leave true, .enter false] = es₁ ++ es₂ →
      Run (ScalingStep true) (.initial fun _ => true) es₁ s₁ → ScalingDisabled true s₁ := by
  let step := fun (s : ScalingState Bool) e s' => ScalingStep true s e s' ∧ LeavesLast s e
  have h₀ : Run step (.initial fun _ => true) [] (.initial fun _ => true) := .nil
  have h₁ := h₀.snoc ⟨ScalingStep.enter (i := true), trivial⟩
  have h₂ := h₁.snoc ⟨ScalingStep.leave (i := true) Nat.one_pos, rfl, by
    intro j hj
    obtain rfl : j = false := by simpa using hj
    rfl⟩
  have h₃ := h₂.snoc ⟨ScalingStep.enter (i := false), trivial⟩
  have hrun := h₃.mono fun _ _ _ hst => hst.1
  exact ⟨_, hrun, (scaling_disabled_iff hrun).2 h₃⟩

/-- The first of two tasks in a block switches the services on when it leaves. -/
theorem scaling_not_disabled : ¬ ∀ (ι : Type) [DecidableEq ι] (power_budgeting : Bool)
    (active : ScalingService → Bool) (es : List (ScalingEvent ι)) (s : ScalingState ι),
    Run (ScalingStep power_budgeting) (ScalingState.initial active) es s →
      ScalingDisabled power_budgeting s := by
  intro hall
  let initial : ScalingState Bool := .initial fun _ => true
  have h₀ : Run (ScalingStep true) initial [] initial := .nil
  have h₁ := h₀.snoc (ScalingStep.enter (i := true))
  have h₂ := h₁.snoc (ScalingStep.enter (i := false))
  have h₃ := h₂.snoc (ScalingStep.leave (i := true) Nat.one_pos)
  have hoff := hall Bool true _ _ _ h₃ ⟨false, Nat.one_pos⟩ .scaler (by decide)
  exact absurd hoff (by decide)

end ServerlessYarn
