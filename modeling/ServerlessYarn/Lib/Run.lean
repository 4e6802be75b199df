/-
  Labelled runs of a transition relation.

  `Run step s es s'`: from `s`, the events `es` lead to `s'`, one step each.

  * `Run.inv`, `Run.inv_hist`: what every step preserves holds at the end of
    every run (the second rule also sees the events so far);
  * `Run.of_snoc`, `Run.of_append`, `Run.of_append_cons`: a run passes through a
    state after every prefix of its events;
  * `Run.isChain`: successive events are related as successive steps are;
  * `Run.map`: a simulation carries runs over;
  * `Run.mono`: a run of a relation is a run of every weaker one.
-/
import Mathlib.Data.List.Chain
import Mathlib.Data.List.Induction

/-- From `s`, the events `es` lead to `s'`. -/
inductive Run {σ ε : Type*} (step : σ → ε → σ → Prop) (s : σ) : List ε → σ → Prop
  | nil : Run step s [] s
  | snoc {es e s' s''} : Run step s es s' → step s' e s'' → Run step s (es ++ [e]) s''

namespace Run

variable {σ σ' ε : Type*} {step : σ → ε → σ → Prop} {s s' s'' : σ} {es es' : List ε} {e : ε}

theorem single (h : step s e s') : Run step s [e] s' := snoc nil h

theorem append (h : Run step s es s') (h' : Run step s' es' s'') : Run step s (es ++ es') s'' := by
  induction h' with
  | nil => rwa [List.append_nil]
  | snoc _ hs ih => rw [← List.append_assoc]; exact snoc ih hs

theorem cons (h : step s e s') (h' : Run step s' es s'') : Run step s (e :: es) s'' :=
  append (single h) h'

/-- A run without events stays where it is. -/
theorem of_nil (h : Run step s [] s') : s' = s := by
  generalize hes : ([] : List ε) = es at h
  cases h with
  | nil => rfl
  | snoc => simp at hes

/-- The last event of a run is a step. -/
theorem of_snoc (h : Run step s (es ++ [e]) s'') : ∃ s', Run step s es s' ∧ step s' e s'' := by
  generalize hes : es ++ [e] = es' at h
  cases h with
  | nil => simp at hes
  | snoc hr hst =>
    obtain ⟨rfl, he⟩ := List.append_inj' hes rfl
    cases he
    exact ⟨_, hr, hst⟩

/-- A run passes through a state after every prefix of its events. -/
theorem of_append (h : Run step s (es ++ es') s'') : ∃ s', Run step s es s' ∧ Run step s' es' s'' := by
  induction es' using List.reverseRecOn generalizing s'' with
  | nil =>
    rw [List.append_nil] at h
    exact ⟨s'', h, nil⟩
  | append_singleton es' e ih =>
    rw [← List.append_assoc] at h
    obtain ⟨s₁, hr, hst⟩ := h.of_snoc
    obtain ⟨s', h₁, h₂⟩ := ih hr
    exact ⟨s', h₁, snoc h₂ hst⟩

/-- If the events determine the steps, they determine the run. -/
theorem deterministic (hdet : ∀ s e s' s'', step s e s' → step s e s'' → s' = s'')
    (h : Run step s es s') (h' : Run step s es s'') : s' = s'' := by
  induction h generalizing s'' with
  | nil =>
    generalize hes : ([] : List ε) = es at h'
    cases h' with
    | nil => rfl
    | snoc => simp at hes
  | snoc _ hst ih =>
    obtain ⟨s₁, hr, hst'⟩ := h'.of_snoc
    obtain rfl := ih hr
    exact hdet _ _ _ _ hst hst'

/-- If the events determine the steps, a run goes on from where every other run of its first
    events ends. -/
theorem of_append_cons (hdet : ∀ s e s' s'', step s e s' → step s e s'' → s' = s'')
    (h : Run step s (es ++ e :: es') s'') (h' : Run step s es s') :
    ∃ s₁, step s' e s₁ ∧ Run step s₁ es' s'' := by
  rw [← List.singleton_append, ← List.append_assoc] at h
  obtain ⟨s₁, hr, hrest⟩ := h.of_append
  obtain ⟨s₂, hr, hst⟩ := hr.of_snoc
  obtain rfl := h'.deterministic hdet hr
  exact ⟨s₁, hst, hrest⟩

/-- What every step preserves holds at the end of every run. -/
theorem inv {I : σ → Prop} (hs : ∀ s e s', I s → step s e s' → I s') (h : Run step s es s')
    (h0 : I s) : I s' := by
  induction h with
  | nil => exact h0
  | snoc _ hst ih => exact hs _ _ _ ih hst

/-- The invariant rule for a property of the events so far and the state. -/
theorem inv_hist {I : List ε → σ → Prop} (h0 : I [] s)
    (hs : ∀ es s₁ e s₂, Run step s es s₁ → I es s₁ → step s₁ e s₂ → I (es ++ [e]) s₂)
    (h : Run step s es s') : I es s' := by
  induction h with
  | nil => exact h0
  | snoc hr hst ih => exact hs _ _ _ _ hr ih hst

/-- What holds of any two successive steps holds of any two successive events of a run. -/
theorem isChain {R : ε → ε → Prop} (hs : ∀ s₁ e s₂ e' s₃, step s₁ e s₂ → step s₂ e' s₃ → R e e')
    (h : Run step s es s') : es.IsChain R := by
  induction h with
  | nil => exact List.isChain_nil
  | @snoc es e' s₂ s₃ hr hst ih =>
    refine List.isChain_append.2 ⟨ih, List.isChain_singleton e', fun e he e'' he'' => ?_⟩
    obtain rfl : e' = e'' := Option.some.inj he''
    obtain ⟨init, rfl⟩ := List.getLast?_eq_some_iff.1 he
    obtain ⟨s₁, -, hst'⟩ := hr.of_snoc
    exact hs _ _ _ _ _ hst' hst

theorem mono {step' : σ → ε → σ → Prop} (hs : ∀ s e s', step s e s' → step' s e s')
    (h : Run step s es s') : Run step' s es s' := by
  induction h with
  | nil => exact nil
  | snoc _ hst ih => exact snoc ih (hs _ _ _ hst)

/-- A simulation that holds on the states satisfying an invariant carries runs
    over. -/
theorem map {I : σ → Prop} {step' : σ' → ε → σ' → Prop} (α : σ → σ')
    (hI : ∀ s e s', I s → step s e s' → I s')
    (hs : ∀ s e s', I s → step s e s' → step' (α s) e (α s')) (h0 : I s)
    (h : Run step s es s') : Run step' (α s) es (α s') := by
  induction h with
  | nil => exact nil
  | snoc hr hst ih => exact snoc ih (hs _ _ _ (hr.inv hI h0) hst)

end Run
