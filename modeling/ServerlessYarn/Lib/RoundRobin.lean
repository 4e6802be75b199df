/-
  Round-robin rounds that drop whoever declines.

  In a round every participant is visited once, in order.  Who takes a step is
  kept for the next round, who declines is dropped for good; a round stops when
  everything is done, and the rounds end then or when nobody is kept.

  With a property `P` that a participant has when it declines and that no step
  takes away from it:

  * `Rounds.complete`: if the rounds end without everything being done, every
    participant has the property;
  * `Rounds.fair`: a participant that takes two steps less than another one has
    the property before the last step of the other.
-/
import Mathlib.Data.List.Nodup
import Mathlib.Data.List.Count
import ServerlessYarn.Lib.Run

namespace RoundRobin

variable {σ α ε : Type*}

/-- A round over the participants `as`: the events `es` lead from `s` to `s'`,
    and `next` are kept. -/
inductive Round (who : ε → α) (takes : σ → ε → σ → Prop) (declines : σ → α → Prop) (done : σ → Prop) :
    List α → σ → List ε → List α → σ → Prop
  | nil (s : σ) : Round who takes declines done [] s [] [] s
  | stop {a as s} : done s → Round who takes declines done (a :: as) s [] [] s
  | drop {a as s es next s'} : ¬ done s → declines s a →
      Round who takes declines done as s es next s' →
      Round who takes declines done (a :: as) s es next s'
  | keep {a as s e s₁ es next s'} : ¬ done s → who e = a → takes s e s₁ →
      Round who takes declines done as s₁ es next s' →
      Round who takes declines done (a :: as) s (e :: es) (a :: next) s'

/-- Rounds until everything is done or nobody is kept. -/
inductive Rounds (who : ε → α) (takes : σ → ε → σ → Prop) (declines : σ → α → Prop) (done : σ → Prop) :
    List α → σ → List ε → σ → Prop
  | finish {as s} : done s ∨ as = [] → Rounds who takes declines done as s [] s
  | round {as s es next s₁ es' s'} : ¬ done s → as ≠ [] →
      Round who takes declines done as s es next s₁ →
      Rounds who takes declines done next s₁ es' s' →
      Rounds who takes declines done as s (es ++ es') s'

variable {who : ε → α} {takes : σ → ε → σ → Prop} {declines : σ → α → Prop} {done : σ → Prop}
  {as next : List α} {s s' : σ} {es : List ε} {a b : α}

namespace Round

theorem run (h : Round who takes declines done as s es next s') : Run takes s es s' := by
  induction h with
  | nil => exact .nil
  | stop => exact .nil
  | drop _ _ _ ih => exact ih
  | keep _ _ hst _ ih => exact ih.cons hst

/-- The participants kept are those that took a step, each one. -/
theorem map_who (h : Round who takes declines done as s es next s') : es.map who = next := by
  induction h with
  | nil => rfl
  | stop => rfl
  | drop _ _ _ ih => exact ih
  | keep _ hwho _ _ ih => rw [List.map_cons, hwho, ih]

theorem sublist (h : Round who takes declines done as s es next s') : next.Sublist as := by
  induction h with
  | nil => exact List.Sublist.slnil
  | stop => exact List.nil_sublist _
  | drop _ _ _ ih => exact ih.cons _
  | keep _ _ _ _ ih => exact ih.cons_cons _

end Round

theorem Rounds.run (h : Rounds who takes declines done as s es s') : Run takes s es s' := by
  induction h with
  | finish => exact .nil
  | round _ _ hr _ ih => exact hr.run.append ih

/-- Nothing happens once everything is done. -/
theorem Rounds.not_done (h : Rounds who takes declines done as s es s') (hes : es ≠ []) : ¬ done s := by
  cases h with
  | finish => exact absurd rfl hes
  | round hnot => exact hnot

/-- What comes after the last event of `b` is behind every list that still has events of `b` after it. -/
theorem append_of_last {es₁ es₂ pre post : List ε} {e : ε} (hes : es₁ ++ es₂ = pre ++ e :: post)
    (hlast : who e ∉ post.map who) (hmem : who e ∈ es₂.map who) :
    ∃ pre₂, pre = es₁ ++ pre₂ ∧ es₂ = pre₂ ++ e :: post := by
  rcases List.append_eq_append_iff.1 hes with ⟨c, hpre, hes₂⟩ | ⟨c, hes₁, hpost⟩
  · exact ⟨c, hpre, hes₂⟩
  · cases c with
    | nil =>
      refine ⟨[], ?_, hpost.symm⟩
      rw [hes₁, List.append_nil, List.append_nil]
    | cons e' c =>
      -- the last event would come before all of `es₂`
      rw [List.cons_append, List.cons.injEq] at hpost
      rw [hpost.2, List.map_append] at hlast
      exact absurd (List.mem_append_right _ hmem) hlast

/-- What no step takes away from a participant lasts. -/
theorem lasting {P : σ → α → Prop} (hP : ∀ s e s' a, P s a → takes s e s' → P s' a)
    (hrun : Run takes s es s') (hp : P s a) : P s' a :=
  hrun.inv (I := fun s => P s a) (fun s e s' hp hst => hP s e s' a hp hst) hp

section property
variable {I : σ → Prop} {P : σ → α → Prop} (hI : ∀ s e s', I s → takes s e s' → I s')
  (hdeclines : ∀ s a, I s → declines s a → P s a) (hP : ∀ s e s' a, P s a → takes s e s' → P s' a)
include hI hdeclines hP

/-- Who is dropped from a round that does not stop has the property. -/
theorem Round.dropped (h : Round who takes declines done as s es next s') (h0 : I s) (ha : a ∈ as)
    (hnext : a ∉ next) (hend : ¬ done s') : P s' a := by
  induction h with
  | nil => exact absurd ha List.not_mem_nil
  | stop hdone => exact absurd hdone hend
  | drop _ hdec hr ih =>
    rcases List.mem_cons.1 ha with rfl | ha
    · exact lasting hP hr.run (hdeclines _ _ h0 hdec)
    · exact ih h0 ha hnext hend
  | keep _ _ hst _ ih =>
    rcases List.mem_cons.1 ha with rfl | ha
    · exact absurd List.mem_cons_self hnext
    · exact ih (hI _ _ _ h0 hst) ha (fun hm => hnext (List.mem_cons_of_mem _ hm)) hend

/-- **If the rounds end too early, everyone has the property.** -/
theorem Rounds.complete (h : Rounds who takes declines done as s es s') (h0 : I s) (hend : ¬ done s')
    (ha : a ∈ as) : P s' a := by
  induction h with
  | finish hfin =>
    rcases hfin with hdone | rfl
    · exact absurd hdone hend
    · exact absurd ha List.not_mem_nil
  | @round as s es next s₁ es' s' _ _ hr hrest ih =>
    by_cases hnext : a ∈ next
    · exact ih (hr.run.inv hI h0) hend hnext
    · have hmid : ¬ done s₁ := by
        cases hrest with
        | finish hfin =>
          rcases hfin with hdone | rfl
          · exact absurd hdone hend
          · exact hend
        | round hnot => exact hnot
      exact lasting hP hrest.run (hr.dropped hI hdeclines hP h0 ha hnext hmid)

/-- **Fairness.**  While a participant is kept it takes a step in every round, as
    many as anyone else; so one that is two steps behind was dropped in a round
    before the last step of the other. -/
theorem Rounds.fair [DecidableEq α] (h : Rounds who takes declines done as s es s') (hnd : as.Nodup)
    (h0 : I s) (ha : a ∈ as) {pre post : List ε} {e : ε} (hes : es = pre ++ e :: post)
    (hlast : who e ∉ post.map who) (hcount : (es.map who).count a + 2 ≤ (es.map who).count (who e)) :
    ∃ s₁ s₂, Run takes s pre s₁ ∧ takes s₁ e s₂ ∧ Run takes s₂ post s' ∧ P s₁ a := by
  induction h generalizing pre with
  | finish => simp at hes
  | @round as s es next s₁ es' s' _ _ hr hrest ih =>
    have hnext : next.Nodup := hnd.sublist hr.sublist
    have hone : next.count (who e) ≤ 1 := List.nodup_iff_count_le_one.1 hnext _
    rw [List.map_append, List.count_append, List.count_append, hr.map_who] at hcount
    have hmem : who e ∈ es'.map who := List.count_pos_iff.1 (by omega)
    obtain ⟨pre', rfl, hes'⟩ := append_of_last hes hlast hmem
    by_cases hkept : a ∈ next
    · have hself : next.count a = 1 := List.count_eq_one_of_mem hnext hkept
      obtain ⟨s₂, s₃, hpre, hst, hpost, hp⟩ :=
        ih hnext (hr.run.inv hI h0) hkept hes' (by omega)
      exact ⟨s₂, s₃, hr.run.append hpre, hst, hpost, hp⟩
    · have hne : es' ≠ [] := by
        rintro rfl
        simp at hmem
      have hp : P s₁ a := hr.dropped hI hdeclines hP h0 ha hkept (hrest.not_done hne)
      have hrun := hrest.run
      rw [hes', ← List.singleton_append, ← List.append_assoc] at hrun
      obtain ⟨s₃, hrun, hpost⟩ := hrun.of_append
      obtain ⟨s₂, hpre, hst⟩ := hrun.of_snoc
      exact ⟨s₂, s₃, hr.run.append hpre, hst, hpost, lasting hP hpre hp⟩

end property

end RoundRobin
