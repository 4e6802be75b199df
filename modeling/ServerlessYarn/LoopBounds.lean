/-
  ServerlessYARN model — the bounds of the placement loops suffice.

  The `while` loops of the policies recurse on a bound for their number of
  iterations.  Every iteration but the last allocates a container, so a larger
  bound changes nothing: the functions compute what the unbounded loops do.
-/
import Mathlib.Algebra.BigOperators.Group.Finset.Piecewise
import ServerlessYarn.Placement

namespace ServerlessYarn

theorem Placed.toAllocate {e : Env} {tr : Tracking} {s s' : Plan} {ev : Placement}
    (h : Placed e tr s ev s') : s'.containers_to_allocate =
      Function.update s.containers_to_allocate ev.type (s.containers_to_allocate ev.type - 1) := by
  obtain ⟨c, host, -, -, -, -, rfl⟩ := h.step
  rfl

theorem Placed.notAllocated {e : Env} {tr : Tracking} {s s' : Plan} {ev : Placement}
    (h : Placed e tr s ev s') :
    containersNotAllocated s'.containers_to_allocate =
      containersNotAllocated s.containers_to_allocate - 1 := by
  rw [h.toAllocate]
  unfold containersNotAllocated
  rw [Finset.sum_update_of_mem (Finset.mem_univ _),
    ← Finset.add_sum_erase _ s.containers_to_allocate (Finset.mem_univ ev.type),
    Finset.sdiff_singleton_eq_erase]
  omega

theorem fillUpWhile_bound {e : Env} {name : String} {t : ContainerType} (m : ℕ) :
    ∀ {fuel : ℕ} {s : Plan}, (s.containers_to_allocate t).toNat ≤ fuel →
      fillUpWhile e name t (fuel + m) s = fillUpWhile e name t fuel s
  | 0, s, hf => by
    have hneg : ¬ 0 < s.containers_to_allocate t := by omega
    cases m with
    | zero => rfl
    | succ m =>
      rw [show 0 + (m + 1) = m + 1 by omega]
      simp only [fillUpWhile, if_neg hneg]
  | fuel + 1, s, hf => by
    rw [show fuel + 1 + m = fuel + m + 1 by omega]
    simp only [fillUpWhile]
    split_ifs with hpos
    · rcases ho : fillUpStep e name t s with err | o
      · rfl
      · cases o with
        | none => rfl
        | some s' =>
          obtain ⟨d, hev⟩ := fillUpStep_placed hpos ho
          refine fillUpWhile_bound m ?_
          simp only [hev.toAllocate, Function.update_self]
          omega
    · rfl

/-- A round allocates one container for each host it saves for the next. -/
theorem cyclicRound_notAllocated {e : Env} : ∀ {names : List String} {s s' : Plan}
    {next next' : List String}, cyclicRound e names s next = .ok (s', next') →
      containersNotAllocated s'.containers_to_allocate + next'.length =
        containersNotAllocated s.containers_to_allocate + next.length
  | [], s, s', next, next', h => by
    simp only [cyclicRound, pure_eq_ok, Prod.mk.injEq] at h
    rw [h.1, h.2]
  | name :: rest, s, s', next, next', h => by
    unfold cyclicRound at h
    split_ifs at h
    · simp only [pure_eq_ok, Prod.mk.injEq] at h
      rw [h.1, h.2]
    · obtain ⟨o, ho, h⟩ := bind_eq_ok.1 h
      cases o with
      | none => exact cyclicRound_notAllocated h
      | some s₁ =>
        obtain ⟨t, d, hev⟩ := cyclicVisit_placed ho
        rw [cyclicRound_notAllocated h, hev.notAllocated, List.length_append, List.length_singleton]
        push_cast; ring

theorem cyclicWhile_nil {e : Env} (fuel : ℕ) (s : Plan) : cyclicWhile e fuel [] s = .ok s := by
  cases fuel <;> simp [cyclicWhile, pure, Except.pure]

theorem cyclicWhile_bound {e : Env} (m : ℕ) : ∀ {fuel : ℕ} {names : List String} {s : Plan},
    (containersNotAllocated s.containers_to_allocate).toNat < fuel →
      cyclicWhile e (fuel + m) names s = cyclicWhile e fuel names s
  | fuel + 1, names, s, hf => by
    rw [show fuel + 1 + m = fuel + m + 1 by omega]
    simp only [cyclicWhile]
    split_ifs with hcond
    · rcases hr : cyclicRound e names s [] with err | ⟨s', next⟩
      · rfl
      · have hsum := cyclicRound_notAllocated hr
        rw [List.length_nil] at hsum
        change cyclicWhile e (fuel + m) next s' = cyclicWhile e fuel next s'
        by_cases hnext : next = []
        · rw [hnext, cyclicWhile_nil, cyclicWhile_nil]
        · have hlen := List.length_pos_iff.2 hnext
          exact cyclicWhile_bound m (by omega)
    · rfl

theorem bestEffortWhile_bound {e : Env} (m : ℕ) : ∀ {fuel : ℕ} {s : Plan},
    (containersNotAllocated s.containers_to_allocate).toNat ≤ fuel →
      bestEffortWhile e (fuel + m) s = bestEffortWhile e fuel s
  | 0, s, hf => by
    have hneg : ¬ 0 < containersNotAllocated s.containers_to_allocate := by omega
    cases m with
    | zero => rfl
    | succ m =>
      rw [show 0 + (m + 1) = m + 1 by omega]
      simp only [bestEffortWhile, if_neg hneg]
  | fuel + 1, s, hf => by
    rw [show fuel + 1 + m = fuel + m + 1 by omega]
    simp only [bestEffortWhile]
    split_ifs with hpos
    · rcases ho : bestEffortStep e allocationOrder s with err | o
      · rfl
      · cases o with
        | none => rfl
        | some s' =>
          obtain ⟨ev, hev⟩ := bestEffortStep_placed ho
          refine bestEffortWhile_bound m ?_
          rw [hev.notAllocated]
          omega
    · rfl

/-- **The bound of `assign_cyclic` suffices.** -/
theorem assignCyclic_bound (e : Env) (hosts : List String) (s : Plan) {fuel : ℕ}
    (hf : (containersNotAllocated s.containers_to_allocate).toNat < fuel) :
    cyclicWhile e fuel hosts s = assignCyclic e hosts s := by
  obtain ⟨m, rfl⟩ := Nat.exists_eq_add_of_le hf
  exact cyclicWhile_bound m (Nat.lt_succ_self _)

/-- **The bound of `assign_best_effort` suffices.** -/
theorem assignBestEffort_bound (e : Env) (s : Plan) {fuel : ℕ}
    (hf : (containersNotAllocated s.containers_to_allocate).toNat ≤ fuel) :
    bestEffortWhile e fuel s = assignBestEffort e s := by
  obtain ⟨m, rfl⟩ := Nat.exists_eq_add_of_le hf
  exact bestEffortWhile_bound m le_rfl

end ServerlessYarn
