/-
  ServerlessYARN model — the clock of the lite feeder (`main` of lite_feeder.c).

  The loop sleeps until the next multiple of the interval, and dates its sample with the
  time of the wake-up, rounded.  Times are the doubles that `now_s()` returns, read as the
  numbers that they are.

  * `timestamp_lt_iff`: when a sample is dated after the one before;
  * `timestamps_increasing_iff`: in every run, the timestamps increase iff no wake-up comes
    in the half second before the next target, the wake-up for that target being less than
    half a second late;
  * `timestamps_increasing_of_prompt`: which cannot happen if every wake-up is less than half
    a second late.
-/
import ServerlessYarn.FeederLoop
import ServerlessYarn.Lib.Rounding
import ServerlessYarn.Lib.Run

namespace ServerlessYarn

open Rounding

/-! ## The loop -/

/-- An iteration: the files, and the clock when it starts and after the wake-up. -/
structure Turn extends KernelFiles where
  now : ℚ
  t : ℚ

/-- `next` -/
def target (interval : ℕ) (now : ℚ) : ℚ := (truncate (now / interval) + 1 : ℤ) * interval

/-- `ts` -/
def timestamp (t : ℚ) : ℤ := truncate (t + 1 / 2)

/-- What is sampled; `iv` is made up from the seconds since the last wake-up. -/
def Turn.reading (t_prev : ℚ) (u : Turn) : Reading where
  toKernelFiles := u.toKernelFiles
  ts := timestamp u.t
  elapsed := truncate (u.t - t_prev + 1 / 2)

/-- The time of the last wake-up, and the samples so far. -/
structure ClockState where
  t_prev : ℚ
  readings : List Reading

/-- One iteration: the clock does not go back, and the sleep does not end early. -/
structure ClockStep (interval : ℕ) (s : ClockState) (u : Turn) (s' : ClockState) : Prop where
  forward : s.t_prev ≤ u.now
  woken : target interval u.now ≤ u.t
  sampled : s' = ⟨u.t, s.readings ++ [u.reading s.t_prev]⟩

/-! ## Targets -/

section
variable {interval : ℕ} (hinterval : 1 ≤ interval)
include hinterval

theorem lt_target {now : ℚ} (hnow : 0 ≤ now) : now < target interval now := by
  have hpos : (0 : ℚ) < interval := by exact_mod_cast hinterval
  rw [target, truncate_of_nonneg (by positivity), ← div_lt_iff₀ hpos]
  push_cast
  exact Int.lt_floor_add_one _

/-- A target that has been reached is followed by one a second later at least. -/
theorem target_add_one_le {now now' : ℚ} (hnow : 0 ≤ now) (h : target interval now ≤ now') :
    target interval now + 1 ≤ target interval now' := by
  have hone : (1 : ℚ) ≤ interval := by exact_mod_cast hinterval
  have hpos : (0 : ℚ) < interval := by linarith
  have hnow' : 0 ≤ now' := (hnow.trans (lt_target hinterval hnow).le).trans h
  have hreached : truncate (now / interval) + 1 ≤ truncate (now' / interval) := by
    rw [truncate_of_nonneg (x := now' / interval) (by positivity), Int.le_floor, le_div_iff₀ hpos]
    exact h
  have hcast : ((truncate (now / interval) + 1 : ℤ) : ℚ) + 1 ≤ (truncate (now' / interval) + 1 : ℤ) := by
    exact_mod_cast Int.add_le_add_right hreached 1
  unfold target
  nlinarith

end

/-! ## Two samples -/

/-- The iteration `v` follows `u`. -/
structure Turn.Follows (interval : ℕ) (u v : Turn) : Prop where
  forward : u.t ≤ v.now
  woken : target interval v.now ≤ v.t

/-- The wake-ups of both are dated with the target of the second one: the first wake-up
    comes in the half second before it, and the second one less than half a second after. -/
def Turn.Repeats (interval : ℕ) (u v : Turn) : Prop :=
  target interval v.now - 1 / 2 ≤ u.t ∧ v.t < target interval v.now + 1 / 2

/-- **When a sample is dated after the one before.** -/
theorem timestamp_lt_iff {interval : ℕ} (hinterval : 1 ≤ interval) {u v : Turn}
    (h : u.Follows interval v) (hnonneg : 0 ≤ u.t) : timestamp u.t < timestamp v.t ↔ ¬ u.Repeats interval v := by
  have hnow := hnonneg.trans h.forward
  have hlt := lt_target hinterval hnow
  have hbefore := h.forward
  have hafter := h.woken
  obtain ⟨m, hm⟩ : ∃ m : ℤ, target interval v.now = m :=
    ⟨(truncate (v.now / interval) + 1) * interval, by rw [target]; push_cast; rfl⟩
  unfold timestamp Turn.Repeats
  rw [truncate_of_nonneg (by linarith), truncate_of_nonneg (by linarith)]
  rw [hm] at hlt hafter ⊢
  constructor
  · rintro hless ⟨hu, hv⟩
    have hle : m ≤ ⌊u.t + 1 / 2⌋ := Int.le_floor.2 (by linarith)
    have hge : ⌊v.t + 1 / 2⌋ < m + 1 := Int.floor_lt.2 (by push_cast; linarith)
    omega
  · intro hnot
    by_cases hu : (m : ℚ) - 1 / 2 ≤ u.t
    · have hv : (m : ℚ) + 1 / 2 ≤ v.t := not_lt.1 fun hv => hnot ⟨hu, hv⟩
      have hle : ⌊u.t + 1 / 2⌋ < m + 1 := Int.floor_lt.2 (by push_cast; linarith)
      have hge : m + 1 ≤ ⌊v.t + 1 / 2⌋ := Int.le_floor.2 (by push_cast; linarith)
      omega
    · have hle : ⌊u.t + 1 / 2⌋ < m := Int.floor_lt.2 (by linarith)
      have hge : m ≤ ⌊v.t + 1 / 2⌋ := Int.le_floor.2 (by linarith)
      omega

/-- After a wake-up less than half a second late there is no repetition. -/
theorem Turn.Follows.not_repeats {interval : ℕ} (hinterval : 1 ≤ interval) {u v : Turn}
    (h : u.Follows interval v) (hnow : 0 ≤ u.now) (hwoken : target interval u.now ≤ u.t)
    (hprompt : u.t < target interval u.now + 1 / 2) : ¬ u.Repeats interval v := by
  rintro ⟨hlate, -⟩
  have hnext := target_add_one_le hinterval hnow (hwoken.trans h.forward)
  linarith

/-! ## Runs -/

theorem ClockStep.follows {interval : ℕ} {s₁ s₂ s₃ : ClockState} {u v : Turn}
    (hu : ClockStep interval s₁ u s₂) (hv : ClockStep interval s₂ v s₃) : u.Follows interval v := by
  obtain ⟨-, -, rfl⟩ := hu
  exact ⟨hv.forward, hv.woken⟩

/-- What a run keeps: it samples with the timestamps of its wake-ups, which come after
    their targets. -/
structure Ticking (interval : ℕ) (turns : List Turn) (s : ClockState) : Prop where
  nonneg : 0 ≤ s.t_prev
  stamps : s.readings.map (·.ts) = turns.map fun u => timestamp u.t
  woken : ∀ u ∈ turns, 0 ≤ u.now ∧ target interval u.now ≤ u.t

theorem Ticking.step {interval : ℕ} (hinterval : 1 ≤ interval) {turns : List Turn} {s s' : ClockState}
    {u : Turn} (h : Ticking interval turns s) (hstep : ClockStep interval s u s') :
    Ticking interval (turns ++ [u]) s' := by
  obtain ⟨hforward, hwoken, rfl⟩ := hstep
  have hnow : 0 ≤ u.now := h.nonneg.trans hforward
  refine ⟨hnow.trans ((lt_target hinterval hnow).le.trans hwoken), ?_, ?_⟩
  · rw [List.map_append, List.map_append, h.stamps]
    rfl
  · intro v hv
    rcases List.mem_append.1 hv with hv | hv
    · exact h.woken v hv
    · obtain rfl := List.mem_singleton.1 hv
      exact ⟨hnow, hwoken⟩

section runs
variable {interval : ℕ} (hinterval : 1 ≤ interval) {start : ℚ} (hstart : 0 ≤ start)
  {turns : List Turn} {s : ClockState} (hrun : Run (ClockStep interval) ⟨start, []⟩ turns s)
include hinterval hstart hrun

theorem ticking : Ticking interval turns s := by
  refine Run.inv_hist ?_ (fun _ _ _ _ _ h hstep => h.step hinterval hstep) hrun
  exact ⟨hstart, rfl, fun u hu => absurd hu List.not_mem_nil⟩

/-- The timestamps increase iff each one is later than the one before. -/
theorem increasing_iff_isChain : (s.readings.map (·.ts)).Pairwise (· < ·) ↔
    turns.IsChain fun u v => timestamp u.t < timestamp v.t := by
  rw [(ticking hinterval hstart hrun).stamps, ← List.isChain_iff_pairwise, List.isChain_map]

/-- **The timestamps of a run increase iff none is repeated.** -/
theorem timestamps_increasing_iff : (s.readings.map (·.ts)).Pairwise (· < ·) ↔
    turns.IsChain fun u v => ¬ u.Repeats interval v := by
  have h := ticking hinterval hstart hrun
  have hfollows : turns.IsChain (Turn.Follows interval) :=
    hrun.isChain fun _ _ _ _ _ hu hv => hu.follows hv
  rw [increasing_iff_isChain hinterval hstart hrun, List.isChain_iff_getElem,
    List.isChain_iff_getElem]
  refine forall₂_congr fun i hi => ?_
  obtain ⟨hnow, hwoken⟩ := h.woken turns[i] (List.getElem_mem _)
  have hnonneg := hnow.trans ((lt_target hinterval hnow).le.trans hwoken)
  exact timestamp_lt_iff hinterval (hfollows.getElem i hi) hnonneg

/-- Wake-ups less than half a second late are enough. -/
theorem timestamps_increasing_of_prompt
    (hprompt : ∀ u ∈ turns, u.t < target interval u.now + 1 / 2) :
    (s.readings.map (·.ts)).Pairwise (· < ·) := by
  have h := ticking hinterval hstart hrun
  have hfollows : turns.IsChain (Turn.Follows interval) :=
    hrun.isChain fun _ _ _ _ _ hu hv => hu.follows hv
  rw [increasing_iff_isChain hinterval hstart hrun]
  refine hfollows.imp_of_mem_imp fun u v hu _ huv => ?_
  obtain ⟨hnow, hwoken⟩ := h.woken u hu
  have hnonneg := hnow.trans ((lt_target hinterval hnow).le.trans hwoken)
  exact (timestamp_lt_iff hinterval huv hnonneg).2
    (huv.not_repeats hinterval hnow hwoken (hprompt u hu))

end runs

/-! ## Late wake-ups -/

/-- A turn at these times. -/
def turnAt (now t : ℚ) : Turn := ⟨⟨none, none, ⟨fun _ => none, fun _ => none⟩, none⟩, now, t⟩

/-- Two turns of the loop, one after the other. -/
theorem run_two {interval : ℕ} {start : ℚ} {u v : Turn} (hstart : start ≤ u.now)
    (hwoken : target interval u.now ≤ u.t) (h : u.Follows interval v) :
    Run (ClockStep interval) ⟨start, []⟩ [u, v] ⟨v.t, [u.reading start, v.reading u.t]⟩ :=
  .snoc (.single ⟨hstart, hwoken, rfl⟩) ⟨h.forward, h.woken, rfl⟩

/-- Wake-ups on time, every five seconds. -/
theorem timestamps_on_time : ∃ s, Run (ClockStep 5) ⟨1, []⟩ [turnAt 2 5, turnAt 6 10] s ∧
    (s.readings.map (·.ts)).Pairwise (· < ·) := by
  have hrun : Run (ClockStep 5) ⟨1, []⟩ [turnAt 2 5, turnAt 6 10] _ :=
    run_two (by decide +kernel) (by decide +kernel) ⟨by decide +kernel, by decide +kernel⟩
  refine ⟨_, hrun, (timestamps_increasing_iff (by decide) (by decide) hrun).2 ?_⟩
  refine List.isChain_pair.2 fun hrepeats => ?_
  have hlate : target 5 6 - 1 / 2 ≤ 5 := hrepeats.1
  exact absurd hlate (by decide +kernel)

/-- A wake-up six tenths of a second late: the next second is dated twice. -/
theorem timestamps_repeated : ∃ s,
    Run (ClockStep 1) ⟨46 / 5, []⟩ [turnAt (93 / 10) (53 / 5), turnAt (107 / 10) 11] s ∧
      s.readings.map (·.ts) = [11, 11] ∧ ¬ (s.readings.map (·.ts)).Pairwise (· < ·) := by
  have hrun : Run (ClockStep 1) ⟨46 / 5, []⟩ [turnAt (93 / 10) (53 / 5), turnAt (107 / 10) 11] _ :=
    run_two (by decide +kernel) (by decide +kernel) ⟨by decide +kernel, by decide +kernel⟩
  have hstamps : [timestamp (53 / 5), timestamp 11] = [11, 11] := by decide +kernel
  refine ⟨_, hrun, hstamps, ?_⟩
  show ¬ [timestamp (53 / 5), timestamp 11].Pairwise (· < ·)
  rw [hstamps]
  decide

end ServerlessYarn
