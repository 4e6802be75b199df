/-
  UTF-8, as a machine that reads one byte at a time.

  `runSteps step q l` runs a partial machine over a list.  A state of the UTF-8
  machine has the number of continuation bytes still owed and the range of the
  next one, which excludes overlong forms, surrogates and what is beyond U+10FFFF.

  * `isUtf8_append`: texts can be put together;
  * `isUtf8_split`: and taken apart at ASCII text, which is never inside a character.
-/
import Mathlib.Data.List.Basic
import Mathlib.Data.List.Induction

/-! ## Machines -/

section machine
variable {σ α : Type*} (step : σ → α → Option σ)

/-- The state after reading the list. -/
def runSteps (q : σ) : List α → Option σ
  | [] => some q
  | a :: l => (step q a).bind fun q' => runSteps q' l

theorem runSteps_append (q : σ) (l l' : List α) :
    runSteps step q (l ++ l') = (runSteps step q l).bind fun q' => runSteps step q' l' := by
  induction l generalizing q with
  | nil => rfl
  | cons a l ih =>
    rw [List.cons_append, runSteps, runSteps, Option.bind_assoc]
    congr 1
    funext q'
    exact ih q'

theorem runSteps_concat (q : σ) (l : List α) (a : α) :
    runSteps step q (l ++ [a]) = (runSteps step q l).bind fun q' => step q' a := by
  rw [runSteps_append]
  congr 1
  funext q'
  exact Option.bind_fun_some (step q' a)

/-- What one step preserves, a run preserves. -/
theorem runSteps_inv {I : σ → Prop} (hs : ∀ q a q', I q → step q a = some q' → I q') {q q' : σ}
    {l : List α} (h : runSteps step q l = some q') (h0 : I q) : I q' := by
  induction l generalizing q with
  | nil =>
    cases h
    exact h0
  | cons a l ih =>
    obtain ⟨q₁, hq₁, hrest⟩ := Option.bind_eq_some_iff.1 h
    exact ih hrest (hs q a q₁ h0 hq₁)

end machine

namespace Utf8

/-- The continuation bytes owed, and the range of the next one. -/
structure State where
  owed : ℕ
  low : UInt8
  high : UInt8
  deriving DecidableEq

/-- Some continuation bytes, without a narrower range. -/
def State.tails (n : ℕ) : State := ⟨n, 0x80, 0xBF⟩

/-- Between characters. -/
abbrev start : State := State.tails 0

/-- The first byte of a character. -/
def lead (b : UInt8) : Option State :=
  if b < 0x80 then some start
  else if 0xC2 ≤ b ∧ b ≤ 0xDF then some (State.tails 1)
  else if b = 0xE0 then some ⟨2, 0xA0, 0xBF⟩
  else if b = 0xED then some ⟨2, 0x80, 0x9F⟩
  else if 0xE1 ≤ b ∧ b ≤ 0xEF then some (State.tails 2)
  else if b = 0xF0 then some ⟨3, 0x90, 0xBF⟩
  else if 0xF1 ≤ b ∧ b ≤ 0xF3 then some (State.tails 3)
  else if b = 0xF4 then some ⟨3, 0x80, 0x8F⟩
  else none

def step (q : State) (b : UInt8) : Option State :=
  if q.owed = 0 then lead b
  else if q.low ≤ b ∧ b ≤ q.high then some (State.tails (q.owed - 1))
  else none

end Utf8

open Utf8

/-- The bytes are UTF-8. -/
def IsUtf8 (l : List UInt8) : Prop :=
  runSteps step start l = some start

instance (l : List UInt8) : Decidable (IsUtf8 l) :=
  inferInstanceAs (Decidable (_ = _))

/-- The bytes are ASCII. -/
def IsAscii (l : List UInt8) : Prop :=
  ∀ b ∈ l, b < 0x80

theorem all_lt_iff_isAscii (l : List UInt8) : (l.all fun b => decide (b < 0x80)) = true ↔ IsAscii l := by
  rw [List.all_eq_true]
  exact forall₂_congr fun b _ => decide_eq_true_iff

-- through the list: running through all bytes instead would not reduce
instance (l : List UInt8) : Decidable (IsAscii l) :=
  decidable_of_iff _ (all_lt_iff_isAscii l)

namespace Utf8

/-- Where the machine owes nothing, and continues with tails otherwise unrestricted. -/
def State.Sound (q : State) : Prop :=
  (q.owed = 0 → q = start) ∧ (q.owed ≠ 0 → 0x80 ≤ q.low)

theorem sound_start : start.Sound :=
  ⟨fun _ => rfl, fun h => absurd rfl h⟩

theorem sound_tails (n : ℕ) : (State.tails n).Sound := by
  constructor
  · intro h
    cases n with
    | zero => rfl
    | succ => cases h
  · intro _
    exact UInt8.le_refl _

theorem sound_owing {n : ℕ} {low high : UInt8} (h : 0x80 ≤ low) : (State.mk (n + 1) low high).Sound :=
  ⟨fun h0 => absurd h0 (Nat.succ_ne_zero n), fun _ => h⟩

theorem sound_lead {b : UInt8} {q : State} (h : lead b = some q) : q.Sound := by
  unfold lead at h
  split_ifs at h <;> cases h
  · exact sound_start
  · exact sound_tails 1
  · exact sound_owing (by decide)
  · exact sound_owing (by decide)
  · exact sound_tails 2
  · exact sound_owing (by decide)
  · exact sound_tails 3
  · exact sound_owing (by decide)

theorem sound_step {q q' : State} {b : UInt8} (_ : q.Sound) (h : step q b = some q') : q'.Sound := by
  unfold step at h
  split_ifs at h
  · exact sound_lead h
  · cases h
    exact sound_tails _

/-- An ASCII byte stands for itself, and is no continuation byte. -/
theorem step_ascii {q : State} (hq : q.Sound) {b : UInt8} (hb : b < 0x80) :
    step q b = if q.owed = 0 then some start else none := by
  unfold step
  by_cases h : q.owed = 0
  · rw [if_pos h, if_pos h]
    unfold lead
    rw [if_pos hb]
  · have hlow := hq.2 h
    have hout : ¬ (q.low ≤ b ∧ b ≤ q.high) := by
      rintro ⟨hle, -⟩
      exact UInt8.lt_irrefl b (UInt8.lt_of_lt_of_le hb (UInt8.le_trans hlow hle))
    rw [if_neg h, if_neg h, if_neg hout]

/-- So does ASCII text. -/
theorem run_ascii {q : State} (hq : q.Sound) {l : List UInt8} (hl : IsAscii l) (hne : l ≠ []) :
    runSteps step q l = if q.owed = 0 then some start else none := by
  have hstart : ∀ l : List UInt8, IsAscii l → runSteps step start l = some start := by
    intro l hl
    induction l with
    | nil => rfl
    | cons b l ih =>
      rw [runSteps, step_ascii sound_start (hl b List.mem_cons_self)]
      exact ih fun b' hb' => hl b' (List.mem_cons_of_mem b hb')
  cases l with
  | nil => exact absurd rfl hne
  | cons b l =>
    rw [runSteps, step_ascii hq (hl b List.mem_cons_self)]
    split_ifs
    · exact hstart l fun b' hb' => hl b' (List.mem_cons_of_mem b hb')
    · rfl

end Utf8

theorem isUtf8_append {a b : List UInt8} (ha : IsUtf8 a) (hb : IsUtf8 b) : IsUtf8 (a ++ b) := by
  unfold IsUtf8
  rw [runSteps_append, show runSteps step start a = some start from ha]
  exact hb

theorem isUtf8_of_isAscii {l : List UInt8} (h : IsAscii l) : IsUtf8 l := by
  by_cases hne : l = []
  · rw [hne]
    rfl
  · exact run_ascii sound_start h hne

/-- **ASCII text is never inside a character.** -/
theorem isUtf8_split {a t b : List UInt8} (ht : IsAscii t) (hne : t ≠ []) :
    IsUtf8 (a ++ t ++ b) ↔ IsUtf8 a ∧ IsUtf8 b := by
  constructor
  · intro h
    unfold IsUtf8 at h
    rw [List.append_assoc, runSteps_append] at h
    obtain ⟨q, ha, hrest⟩ := Option.bind_eq_some_iff.1 h
    have hq : q.Sound := runSteps_inv step (fun _ _ _ => sound_step) ha sound_start
    rw [runSteps_append, run_ascii hq ht hne] at hrest
    split_ifs at hrest with howed
    · rw [hq.1 howed] at ha
      exact ⟨ha, hrest⟩
    · cases hrest
  · rintro ⟨ha, hb⟩
    exact isUtf8_append (isUtf8_append ha (isUtf8_of_isAscii ht)) hb
