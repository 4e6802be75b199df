/-
  Streams of frames.

  A frame is written by `enc`.  It is read by `dec`, which returns the value and what comes
  after it, or nothing while the frame is not complete.

  * `all_stream`: from frames one after another, and perhaps a part of one more, exactly
    their values are read;
  * `all_arrived`: from what has arrived of such a stream, the first of them.
-/
import Mathlib.Data.List.Basic
import Mathlib.Data.List.Infix

namespace Frames

variable {α β : Type*}

/-- The reader finds the frames of the values with `p`, and none before its end. -/
structure Reads (enc : β → List α) (dec : List α → Option (β × List α)) (p : β → Prop) : Prop where
  nonempty : ∀ b, p b → enc b ≠ []
  whole : ∀ b, p b → ∀ t, dec (enc b ++ t) = some (b, t)
  part : ∀ b, p b → ∀ s, s <+: enc b → s ≠ enc b → dec s = none

/-- The first `n` frames of a stream. -/
def read (dec : List α → Option (β × List α)) : ℕ → List α → List β
  | 0, _ => []
  | n + 1, s =>
    match dec s with
    | some (b, t) => b :: read dec n t
    | none => []

/-- The frames of a stream. -/
def all (dec : List α → Option (β × List α)) (s : List α) : List β := read dec s.length s

/-- The beginning of a frame, without its end. -/
def Unfinished (enc : β → List α) (p : β → Prop) (tail : List α) : Prop :=
  ∃ b, p b ∧ tail <+: enc b ∧ tail ≠ enc b

variable {enc : β → List α} {dec : List α → Option (β × List α)} {p : β → Prop} {bs : List β}
  {s tail : List α}

theorem unfinished_nil (h : Reads enc dec p) {b : β} (hb : p b) : Unfinished enc p [] :=
  ⟨b, hb, List.nil_prefix, fun hnil => h.nonempty b hb hnil.symm⟩

theorem Reads.dec_unfinished (h : Reads enc dec p) (ht : Unfinished enc p tail) : dec tail = none := by
  obtain ⟨b, hb, hle, hne⟩ := ht
  exact h.part b hb tail hle hne

theorem read_stream (h : Reads enc dec p) (hbs : ∀ b ∈ bs, p b) (ht : Unfinished enc p tail) {n : ℕ}
    (hn : bs.length ≤ n) : read dec n (bs.flatMap enc ++ tail) = bs := by
  induction bs generalizing n with
  | nil =>
    cases n with
    | zero => rfl
    | succ n =>
      rw [List.flatMap_nil, List.nil_append, read, h.dec_unfinished ht]
  | cons b bs ih =>
    cases n with
    | zero => simp at hn
    | succ n =>
      have hb := hbs b List.mem_cons_self
      have hrest := ih (fun b hb => hbs b (List.mem_cons_of_mem _ hb)) (Nat.le_of_succ_le_succ hn)
      rw [List.flatMap_cons, List.append_assoc, read, h.whole b hb]
      simp only [hrest]

/-- A stream has at least as many elements as frames. -/
theorem length_le_stream (h : Reads enc dec p) (hbs : ∀ b ∈ bs, p b) :
    bs.length ≤ (bs.flatMap enc).length := by
  induction bs with
  | nil => simp
  | cons b bs ih =>
    have hpos := List.length_pos_iff.2 (h.nonempty b (hbs b List.mem_cons_self))
    have hle := ih fun b hb => hbs b (List.mem_cons_of_mem _ hb)
    rw [List.flatMap_cons, List.length_append, List.length_cons]
    omega

/-- **Exactly the frames are read**, whether a part of one more follows or not. -/
theorem all_stream (h : Reads enc dec p) (hbs : ∀ b ∈ bs, p b) (ht : Unfinished enc p tail) :
    all dec (bs.flatMap enc ++ tail) = bs := by
  refine read_stream h hbs ht ((length_le_stream h hbs).trans ?_)
  rw [List.length_append]
  exact Nat.le_add_right _ _

/-- What has arrived of a stream is a stream. -/
theorem arrived_stream (hbs : ∀ b ∈ bs, p b) (ht : Unfinished enc p tail)
    (hs : s <+: bs.flatMap enc ++ tail) :
    ∃ k tail', Unfinished enc p tail' ∧ s = (bs.take k).flatMap enc ++ tail' := by
  induction bs generalizing s with
  | nil =>
    rw [List.flatMap_nil, List.nil_append] at hs
    obtain ⟨b, hb, hle, hne⟩ := ht
    refine ⟨0, s, ⟨b, hb, hs.trans hle, ?_⟩, rfl⟩
    rintro rfl
    exact hne (hle.eq_of_length_le hs.length_le)
  | cons b bs ih =>
    rw [List.flatMap_cons, List.append_assoc] at hs
    rcases List.prefix_or_prefix_of_prefix hs (List.prefix_append (enc b) _) with hle | hle
    · by_cases heq : s = enc b
      · obtain ⟨b', hb', hnil⟩ : ∃ b', p b' ∧ [] ≠ enc b' := by
          obtain ⟨b', hb', hle', hne'⟩ := ht
          refine ⟨b', hb', fun h => hne' ?_⟩
          rw [← h] at hle' ⊢
          exact List.prefix_nil.1 hle'
        exact ⟨1, [], ⟨b', hb', List.nil_prefix, hnil⟩, by simp [heq]⟩
      · exact ⟨0, s, ⟨b, hbs b List.mem_cons_self, hle, heq⟩, rfl⟩
    · obtain ⟨s', rfl⟩ := hle
      obtain ⟨k, tail', htail', rfl⟩ :=
        ih (fun b hb => hbs b (List.mem_cons_of_mem _ hb)) ((List.prefix_append_right_inj _).1 hs)
      exact ⟨k + 1, tail', htail', by rw [List.take_succ_cons, List.flatMap_cons, List.append_assoc]⟩

/-- **From what has arrived, the first frames are read.** -/
theorem all_arrived (h : Reads enc dec p) (hbs : ∀ b ∈ bs, p b) (ht : Unfinished enc p tail)
    (hs : s <+: bs.flatMap enc ++ tail) : all dec s <+: bs := by
  obtain ⟨k, tail', htail', rfl⟩ := arrived_stream hbs ht hs
  rw [all_stream h (fun b hb => hbs b (List.mem_of_mem_take hb)) htail']
  exact List.take_prefix k bs

end Frames
