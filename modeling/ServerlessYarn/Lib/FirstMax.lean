/-
  The first candidate of a list with the largest value.

  A scan that goes through a list, keeps the best candidate so far with its value, and
  only moves on to one with a strictly larger value.  A value below those of all
  candidates stands for "none yet".

  * `FirstMax.append_keep`, `FirstMax.append_take`: one more member at the end;
  * `tracks_scan`: what the scan ends with;
  * `Best.unique`, `scan_eq_iff`: and nothing else;
  * `Best.congr`: only the candidates and the order of their values count.
-/
import Mathlib.Order.Bounds.Basic
import Mathlib.Data.List.Induction

/-- `a` is the first member of `l` with the largest value `f` of those with `p`. -/
def FirstMax {α β : Type*} [Preorder β] (p : α → Prop) (f : α → β) (l : List α) (a : α) : Prop :=
  p a ∧ ∃ before after, l = before ++ a :: after ∧
    (∀ b ∈ before, p b → f b < f a) ∧ ∀ b ∈ after, p b → f b ≤ f a

namespace FirstMax

variable {α β : Type*} [LinearOrder β] {p : α → Prop} {f : α → β} {l : List α} {a x : α}

theorem mem (h : FirstMax p f l a) : a ∈ l := by
  obtain ⟨-, before, after, rfl, -, -⟩ := h
  exact List.mem_append_right before List.mem_cons_self

theorem le (h : FirstMax p f l a) {b : α} (hb : b ∈ l) (hp : p b) : f b ≤ f a := by
  obtain ⟨-, before, after, rfl, hbefore, hafter⟩ := h
  rcases List.mem_append.1 hb with hb | hb
  · exact le_of_lt (hbefore b hb hp)
  · rcases List.mem_cons.1 hb with rfl | hb
    · exact le_rfl
    · exact hafter b hb hp

/-- A member that is no better is passed over. -/
theorem append_keep (h : FirstMax p f l a) (hx : ¬ (p x ∧ f a < f x)) : FirstMax p f (l ++ [x]) a := by
  obtain ⟨hp, before, after, rfl, hbefore, hafter⟩ := h
  refine ⟨hp, before, after ++ [x], by simp, hbefore, fun b hb hpb => ?_⟩
  rcases List.mem_append.1 hb with hb | hb
  · exact hafter b hb hpb
  · obtain rfl := List.mem_singleton.1 hb
    exact not_lt.1 fun hlt => hx ⟨hpb, hlt⟩

/-- A better one is taken, and the first candidate of all. -/
theorem append_take (hp : p x) (hx : ∀ b ∈ l, p b → f b < f x) : FirstMax p f (l ++ [x]) x :=
  ⟨hp, l, [], rfl, hx, fun _ hb => absurd hb List.not_mem_nil⟩

theorem unique (h : FirstMax p f l a) (h' : FirstMax p f l x) : a = x := by
  obtain ⟨hp, before, after, rfl, hbefore, hafter⟩ := h
  obtain ⟨hp', before', after', heq, hbefore', hafter'⟩ := h'
  rcases List.append_eq_append_iff.1 heq with ⟨mid, rfl, hmid⟩ | ⟨mid, rfl, hmid⟩
  · cases mid with
    | nil => exact (List.cons_eq_cons.1 hmid).1
    | cons b mid =>
      -- the second one comes after the first
      obtain ⟨rfl, rfl⟩ := List.cons_eq_cons.1 hmid
      have hless := hbefore' a (List.mem_append_right before List.mem_cons_self) hp
      have hle := hafter x (List.mem_append_right mid List.mem_cons_self) hp'
      exact absurd hless (not_lt.2 hle)
  · cases mid with
    | nil => exact (List.cons_eq_cons.1 hmid).1.symm
    | cons b mid =>
      obtain ⟨rfl, rfl⟩ := List.cons_eq_cons.1 hmid
      have hless := hbefore x (List.mem_append_right before' List.mem_cons_self) hp'
      have hle := hafter' a (List.mem_append_right mid List.mem_cons_self) hp
      exact absurd hless (not_lt.2 hle)

/-- Only the candidates and the order of their values count. -/
theorem congr {γ : Type*} [LinearOrder γ] {q : α → Prop} {g : α → γ} (hp : ∀ b ∈ l, p b ↔ q b)
    (hf : ∀ b ∈ l, ∀ c ∈ l, p b → p c → (f b < f c ↔ g b < g c)) (h : FirstMax p f l a) :
    FirstMax q g l a := by
  have ha := h.mem
  obtain ⟨hpa, before, after, rfl, hbefore, hafter⟩ := h
  refine ⟨(hp a ha).1 hpa, before, after, rfl, fun b hb hq => ?_, fun b hb hq => ?_⟩
  · have hmem := List.mem_append_left (a :: after) hb
    have hpb := (hp b hmem).2 hq
    exact (hf b hmem a ha hpb hpa).1 (hbefore b hb hpb)
  · have hmem := List.mem_append_right before (List.mem_cons_of_mem a hb)
    have hpb := (hp b hmem).2 hq
    exact not_lt.1 ((hf a ha b hmem hpa hpb).not.1 (not_lt.2 (hafter b hb hpb)))

/-! ## The scan -/

/-- One step, on the best candidate so far and its value. -/
def scanStep (p : α → Prop) [DecidablePred p] (f : α → β) (best : Option α × β) (a : α) : Option α × β :=
  if p a ∧ best.2 < f a then (some a, f a) else best

/-- What a scan is to end with: nothing only if there are no candidates. -/
def Best (p : α → Prop) (f : α → β) (l : List α) : Option α → Prop
  | none => ∀ a ∈ l, ¬ p a
  | some a => FirstMax p f l a

theorem Best.unique {o o' : Option α} (h : Best p f l o) (h' : Best p f l o') : o = o' := by
  match o, o' with
  | none, none => rfl
  | none, some a => exact absurd (show FirstMax p f l a from h').1 (h a (FirstMax.mem h'))
  | some a, none => exact absurd (show FirstMax p f l a from h).1 (h' a (FirstMax.mem h))
  | some a, some b => exact congrArg some (FirstMax.unique h h')

theorem Best.congr {γ : Type*} [LinearOrder γ] {q : α → Prop} {g : α → γ} (hp : ∀ b ∈ l, p b ↔ q b)
    (hf : ∀ b ∈ l, ∀ c ∈ l, p b → p c → (f b < f c ↔ g b < g c)) {o : Option α} (h : Best p f l o) :
    Best q g l o := by
  cases o with
  | none => exact fun b hb hq => h b hb ((hp b hb).2 hq)
  | some a => exact FirstMax.congr hp hf h

/-- The state of a scan after `l`: the best candidate, and its value or the marker. -/
def Tracks (p : α → Prop) (f : α → β) (m : β) (l : List α) (best : Option α × β) : Prop :=
  Best p f l best.1 ∧ best.2 = (best.1.map f).getD m

theorem Tracks.scanStep [DecidablePred p] {m : β} {best : Option α × β} (h : Tracks p f m l best)
    (hm : p x → m < f x) : Tracks p f m (l ++ [x]) (scanStep p f best x) := by
  obtain ⟨o, v⟩ := best
  obtain ⟨hbest, hvalue⟩ := h
  unfold FirstMax.scanStep
  by_cases hx : p x ∧ v < f x
  · rw [if_pos hx]
    refine ⟨append_take hx.1 fun b hb hp => ?_, rfl⟩
    cases o with
    | none => exact absurd hp (hbest b hb)
    | some a =>
      obtain rfl : v = f a := hvalue
      exact lt_of_le_of_lt (FirstMax.le hbest hb hp) hx.2
  · rw [if_neg hx]
    refine ⟨?_, hvalue⟩
    cases o with
    | none =>
      intro b hb hp
      rcases List.mem_append.1 hb with hl | hl
      · exact hbest b hl hp
      · obtain rfl := List.mem_singleton.1 hl
        obtain rfl : v = m := hvalue
        exact hx ⟨hp, hm hp⟩
    | some a =>
      obtain rfl : v = f a := hvalue
      exact append_keep hbest hx

/-- **The scan ends with the best candidate**, and its value. -/
theorem tracks_scan [DecidablePred p] {m : β} (hm : ∀ a ∈ l, p a → m < f a) :
    Tracks p f m l (l.foldl (scanStep p f) (none, m)) := by
  induction l using List.reverseRecOn with
  | nil => exact ⟨fun a ha => absurd ha List.not_mem_nil, rfl⟩
  | append_singleton l x ih =>
    rw [List.foldl_append]
    exact (ih fun a ha => hm a (List.mem_append_left _ ha)).scanStep
      (hm x (List.mem_append_right l List.mem_cons_self))

/-- **The scan, characterised.** -/
theorem scan_eq_iff [DecidablePred p] {m : β} (hm : ∀ a ∈ l, p a → m < f a) {o : Option α} :
    (l.foldl (scanStep p f) (none, m)).1 = o ↔ Best p f l o := by
  constructor
  · rintro rfl
    exact (tracks_scan hm).1
  · exact fun h => (tracks_scan hm).1.unique h

end FirstMax
