/-
  Capacity ledgers.

  A ledger gives each place a free amount in an ordered group.  An event may
  charge one place: its cost must fit in what is free there and is subtracted
  from it.  Over any run of charges

  * `conserve`: what is free at the end plus what was charged is what was free
    at the start;
  * `nonneg`, `charged_le`: a place that starts with a non-negative amount is
    never charged more than that;
  * `le_charged`: where nothing is negative, the charge is at least each cost;
  * `charged_eq_sum`: when the cost depends on the kind of the event only, the
    charge is the sum over the kinds of the number of events times the cost.
-/
import Mathlib.Algebra.BigOperators.Ring.List
import Mathlib.Algebra.BigOperators.Group.Finset.Piecewise
import Mathlib.Algebra.Module.NatInt
import Mathlib.Algebra.Order.BigOperators.Group.List
import Mathlib.Algebra.Order.Group.Defs
import Mathlib.Data.Fintype.Basic
import Mathlib.Tactic.Abel
import ServerlessYarn.Lib.Run

namespace Ledger

variable {P E A : Type*} [DecidableEq P] [AddCommGroup A] (place : E → Option P) (cost : E → A)

/-- The event `e` charges its place, if it has one, with its cost. -/
def Charge [LE A] (free : P → A) (e : E) (free' : P → A) : Prop :=
  ∀ p, if place e = some p then cost e ≤ free p ∧ free' p = free p - cost e else free' p = free p

/-- What the events charge to `p`. -/
def charged (es : List E) (p : P) : A := ((es.filter fun e => place e = some p).map cost).sum

variable {place cost}

@[simp] theorem charged_nil (p : P) : charged place cost [] p = 0 := rfl

theorem charged_append (es es' : List E) (p : P) :
    charged place cost (es ++ es') p = charged place cost es p + charged place cost es' p := by
  simp [charged]

theorem charged_singleton (e : E) (p : P) :
    charged place cost [e] p = if place e = some p then cost e else 0 := by
  unfold charged
  split_ifs with h <;> simp [h]

section order
variable [PartialOrder A]

theorem conserve {free free' : P → A} {es : List E} (h : Run (Charge place cost) free es free')
    (p : P) : free' p + charged place cost es p = free p := by
  induction h with
  | nil => simp
  | snoc _ hst ih =>
    rw [charged_append, charged_singleton, ← ih]
    have hp := hst p
    split_ifs at hp ⊢
    · rw [hp.2]; abel
    · rw [hp]; abel

variable [IsOrderedAddMonoid A]

theorem nonneg {free free' : P → A} {es : List E} (h : Run (Charge place cost) free es free') {p : P}
    (h0 : 0 ≤ free p) : 0 ≤ free' p := by
  refine h.inv (I := fun f => 0 ≤ f p) (fun f e f' hf hst => ?_) h0
  have hp := hst p
  split_ifs at hp
  · rw [hp.2]; exact sub_nonneg.2 hp.1
  · rw [hp]; exact hf

/-- **No place is charged more than it had free.** -/
theorem charged_le {free free' : P → A} {es : List E} (h : Run (Charge place cost) free es free')
    {p : P} (h0 : 0 ≤ free p) : charged place cost es p ≤ free p := by
  rw [← conserve h p]
  exact le_add_of_nonneg_left (nonneg h h0)

/-- One of several charges is at most all of them. -/
theorem le_charged {es : List E} {p : P} (hnn : ∀ e ∈ es, 0 ≤ cost e) {e : E} (he : e ∈ es)
    (hp : place e = some p) : cost e ≤ charged place cost es p := by
  refine List.single_le_sum ?_ _ (List.mem_map.2 ⟨e, List.mem_filter.2 ⟨he, by simpa using hp⟩, rfl⟩)
  intro x hx
  obtain ⟨e', he', rfl⟩ := List.mem_map.1 hx
  exact hnn e' (List.mem_filter.1 he').1

end order

/-- The charge, kind by kind. -/
theorem charged_eq_sum {K : Type*} [Fintype K] [DecidableEq K] (kind : E → K) (c : K → A) {p : P} :
    ∀ {es : List E}, (∀ e ∈ es, place e = some p → cost e = c (kind e)) →
      charged place cost es p =
        ∑ k, (es.countP fun e => place e = some p ∧ kind e = k) • c k
  | [], _ => by simp
  | e :: es, h => by
    have ih := charged_eq_sum kind c (p := p) fun e' he' => h e' (List.mem_cons_of_mem _ he')
    rw [← List.singleton_append, charged_append, charged_singleton, ih]
    by_cases hp : place e = some p
    · simp only [hp, h e List.mem_cons_self hp, if_true, List.singleton_append, List.countP_cons,
        true_and, decide_eq_true_eq, add_smul, ite_smul, one_smul, zero_smul,
        Finset.sum_add_distrib, Finset.sum_ite_eq, Finset.mem_univ]
      abel
    · simp [hp]

/-- The charge when every event costs the same. -/
theorem charged_const {c : A} {p : P} {es : List E}
    (h : ∀ e ∈ es, place e = some p → cost e = c) :
    charged place cost es p = (es.countP fun e => place e = some p) • c := by
  rw [charged_eq_sum (fun _ : E => ()) (fun _ => c) h]
  simp

/-- If at most one event costs anything, and each fits on its own, so do all. -/
theorem charged_le_of_single {B : Type*} [AddCommGroup B] [LinearOrder B] [IsOrderedAddMonoid B]
    {cost : E → B} {b : B} {p : P} (hb : 0 ≤ b) :
    ∀ {es : List E}, (es.countP fun e => 0 < cost e) ≤ 1 →
      (∀ e ∈ es, place e = some p → cost e ≤ b) → charged place cost es p ≤ b
  | [], _, _ => hb
  | e :: es, h1, hle => by
    have hes : ∀ e' ∈ es, place e' = some p → cost e' ≤ b :=
      fun e' he' => hle e' (List.mem_cons_of_mem _ he')
    have hone : (es.countP fun e => 0 < cost e) ≤ 1 := by
      rw [List.countP_cons] at h1
      omega
    have ih := charged_le_of_single hb hone hes
    rw [← List.singleton_append, charged_append, charged_singleton]
    split_ifs with hp
    · by_cases hpos : 0 < cost e
      · -- the others cost nothing
        have hzero : (es.countP fun e => 0 < cost e) = 0 := by
          rw [List.countP_cons, if_pos (decide_eq_true hpos)] at h1
          omega
        have hrest : charged place cost es p ≤ 0 := by
          refine charged_le_of_single le_rfl (by omega) fun e' he' _ => not_lt.1 fun hlt => ?_
          exact List.countP_eq_zero.1 hzero e' he' (decide_eq_true hlt)
        calc cost e + charged place cost es p ≤ cost e + 0 := add_le_add_right hrest _
          _ ≤ b := by rw [add_zero]; exact hle e List.mem_cons_self hp
      · calc cost e + charged place cost es p ≤ 0 + charged place cost es p :=
            add_le_add_left (not_lt.1 hpos) _
          _ ≤ b := by rw [zero_add]; exact ih
    · rw [zero_add]; exact ih

end Ledger
