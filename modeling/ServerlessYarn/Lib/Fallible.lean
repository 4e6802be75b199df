/-
  Tasks: computations on a state that return a value or raise an exception.

  What a task did to the state before it raised stays done.  A task is an
  `EStateM`, so `try … catch …` and `try … finally …` are those of the `do`
  notation.

  * `wp t Q R s`: from `s`, the task `t` returns as `Q` says or raises as `R` says;
  * `wp_after`: what holds in both cases holds in the state where the task ends;
  * `wp_bind`, `wp_tryCatch`, `wp_tryFinally`: what follows a task that returned,
    what follows one that raised, and what follows in any case;
  * `map_eq_ok_iff`, `bind_eq_ok_iff`: how a task returns, step by step;
  * `wp_seq`, `wp_catch`, `wp_finally`: the same rules, through a specification
    of the first task;
  * `wp_forM`: a loop keeps an invariant on the items done so far;
  * `Does log t Q R s`: the same for tasks that add to a log, where `Q` and `R`
    also see what was added; `Does.seq`, `Does.catch`, `Does.finally` and
    `Does.forM` join what the parts added.
-/
import Mathlib.Logic.Basic

/-- From `s`, the task returns as `Q` says or raises as `R` says. -/
def Fallible.wp {ε σ α : Type} (t : EStateM ε σ α) (Q : α → σ → Prop) (R : ε → σ → Prop) (s : σ) : Prop :=
  match t s with
  | .ok a s' => Q a s'
  | .error e s' => R e s'

namespace Fallible

variable {ε σ α β : Type} {t : EStateM ε σ α} {Q Q' : α → σ → Prop} {R R' : ε → σ → Prop} {s s' : σ}

theorem wp_of_ok {a : α} (h : t s = .ok a s') : wp t Q R s ↔ Q a s' := by
  unfold wp
  rw [h]

theorem wp_of_error {e : ε} (h : t s = .error e s') : wp t Q R s ↔ R e s' := by
  unfold wp
  rw [h]

theorem wp.ok {a : α} (h : wp t Q R s) (ht : t s = .ok a s') : Q a s' := (wp_of_ok ht).1 h

theorem wp.error {e : ε} (h : wp t Q R s) (ht : t s = .error e s') : R e s' := (wp_of_error ht).1 h

theorem wp.mono (h : wp t Q R s) (hQ : ∀ a s', Q a s' → Q' a s') (hR : ∀ e s', R e s' → R' e s') :
    wp t Q' R' s := by
  unfold wp at *
  split <;> rename_i heq <;> rw [heq] at h
  · exact hQ _ _ h
  · exact hR _ _ h

theorem wp.and (h : wp t Q R s) (h' : wp t Q' R' s) :
    wp t (fun a s' => Q a s' ∧ Q' a s') (fun e s' => R e s' ∧ R' e s') s := by
  unfold wp at *
  split <;> rename_i heq <;> rw [heq] at h h' <;> exact ⟨h, h'⟩

/-- The state in which a task ends, whether it returns or raises. -/
def after (t : EStateM ε σ α) (s : σ) : σ :=
  match t s with
  | .ok _ s' => s'
  | .error _ s' => s'

theorem wp_after (P : σ → Prop) : wp t (fun _ => P) (fun _ => P) s ↔ P (after t s) := by
  unfold wp after
  rcases t s with ⟨a, s'⟩ | ⟨e, s'⟩ <;> rfl

/-! ## What each kind of task does -/

@[simp] theorem wp_pure (a : α) : wp (pure a : EStateM ε σ α) Q R s ↔ Q a s := Iff.rfl

@[simp] theorem wp_throw (e : ε) : wp (throw e : EStateM ε σ α) Q R s ↔ R e s := Iff.rfl

@[simp] theorem wp_get {Q : σ → σ → Prop} : wp (get : EStateM ε σ σ) Q R s ↔ Q s s := Iff.rfl

@[simp] theorem wp_modify {Q : PUnit → σ → Prop} (f : σ → σ) :
    wp (modify f : EStateM ε σ PUnit) Q R s ↔ Q ⟨⟩ (f s) := Iff.rfl

@[simp] theorem wp_bind {f : α → EStateM ε σ β} {Q : β → σ → Prop} :
    wp (t >>= f) Q R s ↔ wp t (fun a => wp (f a) Q R) R s := by
  unfold wp
  simp only [bind, EStateM.bind]
  rcases t s with ⟨a, s'⟩ | ⟨e, s'⟩ <;> rfl

@[simp] theorem wp_map {f : α → β} {Q : β → σ → Prop} :
    wp (f <$> t) Q R s ↔ wp t (fun a => Q (f a)) R s := by
  unfold wp
  simp only [Functor.map, EStateM.map]
  rcases t s with ⟨a, s'⟩ | ⟨e, s'⟩ <;> rfl

@[simp] theorem wp_tryCatch {h : ε → EStateM ε σ α} :
    wp (tryCatch t h) Q R s ↔ wp t Q (fun e => wp (h e) Q R) s := by
  unfold wp
  simp only [tryCatch, tryCatchThe, MonadExceptOf.tryCatch]
  delta EStateM.tryCatch
  rcases t s with ⟨a, s'⟩ | ⟨e, s'⟩ <;> rfl

@[simp] theorem wp_tryFinally {f : EStateM ε σ β} :
    wp (tryFinally t f) Q R s ↔
      wp t (fun a => wp f (fun _ => Q a) R) (fun e => wp f (fun _ => R e) R) s := by
  unfold wp
  simp only [tryFinally, tryFinally', Functor.map, EStateM.map]
  rcases t s with ⟨a, s'⟩ | ⟨e, s'⟩
  · rcases hf : f s' with ⟨b, s''⟩ | ⟨e', s''⟩ <;> simp [hf]
  · rcases hf : f s' with ⟨b, s''⟩ | ⟨e', s''⟩ <;> simp [hf]

/-! ## What a task returns -/

theorem map_eq_ok_iff {f : α → β} {b : β} :
    (f <$> t) s = .ok b s' ↔ ∃ a, t s = .ok a s' ∧ b = f a := by
  simp only [Functor.map, EStateM.map]
  cases t s with
  | error e s₁ => simp
  | ok a s₁ =>
    simp only [EStateM.Result.ok.injEq]
    constructor
    · rintro ⟨rfl, rfl⟩
      exact ⟨a, ⟨rfl, rfl⟩, rfl⟩
    · rintro ⟨a', ⟨rfl, rfl⟩, rfl⟩
      exact ⟨rfl, rfl⟩

theorem bind_eq_ok_iff {f : α → EStateM ε σ β} {b : β} :
    (t >>= f) s = .ok b s' ↔ ∃ a s₁, t s = .ok a s₁ ∧ f a s₁ = .ok b s' := by
  simp only [bind, EStateM.bind]
  cases t s with
  | error e s₁ => simp
  | ok a s₁ =>
    simp only [EStateM.Result.ok.injEq]
    constructor
    · intro h
      exact ⟨a, s₁, ⟨rfl, rfl⟩, h⟩
    · rintro ⟨a', s₂, ⟨rfl, rfl⟩, h⟩
      exact h

/-! ## Reasoning from the specification of a part -/

theorem wp_seq {f : α → EStateM ε σ β} {Q' : β → σ → Prop} (h : wp t Q R s)
    (hQ : ∀ a s', Q a s' → wp (f a) Q' R' s') (hR : ∀ e s', R e s' → R' e s') :
    wp (t >>= f) Q' R' s :=
  wp_bind.2 (h.mono hQ hR)

theorem wp_catch {f : ε → EStateM ε σ α} (h : wp t Q R s) (hQ : ∀ a s', Q a s' → Q' a s')
    (hR : ∀ e s', R e s' → wp (f e) Q' R' s') : wp (tryCatch t f) Q' R' s :=
  wp_tryCatch.2 (h.mono hQ hR)

theorem wp_finally {f : EStateM ε σ β} (h : wp t Q R s)
    (hQ : ∀ a s', Q a s' → wp f (fun _ => Q' a) R' s')
    (hR : ∀ e s', R e s' → wp f (fun _ => R' e) R' s') : wp (tryFinally t f) Q' R' s :=
  wp_tryFinally.2 (h.mono hQ hR)

/-! ## Loops -/

/-- A loop keeps an invariant on the items done so far. -/
theorem wp_forM {f : α → EStateM ε σ PUnit} (I : List α → σ → Prop) :
    ∀ {items done : List α} {s : σ}, I done s →
      (∀ done x s, x ∈ items → I done s → wp (f x) (fun _ => I (done ++ [x])) R s) →
        wp (items.forM f) (fun _ => I (done ++ items)) R s
  | [], done, s, hI, _ => by
    rw [List.append_nil]
    exact hI
  | x :: items, done, s, hI, hstep => by
    rw [show done ++ x :: items = done ++ [x] ++ items by simp]
    refine wp_seq (hstep done x s List.mem_cons_self hI) (fun _ s' hI' => ?_) fun _ _ h => h
    exact wp_forM I hI' fun done y s hy => hstep done y s (List.mem_cons_of_mem x hy)

/-! ## Tasks that add to a log -/

/-- From `s`, the task adds entries to the log, and returns as `Q` says or raises
    as `R` says. -/
def Does {ι : Type} (log : σ → List ι) (t : EStateM ε σ α) (Q : α → List ι → σ → Prop)
    (R : ε → List ι → σ → Prop) (s : σ) : Prop :=
  wp t (fun a s' => ∃ es, log s' = log s ++ es ∧ Q a es s')
    (fun e s' => ∃ es, log s' = log s ++ es ∧ R e es s') s

section Log

variable {ι : Type} {log : σ → List ι} {Q : α → List ι → σ → Prop} {R R' : ε → List ι → σ → Prop}
  {es : List ι}

theorem Does.ok {a : α} (h : Does log t Q R s) (ht : t s = .ok a s') :
    ∃ es, log s' = log s ++ es ∧ Q a es s' :=
  wp.ok h ht

theorem Does.error {e : ε} (h : Does log t Q R s) (ht : t s = .error e s') :
    ∃ es, log s' = log s ++ es ∧ R e es s' :=
  wp.error h ht

theorem Does.mono {Q' : α → List ι → σ → Prop} (h : Does log t Q R s)
    (hQ : ∀ a es s', Q a es s' → Q' a es s') (hR : ∀ e es s', R e es s' → R' e es s') :
    Does log t Q' R' s :=
  wp.mono h (fun a s' ⟨es, hlog, hq⟩ => ⟨es, hlog, hQ a es s' hq⟩)
    fun e s' ⟨es, hlog, hr⟩ => ⟨es, hlog, hR e es s' hr⟩

theorem Does.pure {a : α} (h : Q a [] s) : Does log (Pure.pure a : EStateM ε σ α) Q R s :=
  ⟨[], (List.append_nil _).symm, h⟩

theorem Does.throw {e : ε} (h : R e [] s) :
    Does log (MonadExcept.throw e : EStateM ε σ α) Q R s :=
  ⟨[], (List.append_nil _).symm, h⟩

/-- A part of a task, after the entries `es` were added. -/
theorem Does.after (hlog : log s' = log s ++ es)
    (h : Does log t (fun a es' => Q a (es ++ es')) (fun e es' => R e (es ++ es')) s') :
    wp t (fun a s'' => ∃ es, log s'' = log s ++ es ∧ Q a es s'')
      (fun e s'' => ∃ es, log s'' = log s ++ es ∧ R e es s'') s' :=
  wp.mono h
    (fun _ _ ⟨es', hlog', hq⟩ => ⟨es ++ es', by rw [hlog', hlog, List.append_assoc], hq⟩)
    fun _ _ ⟨es', hlog', hr⟩ => ⟨es ++ es', by rw [hlog', hlog, List.append_assoc], hr⟩

theorem Does.seq {f : α → EStateM ε σ β} {Q' : β → List ι → σ → Prop} (h : Does log t Q R s)
    (hQ : ∀ a es s', Q a es s' →
      Does log (f a) (fun b es' => Q' b (es ++ es')) (fun e es' => R' e (es ++ es')) s')
    (hR : ∀ e es s', R e es s' → R' e es s') : Does log (t >>= f) Q' R' s :=
  wp_seq h (fun a s' ⟨es, hlog, hq⟩ => Does.after hlog (hQ a es s' hq))
    fun e s' ⟨es, hlog, hr⟩ => ⟨es, hlog, hR e es s' hr⟩

theorem Does.map {f : α → β} {Q' : β → List ι → σ → Prop} (h : Does log t Q R s)
    (hQ : ∀ a es s', Q a es s' → Q' (f a) es s') : Does log (f <$> t) Q' R s :=
  wp_map.2 (wp.mono h (fun a s' ⟨es, hlog, hq⟩ => ⟨es, hlog, hQ a es s' hq⟩) fun _ _ h => h)

theorem Does.catch {f : ε → EStateM ε σ α} {Q' : α → List ι → σ → Prop} (h : Does log t Q R s)
    (hQ : ∀ a es s', Q a es s' → Q' a es s')
    (hR : ∀ e es s', R e es s' →
      Does log (f e) (fun a es' => Q' a (es ++ es')) (fun e' es' => R' e' (es ++ es')) s') :
    Does log (tryCatch t f) Q' R' s :=
  wp_catch h (fun a s' ⟨es, hlog, hq⟩ => ⟨es, hlog, hQ a es s' hq⟩)
    fun e s' ⟨es, hlog, hr⟩ => Does.after hlog (hR e es s' hr)

theorem Does.finally {f : EStateM ε σ β} {Q' : α → List ι → σ → Prop} (h : Does log t Q R s)
    (hQ : ∀ a es s', Q a es s' →
      Does log f (fun _ es' => Q' a (es ++ es')) (fun e es' => R' e (es ++ es')) s')
    (hR : ∀ e es s', R e es s' →
      Does log f (fun _ es' => R' e (es ++ es')) (fun e' es' => R' e' (es ++ es')) s') :
    Does log (tryFinally t f) Q' R' s := by
  refine wp_finally h (fun a s' ⟨es, hlog, hq⟩ => ?_) fun e s' ⟨es, hlog, hr⟩ => ?_
  · exact Does.after (Q := fun _ => Q' a) hlog (hQ a es s' hq)
  · exact Does.after (Q := fun _ => R' e) hlog (hR e es s' hr)

/-- Go on when the task raises. -/
def attempt (t : EStateM ε σ PUnit) : EStateM ε σ PUnit := tryCatch t fun _ => Pure.pure ⟨⟩

theorem Does.attempt {t : EStateM ε σ PUnit} {Q : PUnit → List ι → σ → Prop}
    {P : List ι → σ → Prop} (h : Does log t Q R s) (hQ : ∀ a es s', Q a es s' → P es s')
    (hR : ∀ e es s', R e es s' → P es s') : Does log (Fallible.attempt t) (fun _ => P) R' s := by
  refine h.catch hQ fun e es s' hr => Does.pure ?_
  rw [List.append_nil]
  exact hR e es s' hr

/-- A loop keeps an invariant on the items done so far and what they added. -/
theorem Does.forM {f : α → EStateM ε σ PUnit} {items : List α} (I : List α → List ι → σ → Prop)
    (hI : I [] [] s) (hstep : ∀ done x es s, x ∈ items → I done es s →
      Does log (f x) (fun _ es' => I (done ++ [x]) (es ++ es')) (fun e es' => R e (es ++ es')) s) :
    Does log (items.forM f) (fun _ => I items) R s := by
  have hloop : wp (items.forM f) (fun _ s' => ∃ es, log s' = log s ++ es ∧ I ([] ++ items) es s')
      (fun e s' => ∃ es, log s' = log s ++ es ∧ R e es s') s := by
    refine wp_forM (fun done s' => ∃ es, log s' = log s ++ es ∧ I done es s')
      ⟨[], (List.append_nil _).symm, hI⟩ ?_
    rintro done x s' hx ⟨es, hlog, hes⟩
    exact Does.after (Q := fun _ => I (done ++ [x])) hlog (hstep done x es s' hx hes)
  exact hloop

end Log

end Fallible
