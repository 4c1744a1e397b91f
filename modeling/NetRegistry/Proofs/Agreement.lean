/-
# Proofs.Agreement -- two steps side by side

`Agree R x y` says that from states related by `R` the steps `x` and `y` yield the
same result, or fail with the same error, and leave states related by `R` again.
It has one rule for each way of building a step, so two programs of one shape
agree as soon as their smallest parts do.  `bind_of` is the rule for a second step
that relies on what the first one yields.
-/
import NetRegistry.Fallible

namespace NetRegistry

set_option autoImplicit false

namespace Fallible

variable {σ σ' τ ε α β : Type}

/-- From related states both come to the same, in states that are related again. -/
def Agree (R : σ → σ' → Prop) (x : Fallible σ ε α) (y : Fallible σ' ε α) : Prop :=
  ∀ s s', R s s' → (x.run s).1 = (y.run s').1 ∧ R (x.run s).2 (y.run s').2

/-- Pairs of which the first parts are the same and the second parts related. -/
def Beside (R : σ → σ' → Prop) (w : τ × σ) (w' : τ × σ') : Prop := w.1 = w'.1 ∧ R w.2 w'.2

/-- A step on the first part of a paired state. -/
def onFirst (x : Fallible τ ε α) : Fallible (τ × σ) ε α := fun (t, s) =>
  let r := x t
  (r.1, (r.2, s))

@[simp] theorem run_onFirst (x : Fallible τ ε α) (t : τ) (s : σ) :
    (onFirst x).run (t, s) = ((x.run t).1, ((x.run t).2, s)) := rfl

/-- Steps on the first part leave the second alone, one after the other. -/
theorem run_each_onFirst (sink : α → Fallible τ ε Unit) (l : List α) (t : τ) (s : σ) :
    (each (fun a => onFirst (sink a)) l).run (t, s) =
      (((each sink l).run t).1, (((each sink l).run t).2, s)) := by
  induction l generalizing t with
  | nil => rfl
  | cons a rest ih =>
    rw [each, each, run_bind, run_bind, run_onFirst]
    obtain ⟨_ | _, u⟩ := (sink a).run t
    · rfl
    · exact ih u

namespace Agree

variable {R : σ → σ' → Prop} {x : Fallible σ ε α} {y : Fallible σ' ε α} {s : σ} {s' : σ'}

/-- Both yield the same or both fail with the same. -/
theorem run_cases (agree : Agree R x y) (related : R s s') :
    (∃ a t t', x.run s = (.ok a, t) ∧ y.run s' = (.ok a, t') ∧ R t t') ∨
      ∃ e t t', x.run s = (.error e, t) ∧ y.run s' = (.error e, t') ∧ R t t' := by
  have both := agree s s' related
  generalize x.run s = outcome at both ⊢
  generalize y.run s' = outcome' at both ⊢
  obtain ⟨r, t⟩ := outcome
  obtain ⟨r', t'⟩ := outcome'
  obtain ⟨same, related⟩ := both
  cases same
  cases r with
  | ok a => exact Or.inl ⟨a, t, t', rfl, rfl, related⟩
  | error e => exact Or.inr ⟨e, t, t', rfl, rfl, related⟩

theorem pure (a : α) : Agree R (Pure.pure a : Fallible σ ε α) (Pure.pure a) :=
  fun _ _ related => ⟨rfl, related⟩

/-- Second steps need to agree on what the first ones can yield. -/
theorem bind_of {f : α → Fallible σ ε β} {g : α → Fallible σ' ε β} {Q : α → Prop}
    (first : Agree R x y)
    (yields : ∀ s s', R s s' → ∀ a t, x.run s = (.ok a, t) → Q a)
    (next : ∀ a, Q a → Agree R (f a) (g a)) : Agree R (x >>= f) (y >>= g) := by
  intro s s' related
  rw [run_bind, run_bind]
  rcases first.run_cases related with ⟨a, t, t', ran, ran', after⟩ | ⟨e, t, t', ran, ran', after⟩
  · rw [ran, ran']
    exact next a (yields s s' related a t ran) t t' after
  · rw [ran, ran']
    exact ⟨rfl, after⟩

theorem bind {f : α → Fallible σ ε β} {g : α → Fallible σ' ε β} (first : Agree R x y)
    (next : ∀ a, Agree R (f a) (g a)) : Agree R (x >>= f) (y >>= g) :=
  bind_of (Q := fun _ => True) first (fun _ _ _ _ _ _ => trivial) fun a _ => next a

/-- Programs that look at their states first. -/
theorem get_bind {f : σ → Fallible σ ε β} {g : σ' → Fallible σ' ε β}
    (next : ∀ s s', R s s' → Agree R (f s) (g s')) :
    Agree R (Fallible.get >>= f) (Fallible.get >>= g) :=
  fun s s' related => next s s' related s s' related

theorem modify {f : σ → σ} {g : σ' → σ'} (keeps : ∀ s s', R s s' → R (f s) (g s')) :
    Agree R (Fallible.modify f : Fallible σ ε Unit) (Fallible.modify g) :=
  fun s s' related => ⟨rfl, keeps s s' related⟩

theorem onSecond (agree : Agree R x y) :
    Agree (Beside (τ := τ) R) (Fallible.onSecond x) (Fallible.onSecond y) := by
  rintro ⟨t, s⟩ ⟨t', s'⟩ ⟨first, second⟩
  obtain ⟨same, related⟩ := agree s s' second
  exact ⟨same, first, related⟩

theorem withFirst {t : τ} {x : Fallible (τ × σ) ε α} {y : Fallible (τ × σ') ε α}
    (agree : Agree (Beside R) x y) :
    Agree R (Fallible.withFirst t x) (Fallible.withFirst t y) := by
  intro s s' related
  obtain ⟨same, -, after⟩ := agree (t, s) (t, s') ⟨rfl, related⟩
  exact ⟨same, after⟩

theorem each {f : α → Fallible σ ε Unit} {g : α → Fallible σ' ε Unit}
    (agree : ∀ a, Agree R (f a) (g a)) (l : List α) :
    Agree R (Fallible.each f l) (Fallible.each g l) := by
  induction l with
  | nil => exact pure ()
  | cons a rest ih => exact (agree a).bind fun _ => ih

end Agree

end Fallible

end NetRegistry
