/-
# Fallible -- steps that may fail and keep what they did

A `Fallible σ ε α` works on a state `σ` and either yields an `α` or fails with
an `ε`.  A failure keeps the state reached so far: writes made before it stay,
and undoing them is the business of whoever asks for a rollback.
`run_bind` is the one equation that reasoning about such programs needs.
-/

namespace NetRegistry

set_option autoImplicit false

/-- A step on a state that may fail. -/
def Fallible (σ ε α : Type) : Type := σ → Except ε α × σ

namespace Fallible

variable {σ τ ε ε' α β : Type}

/-- The outcome of a step from a given state. -/
def run (x : Fallible σ ε α) (s : σ) : Except ε α × σ := x s

/-- Do one step, and the next with its result unless it failed. -/
def andThen (x : Fallible σ ε α) (f : α → Fallible σ ε β) : Fallible σ ε β := fun s =>
  match x s with
  | (.ok a, t) => f a t
  | (.error e, t) => (.error e, t)

instance : Monad (Fallible σ ε) where
  pure a := fun s => (.ok a, s)
  bind := andThen

@[simp] theorem run_pure (a : α) (s : σ) : (pure a : Fallible σ ε α).run s = (.ok a, s) := rfl

theorem run_bind (x : Fallible σ ε α) (f : α → Fallible σ ε β) (s : σ) :
    (x >>= f).run s =
      match x.run s with
      | (.ok a, t) => (f a).run t
      | (.error e, t) => (.error e, t) := rfl

instance : LawfulMonad (Fallible σ ε) :=
  LawfulMonad.mk' (Fallible σ ε)
    (fun x => by
      funext s
      show andThen x pure s = x s
      unfold andThen
      cases h : x s with
      | mk r t => cases r <;> rfl)
    (fun _ _ => rfl)
    (fun x f g => by
      funext s
      show andThen (andThen x f) g s = andThen x (fun a => andThen (f a) g) s
      unfold andThen
      cases h : x s with
      | mk r t => cases r <;> rfl)

def get : Fallible σ ε σ := fun s => (.ok s, s)

def modify (f : σ → σ) : Fallible σ ε Unit := fun s => (.ok (), f s)

def fail (e : ε) : Fallible σ ε α := fun s => (.error e, s)

/-- Go on with a result that was computed without the state. -/
def ofExcept (r : Except ε α) : Fallible σ ε α := fun s => (r, s)

/-- Do a step and go on with its outcome, failed or not. -/
def attempt (x : Fallible σ ε α) : Fallible σ ε' (Except ε α) := fun s =>
  let r := x s
  (.ok r.1, r.2)

/-- A step on the second part of a paired state. -/
def onSecond (x : Fallible σ ε α) : Fallible (τ × σ) ε α := fun (t, s) =>
  let r := x s
  (r.1, (t, r.2))

/-- A step on a pair whose first part exists for this step only. -/
def withFirst (t : τ) (x : Fallible (τ × σ) ε α) : Fallible σ ε α := fun s =>
  let r := x (t, s)
  (r.1, r.2.2)

@[simp] theorem run_get (s : σ) : (get : Fallible σ ε σ).run s = (.ok s, s) := rfl
@[simp] theorem run_modify (f : σ → σ) (s : σ) :
    (modify f : Fallible σ ε Unit).run s = (.ok (), f s) := rfl
@[simp] theorem run_fail (e : ε) (s : σ) : (fail e : Fallible σ ε α).run s = (.error e, s) := rfl
@[simp] theorem run_ofExcept (r : Except ε α) (s : σ) :
    (ofExcept r : Fallible σ ε α).run s = (r, s) := rfl
@[simp] theorem run_attempt (x : Fallible σ ε α) (s : σ) :
    (attempt x : Fallible σ ε' (Except ε α)).run s = (.ok (x.run s).1, (x.run s).2) := rfl
@[simp] theorem run_onSecond (x : Fallible σ ε α) (t : τ) (s : σ) :
    (onSecond x : Fallible (τ × σ) ε α).run (t, s) = ((x.run s).1, (t, (x.run s).2)) := rfl

@[simp] theorem run_withFirst (t : τ) (x : Fallible (τ × σ) ε α) (s : σ) :
    (withFirst t x).run s = ((x.run (t, s)).1, (x.run (t, s)).2.2) := rfl

/-- Do a step for each member of a list, up to the first that fails. -/
def each (f : α → Fallible σ ε Unit) : List α → Fallible σ ε Unit
  | [] => pure ()
  | a :: rest => do f a; each f rest

end Fallible

end NetRegistry
