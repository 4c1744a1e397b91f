/-
# Proofs.Fallible -- what a step that may fail leaves behind

`Ends x s done failed` is what a run of `x` from `s` comes to: a result and a
state that satisfy `done`, or a failure in a state that satisfies `failed`.
`Keeps I x` is the special case of an invariant that holds whatever happens.
Both have one rule for each way of building a step.

`Yields next s items` is what a step that is repeated comes to: the items that it
hands out one after the other before it has no more.
-/
import NetRegistry.Fallible

namespace NetRegistry

set_option autoImplicit false

namespace Fallible

variable {σ τ ε ε' α β : Type}

theorem run_get_bind (g : σ → Fallible σ ε α) (s : σ) : (get >>= g).run s = (g s).run s := rfl

theorem run_ok_bind (a : α) (g : α → Fallible σ ε β) (s : σ) :
    (ofExcept (.ok a) >>= g).run s = (g a).run s := rfl

/-- A run from `s` yields what satisfies `done`, or fails in a state that satisfies `failed`. -/
def Ends (x : Fallible σ ε α) (s : σ) (done : α → σ → Prop) (failed : σ → Prop) : Prop :=
  match x.run s with
  | (.ok a, t) => done a t
  | (.error _, t) => failed t

namespace Ends

variable {s : σ} {x : Fallible σ ε α} {done done' : α → σ → Prop} {failed failed' : σ → Prop}

theorem imp (ends : Ends x s done failed) (onDone : ∀ a t, done a t → done' a t)
    (onFailed : ∀ t, failed t → failed' t) : Ends x s done' failed' := by
  unfold Ends at *
  split
  · rename_i h
    rw [h] at ends
    exact onDone _ _ ends
  · rename_i h
    rw [h] at ends
    exact onFailed _ ends

/-- A run that is known to succeed. -/
theorem of_ok {a : α} {t : σ} (run : x.run s = (.ok a, t)) (holds : done a t) :
    Ends x s done failed := by
  unfold Ends
  rw [run]
  exact holds

/-- A run that is known to fail. -/
theorem of_error {e : ε} {t : σ} (run : x.run s = (.error e, t)) (holds : failed t) :
    Ends x s done failed := by
  unfold Ends
  rw [run]
  exact holds

theorem run_cases (ends : Ends x s done failed) :
    (∃ a t, x.run s = (.ok a, t) ∧ done a t) ∨ ∃ e t, x.run s = (.error e, t) ∧ failed t := by
  unfold Ends at ends
  split at ends <;> rename_i h
  · exact Or.inl ⟨_, _, h, ends⟩
  · exact Or.inr ⟨_, _, h, ends⟩

theorem pure {a : α} (holds : done a s) : Ends (Pure.pure a : Fallible σ ε α) s done failed :=
  holds

theorem bind_iff {f : α → Fallible σ ε β} {done : β → σ → Prop} :
    Ends (x >>= f) s done failed ↔ Ends x s (fun a t => Ends (f a) t done failed) failed := by
  unfold Ends
  rw [run_bind]
  cases x.run s with
  | mk r t => cases r <;> rfl

theorem bind {f : α → Fallible σ ε β} {done : β → σ → Prop}
    (ends : Ends x s (fun a t => Ends (f a) t done failed) failed) :
    Ends (x >>= f) s done failed :=
  bind_iff.mpr ends

/-- A first step of which the result is known. -/
theorem bind_known {f : α → Fallible σ ε β} {done : β → σ → Prop} {a : α} {P : σ → Prop}
    (first : Ends x s (fun r t => r = a ∧ P t) failed)
    (next : ∀ t, P t → Ends (f a) t done failed) : Ends (x >>= f) s done failed := by
  refine bind (first.imp (fun r t known => ?_) fun _ => id)
  obtain ⟨rfl, holds⟩ := known
  exact next t holds

theorem modify {f : σ → σ} {done : Unit → σ → Prop} (holds : done () (f s)) :
    Ends (Fallible.modify f : Fallible σ ε Unit) s done failed :=
  holds

theorem get {done : σ → σ → Prop} (holds : done s s) :
    Ends (Fallible.get : Fallible σ ε σ) s done failed :=
  holds

theorem attempt {done : Except ε α → σ → Prop} {failed : σ → Prop}
    (ends : Ends x s (fun a => done (.ok a)) fun t => ∀ e, done (.error e) t) :
    Ends (Fallible.attempt x : Fallible σ ε' (Except ε α)) s done failed := by
  unfold Ends at *
  rw [run_attempt]
  split at ends <;> rename_i h <;> rw [h]
  · exact ends
  · exact ends _

theorem onSecond {w : τ} {done : α → τ × σ → Prop} {failed : τ × σ → Prop}
    (ends : Ends x s (fun a t => done a (w, t)) fun t => failed (w, t)) :
    Ends (Fallible.onSecond x) (w, s) done failed := by
  unfold Ends at *
  rw [run_onSecond]
  split at ends <;> rename_i h <;> rw [h] <;> exact ends

theorem withFirst {w : τ} {x : Fallible (τ × σ) ε α}
    (ends : Ends x (w, s) (fun a t => done a t.2) fun t => failed t.2) :
    Ends (Fallible.withFirst w x) s done failed := by
  unfold Ends at *
  rw [run_withFirst]
  split at ends <;> rename_i h <;> rw [h] <;> exact ends

/-- A run over a list, described by what holds when some of its members are done. -/
theorem each {f : α → Fallible σ ε Unit} {all : List α} (Done : List α → σ → Prop)
    (step : ∀ past a rest s, all = past ++ a :: rest → Done past s →
      Ends (f a) s (fun _ => Done (past ++ [a])) failed)
    (past rest : List α) (split : all = past ++ rest) (start : Done past s) :
    Ends (Fallible.each f rest) s (fun _ => Done all) failed := by
  induction rest generalizing past s with
  | nil =>
    rw [List.append_nil] at split
    exact pure (split ▸ start)
  | cons a rest ih =>
    refine bind ((step past a rest s split start).imp (fun _ t done => ?_) fun _ => id)
    exact ih (past ++ [a]) (by simpa using split) done

end Ends

/-- Whatever happens, the invariant still holds. -/
def Keeps (I : σ → Prop) (x : Fallible σ ε α) : Prop := ∀ s, I s → Ends x s (fun _ => I) I

namespace Keeps

variable {I : σ → Prop} {x : Fallible σ ε α}

theorem run (keeps : Keeps I x) {s : σ} (holds : I s) : I (x.run s).2 := by
  have ends := keeps s holds
  unfold Ends at ends
  split at ends <;> rename_i h <;> rw [h] <;> exact ends

theorem of_run (keeps : ∀ s, I s → I (x.run s).2) : Keeps I x := by
  intro s holds
  have kept := keeps s holds
  unfold Ends
  split <;> rename_i h <;> rw [h] at kept <;> exact kept

theorem pure (a : α) : Keeps I (Pure.pure a : Fallible σ ε α) := fun _ => id

theorem bind {f : α → Fallible σ ε β} (first : Keeps I x) (next : ∀ a, Keeps I (f a)) :
    Keeps I (x >>= f) := fun s holds =>
  Ends.bind ((first s holds).imp (fun a t kept => next a t kept) fun _ => id)

theorem get : Keeps I (Fallible.get : Fallible σ ε σ) := fun _ => id

theorem fail (e : ε) : Keeps I (Fallible.fail e : Fallible σ ε α) := fun _ => id

theorem modify {f : σ → σ} (keeps : ∀ s, I s → I (f s)) :
    Keeps I (Fallible.modify f : Fallible σ ε Unit) := fun s holds => keeps s holds

theorem ofExcept (r : Except ε α) : Keeps I (Fallible.ofExcept r : Fallible σ ε α) :=
  of_run fun _ => id

theorem attempt (keeps : Keeps I x) :
    Keeps I (Fallible.attempt x : Fallible σ ε' (Except ε α)) :=
  of_run fun _ holds => keeps.run holds

theorem onSecond (keeps : Keeps I x) :
    Keeps (fun w : τ × σ => I w.2) (Fallible.onSecond x) := fun (_, s) holds =>
  Ends.onSecond (keeps s holds)

theorem withFirst {w : τ} {x : Fallible (τ × σ) ε α} (keeps : Keeps (fun w => I w.2) x) :
    Keeps I (Fallible.withFirst w x) := fun s holds =>
  Ends.withFirst (keeps (w, s) holds)

theorem each {f : α → Fallible σ ε Unit} (keeps : ∀ a, Keeps I (f a)) (l : List α) :
    Keeps I (Fallible.each f l) := by
  induction l with
  | nil => exact pure ()
  | cons a rest ih => exact (keeps a).bind fun _ => ih

end Keeps

/-- Repeating `next` from `s` hands out the items and never fails; after them there is nothing more,
however often it is asked for. -/
inductive Yields (next : Fallible σ ε (Option α)) : σ → List α → Prop
  | ended {s t : σ} (last : next.run s = (.ok none, t)) (stays : next.run t = (.ok none, t)) :
      Yields next s []
  | item {s t : σ} {a : α} {rest : List α} (first : next.run s = (.ok (some a), t))
      (later : Yields next t rest) : Yields next s (a :: rest)

theorem Yields.of_run_eq {next : Fallible σ ε (Option α)} {s t : σ} {items : List α}
    (yields : Yields next t items) (same : next.run s = next.run t) : Yields next s items := by
  cases yields with
  | ended last stays => exact .ended (same.trans last) stays
  | item first later => exact .item (same.trans first) later

end Fallible

end NetRegistry
