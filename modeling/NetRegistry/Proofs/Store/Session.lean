/-
# Proofs.Store.Session -- calls under a fault plan

`FaultPlan.Struck plan before after` says that a call made after the calls
`before` and among the calls `after` was made to fail.  A session that works
inside a transaction is either *calm*, no call since `before` having failed, and
then stands at known tables, or *hit*, and then the tables to roll back to are
still what they were.  `call_ends` is the rule for one call; everything that a
program of calls does follows from it and the rules of `Fallible.Ends`.

A scan of sound rows hands its ranges to the sink one by one, in either mode
(`scanRows_toRow`).
-/
import NetRegistry.Proofs.Store.Sound

namespace NetRegistry

set_option autoImplicit false

open Fallible (Ends)

/-! ## Calls that fail -/

/-- A call of the history `after` that is not in `before` was made to fail; both are newest first. -/
def FaultPlan.Struck (plan : FaultPlan) (before after : List Call) : Prop :=
  ∃ c older, before <:+ older ∧ c :: older <:+ after ∧
    (plan c.method (older.countP (·.method == c.method))).isSome = true

namespace FaultPlan

variable {plan : FaultPlan} {before after later : List Call} {c : Call}

theorem not_struck_self : ¬ plan.Struck before before := by
  rintro ⟨c, older, since, inside, -⟩
  have shorter := since.length_le
  have longer := inside.length_le
  rw [List.length_cons] at longer
  omega

theorem Struck.mono (struck : plan.Struck before after) (grows : after <:+ later) :
    plan.Struck before later := by
  obtain ⟨c, older, since, inside, fails⟩ := struck
  exact ⟨c, older, since, inside.trans grows, fails⟩

theorem struck_cons_iff (since : before <:+ after) :
    plan.Struck before (c :: after) ↔
      plan.Struck before after ∨
        (plan c.method (after.countP (·.method == c.method))).isSome = true := by
  constructor
  · rintro ⟨d, older, since, inside, fails⟩
    rcases List.suffix_cons_iff.mp inside with same | inside
    · cases same
      exact Or.inr fails
    · exact Or.inl ⟨d, older, since, inside, fails⟩
  · rintro (struck | fails)
    · exact struck.mono (List.suffix_cons _ _)
    · exact ⟨c, after, since, List.suffix_refl _, fails⟩

/-- With no failing calls rollbacks work. -/
theorem none_works (n : Nat) : none .rollback n = Option.none := rfl

theorem none_not_struck : ¬ none.Struck before after := by
  rintro ⟨c, older, -, -, fails⟩
  cases fails

end FaultPlan

namespace Session

variable {plan : FaultPlan} {before : List Call} {db db' : Database} {t u : Tables}
  {saved : Option Tables} {s : Session} {α τ : Type}

/-- No call since `before` has failed, and the session stands at a known database. -/
structure Calm (plan : FaultPlan) (before : List Call) (db : Database) (s : Session) : Prop where
  since : before <:+ s.calls
  unstruck : ¬ plan.Struck before s.calls
  db : s.db = db

/-- A call since `before` has failed, and a rollback still goes back to the same tables. -/
structure Hit (plan : FaultPlan) (before : List Call) (saved : Option Tables) (s : Session) :
    Prop where
  since : before <:+ s.calls
  struck : plan.Struck before s.calls
  saved : s.db.saved = saved

theorem calm_self (s : Session) : Calm plan s.calls s.db s :=
  ⟨List.suffix_refl _, FaultPlan.not_struck_self, rfl⟩

/-- A call that the plan strikes does nothing. -/
theorem call_struck {c : Call} (x : Fallible Database StorageError α) {e : Error}
    (fate : plan c.method (s.callCount c.method) = some e) :
    (call plan c x).run s = (.error e, { s with calls := c :: s.calls }) := by
  show call plan c x s = _
  unfold call
  rw [fate]

/-- A call that the plan does not strike does its work. -/
theorem call_unstruck {c : Call} (x : Fallible Database StorageError α)
    (fate : plan c.method (s.callCount c.method) = none) :
    (call plan c x).run s = ((x.run s.db).1.mapError .storage,
      { s with calls := c :: s.calls, db := (x.run s.db).2 }) := by
  show call plan c x s = _
  unfold call
  rw [fate]
  rfl

/-- A call on a calm session does its work and leaves it calm, or does nothing and leaves it hit. -/
theorem call_ends_or_unchanged {c : Call} {x : Fallible Database StorageError α} {a : α}
    (calm : Calm plan before db s) (run : x.run db = (.ok a, db')) :
    Ends (call plan c x) s (fun r v => r = a ∧ Calm plan before db' v)
      fun v => v.db = db ∧ Hit plan before db.saved v := by
  have since : before <:+ c :: s.calls := calm.since.trans (List.suffix_cons _ _)
  unfold Ends
  cases fate : plan c.method (s.callCount c.method) with
  | some e =>
    rw [call_struck x fate]
    have fails : (plan c.method (s.calls.countP (·.method == c.method))).isSome = true :=
      Option.isSome_iff_exists.mpr ⟨e, fate⟩
    exact ⟨calm.db, since, (FaultPlan.struck_cons_iff calm.since).mpr (Or.inr fails),
      congrArg _ calm.db⟩
  | none =>
    rw [call_unstruck x fate, calm.db, run]
    refine ⟨rfl, since, ?_, rfl⟩
    rw [FaultPlan.struck_cons_iff calm.since]
    rintro (struck | fails)
    · exact calm.unstruck struck
    · change (plan c.method (s.callCount c.method)).isSome = true at fails
      rw [fate] at fails
      cases fails

theorem call_ends {c : Call} {x : Fallible Database StorageError α} {a : α}
    (calm : Calm plan before db s) (run : x.run db = (.ok a, db')) :
    Ends (call plan c x) s (fun r v => r = a ∧ Calm plan before db' v)
      (Hit plan before db.saved) :=
  (call_ends_or_unchanged calm run).imp (fun _ _ => id) fun _ => And.right

theorem run_exec {stmt : Statement α} {a : α} (on : s.db = ⟨t, saved⟩)
    (run : stmt t = .ok (a, u)) :
    (exec stmt).run s = (.ok a, { s with db := ⟨u, saved⟩ }) := by
  obtain ⟨_, calls, log⟩ := s
  cases on
  show onDatabase (Database.exec stmt) _ = _
  unfold onDatabase Database.exec Fallible.run
  dsimp only
  rw [run]
  rfl

/-- A statement that succeeds on the tables. -/
theorem exec_ends {c : Call} {stmt : Statement α} {a : α} (calm : Calm plan before ⟨t, saved⟩ s)
    (run : stmt t = .ok (a, u)) :
    Ends (call plan c (Database.exec stmt)) s (fun r v => r = a ∧ Calm plan before ⟨u, saved⟩ v)
      (Hit plan before saved) := by
  have ran : (Database.exec stmt).run ⟨t, saved⟩ = (.ok a, ⟨u, saved⟩) := by
    show Database.exec stmt ⟨t, saved⟩ = _
    unfold Database.exec
    rw [run]
  exact call_ends calm ran

/-! ## Transactions -/

theorem run_begin (works : ∀ n, plan .begin n = none) (closed : s.db = ⟨t, none⟩) :
    (begin plan).run s = (.ok (), { s with calls := .begin :: s.calls, db := ⟨t, some t⟩ }) := by
  obtain ⟨_, calls, log⟩ := s
  cases closed
  exact call_unstruck Database.begin (works _)

/-- A rollback that works goes back to the tables at the start of the transaction. -/
theorem run_rollback (works : ∀ n, plan .rollback n = none) (opened : s.db.saved = some t) :
    (rollback plan).run s =
      (.ok (), { s with calls := .rollback :: s.calls, db := ⟨t, none⟩ }) := by
  obtain ⟨⟨u, _⟩, calls, log⟩ := s
  cases opened
  exact call_unstruck Database.rollback (works _)

/-! ## Scans -/

variable {f : Family}

theorem checked_eq_ok {r : Range f} (ordered : r.first ≤ r.last) : checked r = .ok r := by
  have upright : ¬ r.last < r.first := Nat.not_lt.mpr ordered
  rw [checked, Range.of?, if_neg upright]
  rfl

theorem decodeAll_toRow (ranges : List (Range f)) :
    decodeAll f (ranges.map Range.toRow) = .ok ranges := by
  induction ranges with
  | nil => rfl
  | cons r rest ih =>
    rw [List.map_cons, decodeAll, bounds_toRow, ih]
    rfl

theorem feed_eq_each {sink : Range f → Fallible τ Error Unit} {ranges : List (Range f)}
    (ordered : ∀ r ∈ ranges, r.first ≤ r.last) :
    feed sink ranges = (do Fallible.each sink ranges; return ranges.length) := by
  induction ranges with
  | nil => rfl
  | cons r rest ih =>
    have later := ih fun s member => ordered s (List.mem_cons_of_mem _ member)
    rw [feed, checked_eq_ok (ordered r List.mem_cons_self), later, Fallible.each]
    simp only [bind_assoc, pure_bind, List.length_cons]
    rfl

theorem stream_toRow {sink : Range f → Fallible τ Error Unit} {ranges : List (Range f)} :
    stream f sink (ranges.map Range.toRow) = feed sink ranges := by
  induction ranges with
  | nil => rfl
  | cons r rest ih =>
    rw [List.map_cons, stream, bounds_toRow, ih]
    rfl

/-- Rows of ranges that are not inverted reach the sink one by one, in either mode. -/
theorem scanRows_toRow {sink : Range f → Fallible τ Error Unit} {ranges : List (Range f)}
    (mode : FetchMode) (ordered : ∀ r ∈ ranges, r.first ≤ r.last) :
    scanRows f mode (ranges.map Range.toRow) sink =
      (do Fallible.each sink ranges; return ranges.length) := by
  rw [← feed_eq_each ordered]
  cases mode with
  | stream => exact stream_toRow
  | buffered =>
    rw [scanRows, decodeAll_toRow]
    rfl

end Session

end NetRegistry
