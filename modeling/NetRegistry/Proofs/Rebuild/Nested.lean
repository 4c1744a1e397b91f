/-
# Proofs.Rebuild.Nested -- operations that find a transaction open

Every operation that has a transaction of its own begins it first.  While another
one is open that call fails, whatever the fault plan says, and the operation ends
there: it made no call but attempts to begin, and the database is untouched
(`Session.Barred`).  No operation rolls back a transaction that it did not begin.

* `list_barred`, `all_barred`: lists are reported as rolled back or skipped.
* `coverage_barred`, `refresh_barred`: the coverage is not replaced.
* `Importer.begin_barred`: no import starts.
-/
import NetRegistry.Proofs.Rebuild.Pass

namespace NetRegistry

set_option autoImplicit false

namespace Session

variable {s u v : Session}

/-- All that happened is that transactions could not be begun. -/
structure Barred (s v : Session) : Prop where
  db : v.db = s.db
  calls : ∃ attempts, v.calls = attempts ++ s.calls ∧ ∀ c ∈ attempts, c = .begin

namespace Barred

theorem refl (s : Session) : s.Barred s := ⟨rfl, [], rfl, fun _ member => by cases member⟩

theorem trans (first : s.Barred u) (second : u.Barred v) : s.Barred v := by
  obtain ⟨early, calls, begins⟩ := first.calls
  obtain ⟨late, calls', begins'⟩ := second.calls
  refine ⟨second.db.trans first.db, late ++ early, ?_, ?_⟩
  · rw [calls', calls, List.append_assoc]
  · intro c member
    rcases List.mem_append.mp member with late | early
    · exact begins' c late
    · exact begins c early

theorem noted (barred : s.Barred v) (line : LogLine) : s.Barred (v.noted line) :=
  ⟨barred.db, barred.calls⟩

theorem notedAll (barred : s.Barred v) (lines : List LogLine) : s.Barred (v.notedAll lines) :=
  ⟨(notedAll_db lines).trans barred.db, (notedAll_calls lines).symm ▸ barred.calls⟩

theorem inTransaction (barred : s.Barred v) (opened : s.db.inTransaction = true) :
    v.db.inTransaction = true :=
  barred.db.symm ▸ opened

end Barred

/-- A transaction cannot be begun inside another. -/
theorem begin_barred (plan : FaultPlan) (opened : s.db.inTransaction = true) :
    ∃ e v, (begin plan).run s = (.error e, v) ∧ s.Barred v := by
  have attempt : s.Barred { s with calls := .begin :: s.calls } :=
    ⟨rfl, [.begin], rfl, fun _ member => List.mem_singleton.mp member⟩
  cases fate : plan .begin (s.callCount .begin) with
  | some e => exact ⟨e, _, call_struck Database.begin fate, attempt⟩
  | none =>
    refine ⟨.storage .nestedBegin, _, ?_, attempt⟩
    have refused : Database.begin.run s.db = (.error .nestedBegin, s.db) := if_pos opened
    rw [begin, call_unstruck Database.begin fate, refused]
    rfl

end Session

namespace Rebuild

variable (plan : FaultPlan) (mode : FetchMode) {s : Session}

/-- A rebuild inside another transaction reports that it rolled back, and rolled nothing back. -/
theorem list_barred (opened : s.db.inTransaction = true) (name : String) (p : Predicate) :
    (∃ e, (list plan mode name p s).1 = .rolledBack e) ∧ s.Barred (list plan mode name p s).2 := by
  have noted := ((Session.Barred.refl s).noted ⟨.info, s!"  building {name}"⟩).noted
    ⟨.debug, s!"  {name}: {p.text}"⟩
  obtain ⟨e, v, run, barred⟩ := Session.begin_barred plan (noted.inTransaction opened)
  unfold list
  dsimp only
  rw [run]
  exact ⟨⟨e, rfl⟩, (noted.trans barred).noted _⟩

theorem definition_barred (opened : s.db.inTransaction = true) (defs : List Definition)
    (d : Definition) :
    (definition plan mode defs d s).1.isCommitted = false ∧
      s.Barred (definition plan mode defs d s).2 := by
  have noted := (Session.Barred.refl s).notedAll
    ((Definition.compile defs d.name).2.map (·.line))
  unfold definition
  cases compiled : Definition.compile defs d.name with
  | mk found notes =>
    rw [compiled] at noted
    cases found with
    | none => exact ⟨rfl, noted.noted _⟩
    | some p =>
      obtain ⟨⟨e, outcome⟩, barred⟩ := list_barred plan mode (noted.inTransaction opened) d.name p
      dsimp only
      rw [outcome]
      exact ⟨rfl, noted.trans barred⟩

theorem definitions_barred (opened : s.db.inTransaction = true) (defs ds : List Definition) :
    (∀ l ∈ (definitions plan mode defs ds s).1, l.2.isCommitted = false) ∧
      s.Barred (definitions plan mode defs ds s).2 := by
  induction ds generalizing s with
  | nil => exact ⟨fun l member => (List.not_mem_nil member).elim, .refl s⟩
  | cons d rest ih =>
    obtain ⟨outcome, barred⟩ := definition_barred plan mode opened defs d
    obtain ⟨outcomes, later⟩ := ih (barred.inTransaction opened)
    refine ⟨fun l member => ?_, barred.trans later⟩
    rcases List.mem_cons.mp member with rfl | member
    · exact outcome
    · exact outcomes l member

/-- **A pass inside another transaction** commits no list and changes nothing. -/
theorem all_barred (opened : s.db.inTransaction = true) (defs : List Definition) :
    (∀ l ∈ (all plan mode defs s).1.lists, l.2.isCommitted = false) ∧
      s.Barred (all plan mode defs s).2 := by
  have noted := ((Session.Barred.refl s).notedAll ((resolve defs).notes.map (·.line))).noted
    ⟨.info, s!"rebuilding {(resolve defs).order.length} lists"⟩
  obtain ⟨outcomes, barred⟩ := definitions_barred plan mode (noted.inTransaction opened) defs
    (resolve defs).order
  exact ⟨outcomes, (noted.trans barred).noted _⟩

theorem coverage_barred (opened : s.db.inTransaction = true) :
    ∃ e v, (coverage plan).run s = (.error e, v) ∧ s.Barred v := by
  have noted := (Session.Barred.refl s).noted ⟨.info, "rebuilding coverage union"⟩
  obtain ⟨e, v, run, barred⟩ := Session.begin_barred plan (noted.inTransaction opened)
  refine ⟨e, v, ?_, noted.trans barred⟩
  show coverage plan s = _
  unfold coverage
  dsimp only
  rw [run]

/-- **A refresh inside another transaction** replaces no coverage, commits no list and changes
nothing. -/
theorem refresh_barred (opened : s.db.inTransaction = true) (defs : List Definition) :
    (refresh plan mode defs s).1.coverage = none ∧
      (∀ l ∈ (refresh plan mode defs s).1.lists.lists, l.2.isCommitted = false) ∧
      s.Barred (refresh plan mode defs s).2 := by
  obtain ⟨e, v, run, barred⟩ := coverage_barred plan opened
  obtain ⟨outcomes, later⟩ := all_barred plan mode (barred.inTransaction opened) defs
  unfold refresh
  rw [run]
  exact ⟨rfl, outcomes, barred.trans later⟩

end Rebuild

namespace Importer

/-- An import cannot start inside another transaction, which it leaves open. -/
theorem begin_barred {s : Session} (opened : s.db.inTransaction = true) (name : String) :
    ∃ e v, (begin name).run s = (.error e, v) ∧ s.Barred v := by
  obtain ⟨e, v, run, barred⟩ := Session.begin_barred .none opened
  refine ⟨e, v, ?_, barred⟩
  rw [begin, Fallible.run_bind, run]

end Importer

end NetRegistry
