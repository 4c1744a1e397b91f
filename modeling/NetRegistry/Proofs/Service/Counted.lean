/-
# Proofs.Service.Counted -- what a finished import reports

Along a history of imports and rebuilds an open import has counted as new what the
tables have more than those it would go back to (`counted_after`).  Its statistics
therefore account for the tables from before it began and those from after it was
finished, whatever was asked for and refused in between.

**Main theorem** `finished_accounted`.
-/
import NetRegistry.Proofs.Import.Counted
import NetRegistry.Proofs.Service.Frame

namespace NetRegistry

set_option autoImplicit false

namespace Service

/-- What the open import has counted as new is what has been added since it began. -/
def Counted (s : Service) : Prop :=
  ∀ saved i, s.db.saved = some saved → s.importer = some i → i.Tallies saved s.db.tables

section Moves

variable {α : Type} {r : Request α} {a : Except Failure α} {s u : Service}

theorem Moves.counted (moves : Moves r a s u) (counted : s.Counted) : u.Counted := by
  cases moves with
  | refused => exact counted
  | nothing => exact counted
  | @began name t i begins fresh =>
    intro saved j stored held
    cases stored
    cases held
    exact .begun fresh name
  | wrote insert continues =>
    intro saved j stored held
    cases stored
    cases held
    exact (counted _ _ rfl rfl).goesOn continues
  | finished | aborted | dropped | rebuilt =>
    intro saved j stored
    cases stored

end Moves

theorem counted_after {history : List Event} (routine : ∀ e ∈ history, e.Routine) :
    (empty.after history).Counted := by
  induction history with
  | nil =>
    intro saved i stored
    cases stored
  | cons e past ih =>
    exact (moves_after routine).counted (ih fun d member => routine d (List.mem_cons_of_mem _ member))

variable {past later : List Event} {name : String} {now : Nat} {i : Importer}

/-- **The statistics of a finished import account for every row.** New and deleted are the keys of the
registrar that came and went between the begin of the import and its end, and the serial is the one
after that of its last finished import. -/
theorem finished_accounted
    (routine : ∀ e ∈ ⟨.finishImport now⟩ :: (later ++ ⟨.beginImport name⟩ :: past), e.Routine)
    (accepted : answer (.beginImport name) (empty.after past) = .ok i)
    (unended : ∀ e ∈ later, e.request.endsImport = false) :
    ∃ stats, answer (.finishImport now) (empty.after (later ++ ⟨.beginImport name⟩ :: past)) =
        .ok stats ∧
      stats.Accounts name (empty.after past).db.tables
        (empty.after (⟨.finishImport now⟩ :: (later ++ ⟨.beginImport name⟩ :: past))).db.tables := by
  have earlier := fun e member => routine e (List.mem_cons_of_mem _ member)
  obtain ⟨saved, v, j, before, opened⟩ :=
    opened_after (fun e member => earlier e (List.mem_append_right _ member)) accepted
  obtain ⟨t, k, still⟩ := open_after earlier opened unended
  obtain ⟨d, noted⟩ := current_after earlier accepted unended
  have mirroring := mirroring_after earlier
  have counted := counted_after earlier
  obtain ⟨u, answered, state, settled⟩ := finish_answered t saved k now
  have after : empty.after (⟨.finishImport now⟩ :: (later ++ ⟨.beginImport name⟩ :: past)) =
      ⟨⟨u, none⟩, none⟩ := by
    rw [← state, ← still]
    rfl
  rw [still] at mirroring counted
  rw [still, before, after]
  refine ⟨k.settledStats t, answered, ?_⟩
  generalize ledger (later ++ ⟨.beginImport name⟩ :: past) = l at noted mirroring
  cases mirroring with
  | importing mirrors begins writes current =>
    rw [noted] at current
    obtain ⟨rfl, rfl⟩ := Prod.mk.inj (Option.some.inj current)
    exact mirrors.accounted begins writes (counted _ _ rfl rfl) settled

/-- A report of one and the same netblock. -/
def upperBlock (name : String) : Event :=
  ⟨.insertNetblock .v4 (.range (.wrap .v4 512) (.wrap .v4 767) 24) ⟨none, name, ""⟩⟩

/-- After an import that was dropped, the next one reports two records twice. -/
def repeated : List Event :=
  [upperBlock "B", ⟨.insertOrg ⟨"NEW", "Renamed", ""⟩⟩, upperBlock "A",
    ⟨.insertOrg ⟨"NEW", "An organization", ""⟩⟩]

theorem finished_accounted_repeated :
    (∀ e ∈ ⟨.finishImport 9⟩ :: (repeated ++ ⟨.beginImport "TEST"⟩ :: dropped), e.Routine) ∧
      (∃ i, answer (.beginImport "TEST") (empty.after dropped) = .ok i) ∧
      ∃ stats, stats = ⟨2, ⟨1, 1⟩, ⟨⟨1, 1⟩, ⟨0, 1⟩⟩⟩ ∧
        answer (.finishImport 9) (empty.after (repeated ++ ⟨.beginImport "TEST"⟩ :: dropped)) =
          .ok stats ∧
        stats.Accounts "TEST" (empty.after dropped).db.tables
          (empty.after (⟨.finishImport 9⟩ ::
            (repeated ++ ⟨.beginImport "TEST"⟩ :: dropped))).db.tables := by
  have routine : ∀ e ∈ ⟨.finishImport 9⟩ :: (repeated ++ ⟨.beginImport "TEST"⟩ :: dropped),
      e.Routine := by
    intro e member
    rcases List.mem_cons.mp member with rfl | member
    · exact ⟨rfl, fun _ => rfl⟩
    rcases List.mem_append.mp member with now | before
    · simp only [repeated, List.mem_cons, List.not_mem_nil, or_false] at now
      rcases now with rfl | rfl | rfl | rfl <;> exact ⟨rfl, fun _ => rfl⟩
    rcases List.mem_cons.mp before with rfl | before
    · exact ⟨rfl, fun _ => rfl⟩
    · exact dropped_routine e before
  have unended : ∀ e ∈ repeated, e.request.endsImport = false := by decide
  have accepted : ∃ i, answer (.beginImport "TEST") (empty.after dropped) = .ok i := ⟨_, rfl⟩
  obtain ⟨i, began⟩ := accepted
  obtain ⟨stats, answered, accounts⟩ := finished_accounted routine began unended
  refine ⟨routine, ⟨i, began⟩, stats, ?_, answered, accounts⟩
  exact Except.ok.inj (answered.symm.trans rfl)

end Service

end NetRegistry
