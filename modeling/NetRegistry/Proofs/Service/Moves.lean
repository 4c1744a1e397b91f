/-
# Proofs.Service.Moves -- what a request of an import or a rebuild can do

`Moves r a s u` lists all that can happen when the request `r` gets the answer `a`:
an import begins, writes, is finished or is given up, lists or the coverage are
rebuilt, or nothing happens.  What holds along a history of such requests is
proved from these cases alone; only here are the operations opened.

**Main theorem** `moves_after`: in a routine history every request moves the
service so, and a transaction is open exactly while an import is.
-/
import NetRegistry.Proofs.Import.Session
import NetRegistry.Proofs.Rebuild.Passed
import NetRegistry.Proofs.Service.History

namespace NetRegistry

set_option autoImplicit false

open Importer (Begins Continues Delivery Known Settled Writes)
open Rebuild (Passed)

namespace Request

/-- The delivery of the open import after the request, by its answer. -/
def delivered : {α : Type} → Request α → Except Failure α → Delivery → Delivery
  | _, .insertOrg o, .ok _, d => d.withOrg o
  | _, .insertNetblock _ source a, .ok _, d =>
      match Service.record source a with
      | .ok n => d.withNetblock n
      | .error _ => d
  | _, .insertRange first last a, .ok _, d => d.withBlocks a (Range.blocks ⟨first, last⟩)
  | _, _, _, d => d

/-- What the answer reports of lists. -/
def outcomes : {α : Type} → Request α → Except Failure α → List (String × Outcome)
  | _, .rebuild _ _ _, .ok report => report.lists
  | _, .rebuildList _ _ name _, .ok outcome => [(name, outcome)]
  | _, .refresh _ _ _, .ok report => report.lists.lists
  | _, _, _ => []

end Request

namespace Event.Routine

variable {e : Event}

theorem visible (routine : e.Routine) : e.request.isPublic = true := by
  obtain ⟨kind, -⟩ := routine
  cases e with
  | mk request => cases request <;> first | rfl | exact Bool.noConfusion kind

/-- Routine requests leave transactions to the operations. -/
theorem orderly (routine : e.Routine) : e.Orderly := by
  refine ⟨routine.visible, ?_, routine.rollsBack⟩
  obtain ⟨kind, -⟩ := routine
  cases e with
  | mk request => cases request <;> first | rfl | exact Bool.noConfusion kind

end Event.Routine

namespace Service

variable {α : Type} {r : Request α} {s : Service}

/-- All that a request of an import or a rebuild can do, by its answer. -/
inductive Moves : {α : Type} → Request α → Except Failure α → Service → Service → Prop
  | refused {α : Type} {r : Request α} {a : Except Failure α} {s : Service}
      (refused : r.Refused a) (kind : r.endsImport = false) : Moves r a s s
  /-- There is no import to end. -/
  | nothing {α : Type} {r : Request α} {a : Except Failure α} {db : Database}
      (kind : r.endsImport = true) : Moves r a ⟨db, none⟩ ⟨db, none⟩
  | began {name : String} {t : Tables} {i : Importer} (begins : i.Begins (t.registered name).1)
      (fresh : i.stats = Importer.noStats i.serial) :
      Moves (.beginImport name) (.ok i) ⟨⟨t, none⟩, none⟩
        ⟨⟨(t.registered name).2, some t⟩, some i⟩
  | wrote {α : Type} {r : Request α} {a : Except Failure α} {t u saved : Tables} {i j : Importer}
      (insert : r.isInsert = true) (continues : i.Continues t j u)
      (writes : ∀ d, Writes i.registrar.id i.serial t d u (r.delivered a d)) :
      Moves r a ⟨⟨t, some saved⟩, some i⟩ ⟨⟨u, some saved⟩, some j⟩
  | finished {now : Nat} {t u saved : Tables} {i : Importer} (settled : Settled i now t u) :
      Moves (.finishImport now) (.ok (i.settledStats t)) ⟨⟨t, some saved⟩, some i⟩ ⟨⟨u, none⟩, none⟩
  | aborted {t saved : Tables} {i : Importer} :
      Moves .abortImport (.ok ()) ⟨⟨t, some saved⟩, some i⟩ ⟨⟨saved, none⟩, none⟩
  | dropped {t saved : Tables} {i : Importer} :
      Moves .dropImport (.ok ()) ⟨⟨t, some saved⟩, some i⟩ ⟨⟨saved, none⟩, none⟩
  | rebuilt {α : Type} {r : Request α} {a : Except Failure α} {t u : Tables}
      (rebuild : r.isRebuild = true) (passed : Passed (r.outcomes a) t u) :
      Moves r a ⟨⟨t, none⟩, none⟩ ⟨⟨u, none⟩, none⟩

theorem moves_of_run {a : Except Failure α} {j : Option Importer} {v : Session}
    (run : (work r).run (s.importer, .on s.db) = (a, (j, v))) (moves : Moves r a s ⟨v.db, j⟩) :
    Moves r (answer r s) s (handle r s).2 := by
  obtain ⟨answered, -, state⟩ := handle_eq run
  rw [answered, state]
  exact moves

/-! ## Beginning and ending imports -/

theorem run_beginImport (name : String) (v : Session) :
    (work (.beginImport name)).run (none, v) =
      match (Importer.begin name).run v with
      | (.ok i, w) => (.ok i, (some i, w))
      | (.error e, w) => (.error (.error e), (none, w)) := by
  show (beginImport name).run (none, v) = _
  rw [beginImport, Fallible.run_bind, run_onSession]
  cases (Importer.begin name).run v with
  | mk result w => cases result <;> rfl

theorem begin_moves (t : Tables) (name : String) :
    Moves (.beginImport name) (answer (.beginImport name) ⟨⟨t, none⟩, none⟩) ⟨⟨t, none⟩, none⟩
      (handle (.beginImport name) ⟨⟨t, none⟩, none⟩).2 := by
  have runs := run_beginImport name (.on ⟨t, none⟩)
  have ends := Importer.begin_ends (s := .on ⟨t, none⟩) rfl name
  rcases ends.run_cases with ⟨i, v, run, db, begins, fresh⟩ | ⟨e, v, run, db⟩
  · rw [run] at runs
    refine moves_of_run runs ?_
    rw [db]
    exact .began begins fresh
  · rw [run] at runs
    refine moves_of_run runs ?_
    rw [db]
    exact .refused trivial rfl

theorem run_endImport (x : Importer → Fallible Session Error α) (i : Importer) (v : Session) :
    (endImport x).run (some i, v) = (((x i).run v).1.mapError .error, (none, ((x i).run v).2)) :=
  rfl

/-- Finishing the open import answers with its statistics and closes it. -/
theorem finish_of_run {t saved u : Tables} {i : Importer} {now : Nat}
    {stats : ImportStats} {v : Session}
    (run : (Importer.finish now i).run (.on ⟨t, some saved⟩) = (.ok stats, v))
    (db : v.db = ⟨u, none⟩) :
    answer (.finishImport now) ⟨⟨t, some saved⟩, some i⟩ = .ok stats ∧
      (handle (.finishImport now) ⟨⟨t, some saved⟩, some i⟩).2 = ⟨⟨u, none⟩, none⟩ := by
  have finished : (work (.finishImport now)).run (some i, .on ⟨t, some saved⟩) =
      (.ok stats, (none, v)) := by
    show (endImport (Importer.finish now)).run _ = _
    rw [run_endImport, run]
    rfl
  obtain ⟨answered, -, state⟩ := handle_eq (s := ⟨⟨t, some saved⟩, some i⟩) finished
  exact ⟨answered, by rw [state, db]⟩

theorem finish_answered (t saved : Tables) (i : Importer) (now : Nat) :
    ∃ u, answer (.finishImport now) ⟨⟨t, some saved⟩, some i⟩ = .ok (i.settledStats t) ∧
      (handle (.finishImport now) ⟨⟨t, some saved⟩, some i⟩).2 = ⟨⟨u, none⟩, none⟩ ∧
      Settled i now t u := by
  obtain ⟨u, v, run, db, settled⟩ := Importer.finish_run (s := .on ⟨t, some saved⟩) rfl now i
  obtain ⟨answered, state⟩ := finish_of_run run db
  exact ⟨u, answered, state, settled⟩

/-- The end of an open import always comes. -/
theorem end_moves (kind : r.endsImport = true) (t saved : Tables) (i : Importer) :
    Moves r (answer r ⟨⟨t, some saved⟩, some i⟩) ⟨⟨t, some saved⟩, some i⟩
      (handle r ⟨⟨t, some saved⟩, some i⟩).2 := by
  cases r with
  | finishImport now =>
    obtain ⟨u, answered, state, settled⟩ := finish_answered t saved i now
    rw [answered, state]
    exact .finished settled
  | abortImport =>
    obtain ⟨v, run, db⟩ := Importer.abort_run (s := .on ⟨t, some saved⟩) rfl i
    have aborted : (work .abortImport).run (some i, .on ⟨t, some saved⟩) = (.ok (), (none, v)) := by
      show (endImport Importer.abort).run _ = _
      rw [run_endImport, run]
      rfl
    refine moves_of_run aborted ?_
    rw [db]
    exact .aborted
  | dropImport =>
    have db := Importer.drop_db (s := .on ⟨t, some saved⟩) rfl i
    have dropped : (work .dropImport).run (some i, .on ⟨t, some saved⟩) =
        (.ok (), (none, i.drop (.on ⟨t, some saved⟩))) := rfl
    refine moves_of_run dropped ?_
    rw [db]
    exact .dropped
  | _ => exact Bool.noConfusion kind

theorem end_nothing (kind : r.endsImport = true) (db : Database) :
    Moves r (answer r ⟨db, none⟩) ⟨db, none⟩ (handle r ⟨db, none⟩).2 := by
  cases r with
  | finishImport _ | abortImport | dropImport => exact .nothing kind
  | _ => exact Bool.noConfusion kind

/-! ## Rebuilds -/

theorem rebuilt_of_run {a : Except Failure α} {t u : Tables} {v : Session}
    (kind : r.isRebuild = true) (run : (work r).run (none, .on ⟨t, none⟩) = (a, (none, v)))
    (db : v.db = ⟨u, none⟩) (passed : Passed (r.outcomes a) t u) :
    Moves r (answer r ⟨⟨t, none⟩, none⟩) ⟨⟨t, none⟩, none⟩ (handle r ⟨⟨t, none⟩, none⟩).2 := by
  refine moves_of_run run ?_
  rw [db]
  exact .rebuilt kind passed

theorem rebuild_moves (kind : r.isRebuild = true) (works : r.RollsBack) {t : Tables}
    (sound : t.Sound) :
    Moves r (answer r ⟨⟨t, none⟩, none⟩) ⟨⟨t, none⟩, none⟩ (handle r ⟨⟨t, none⟩, none⟩).2 := by
  have closed : (Session.on ⟨t, none⟩).db = ⟨t, none⟩ := rfl
  cases r with
  | rebuild plan mode defs =>
    obtain ⟨u, db, passed⟩ := Rebuild.all_passed mode works sound closed
    exact rebuilt_of_run rfl rfl db passed
  | rebuildList plan mode name p =>
    obtain ⟨u, db, passed⟩ := Rebuild.list_passed mode works sound closed name p
    exact rebuilt_of_run rfl rfl db passed
  | rebuildCoverage plan =>
    obtain ⟨u, db, passed⟩ := Rebuild.coverage_passed works sound closed
    exact rebuilt_of_run rfl rfl db passed
  | refresh plan mode defs =>
    obtain ⟨u, db, passed⟩ := Rebuild.refresh_passed mode works sound closed
    exact rebuilt_of_run rfl rfl db passed
  | _ => exact Bool.noConfusion kind

/-! ## Inserts -/

theorem run_insertOrg (o : OrgRecord) (i : Importer) (v : Session) :
    (work (.insertOrg o)).run (some i, v) =
      match (i.insertOrg o).run v with
      | (.ok j, w) => (.ok (), (some j, w))
      | (.error e, w) => (.error (.error e), (some i, w)) := by
  simp only [work, onImport, Fallible.run]
  cases i.insertOrg o v with
  | mk result w => cases result <;> rfl

theorem run_insertNetblock {f : Family} (source : NetblockSource f) (a : Attributes) (i : Importer)
    (v : Session) :
    (work (.insertNetblock f source a)).run (some i, v) =
      match record source a with
      | .error e => (.error (.error e), (some i, v))
      | .ok n =>
          match (i.insertNetblock n).run v with
          | (.ok j, w) => (.ok ⟨n.range.first, n.prefixLen⟩, (some j, w))
          | (.error e, w) => (.error (.error e), (some i, w)) := by
  simp only [work, insertNetblock, onImport, Fallible.run]
  cases record source a with
  | error e => rfl
  | ok n =>
    dsimp only
    cases i.insertNetblock n v with
    | mk result w => cases result <;> rfl

theorem run_insertRange {f : Family} (first last : Addr f) (a : Attributes) (i : Importer)
    (v : Session) :
    (work (.insertRange first last a)).run (some i, v) =
      if last < first then
        (.error (.misuse (.inverted first.toNat last.toNat)), (some i, v))
      else
        let (n, (j, w)) := (Importer.insertRange ⟨first, last⟩ a).run (i, v)
        (n.mapError .error, (some j, w)) := by
  simp only [work, insertRange, onImport, Fallible.run, Range.decompose]
  by_cases inverted : last < first
  · simp only [if_pos inverted]
  · simp only [if_neg inverted]

section Open

variable {t saved : Tables} {i : Importer}

theorem insertOrg_moves (known : i.Known t) (o : OrgRecord) :
    Moves (.insertOrg o) (answer (.insertOrg o) ⟨⟨t, some saved⟩, some i⟩)
      ⟨⟨t, some saved⟩, some i⟩ (handle (.insertOrg o) ⟨⟨t, some saved⟩, some i⟩).2 := by
  have runs := run_insertOrg o i (.on ⟨t, some saved⟩)
  have ends := Importer.insertOrg_ends (s := .on ⟨t, some saved⟩) rfl known o
  rcases ends.run_cases with ⟨j, v, run, u, continues, db, writes⟩ | ⟨_, _, _, no⟩
  · rw [run] at runs
    refine moves_of_run runs ?_
    rw [db]
    exact .wrote rfl continues writes
  · exact no.elim

/-- A netblock that has no record, or one that is refused, changes nothing. -/
theorem insertNetblock_moves (known : i.Known t) {f : Family} (source : NetblockSource f)
    (a : Attributes) :
    Moves (.insertNetblock f source a)
      (answer (.insertNetblock f source a) ⟨⟨t, some saved⟩, some i⟩) ⟨⟨t, some saved⟩, some i⟩
      (handle (.insertNetblock f source a) ⟨⟨t, some saved⟩, some i⟩).2 := by
  have runs := run_insertNetblock source a i (.on ⟨t, some saved⟩)
  cases named : record source a with
  | error e =>
    rw [named] at runs
    exact moves_of_run runs (.refused trivial rfl)
  | ok n =>
    rw [named] at runs
    dsimp only at runs
    have ends := Importer.insertNetblock_ends (s := .on ⟨t, some saved⟩) rfl known n
    rcases ends.run_cases with ⟨j, v, run, u, continues, db, writes⟩ | ⟨e, v, run, rfl, _⟩
    · rw [run] at runs
      refine moves_of_run runs ?_
      rw [db]
      refine .wrote rfl continues fun d => ?_
      have delivered : (Request.insertNetblock f source a).delivered
          (.ok ⟨n.range.first, n.prefixLen⟩) d = d.withNetblock n := by
        simp only [Request.delivered, named]
      rw [delivered]
      exact writes d
    · rw [run] at runs
      exact moves_of_run runs (.refused trivial rfl)

theorem insertRange_moves (known : i.Known t) {f : Family} (first last : Addr f) (a : Attributes) :
    Moves (.insertRange first last a)
      (answer (.insertRange first last a) ⟨⟨t, some saved⟩, some i⟩) ⟨⟨t, some saved⟩, some i⟩
      (handle (.insertRange first last a) ⟨⟨t, some saved⟩, some i⟩).2 := by
  have runs := run_insertRange first last a i (.on ⟨t, some saved⟩)
  by_cases inverted : last < first
  · rw [if_pos inverted] at runs
    exact moves_of_run runs (.refused trivial rfl)
  · rw [if_neg inverted] at runs
    have ordered : (⟨first, last⟩ : Range _).first ≤ (⟨first, last⟩ : Range _).last :=
      Nat.not_lt.mp inverted
    have ends := Importer.insertRange_ends (s := .on ⟨t, some saved⟩) ordered a rfl known
    rcases ends.run_cases with ⟨n, ⟨j, v⟩, run, u, continues, db, writes⟩ | ⟨_, _, _, no⟩
    · rw [run] at runs
      refine moves_of_run runs ?_
      dsimp only at db
      rw [db]
      exact .wrote rfl continues writes
    · exact no.elim

/-- In an open import whose registrar is there, an insert writes or is refused. -/
theorem insert_moves (kind : r.isInsert = true) (known : i.Known t) :
    Moves r (answer r ⟨⟨t, some saved⟩, some i⟩) ⟨⟨t, some saved⟩, some i⟩
      (handle r ⟨⟨t, some saved⟩, some i⟩).2 := by
  cases r with
  | insertOrg o => exact insertOrg_moves known o
  | insertNetblock f source a => exact insertNetblock_moves known source a
  | insertRange first last a => exact insertRange_moves known first last a
  | _ => exact Bool.noConfusion kind

end Open

theorem insert_refused (kind : r.isInsert = true) (db : Database) :
    Moves r (answer r ⟨db, none⟩) ⟨db, none⟩ (handle r ⟨db, none⟩).2 := by
  cases r with
  | insertOrg _ | insertNetblock _ _ _ | insertRange _ _ _ => exact .refused trivial rfl
  | _ => exact Bool.noConfusion kind

/-! ## Histories -/

/-- A transaction is open exactly while an import is. -/
def Bracketed (s : Service) : Prop := s.db.inTransaction = s.importer.isSome

/-- The import that is open, if one is, finds the row of its registrar. -/
def Anchored (s : Service) : Prop := ∀ i ∈ s.importer, i.Known s.db.tables

/-- A request that begins or ends an import, or rebuilds. -/
theorem moves_unless_insert (bracketed : s.Bracketed) (sound : s.db.tables.Sound)
    (kind : (r.beginsImport || r.endsImport || r.isRebuild) = true) (works : r.RollsBack) :
    Moves r (answer r s) s (handle r s).2 := by
  obtain ⟨⟨t, _ | saved⟩, _ | i⟩ := s
  · -- No transaction is open, and no import.
    cases r with
    | beginImport name => exact begin_moves t name
    | finishImport _ | abortImport | dropImport => exact end_nothing rfl _
    | rebuild _ _ _ | rebuildList _ _ _ _ | rebuildCoverage _ | refresh _ _ _ =>
      exact rebuild_moves rfl works sound
    | _ => exact Bool.noConfusion kind
  · exact Bool.noConfusion bracketed
  · exact Bool.noConfusion bracketed
  · by_cases ends : r.endsImport = true
    · exact end_moves ends t saved i
    · have ends' : r.endsImport = false := Bool.eq_false_iff.mpr ends
      have foreign : (r.isRebuild || r.beginsImport) = true := by
        rw [ends', Bool.or_false, Bool.or_comm] at kind
        exact kind
      have barred : Barred r ⟨⟨t, some saved⟩, some i⟩ := handle_barred rfl foreign
      rw [barred.same]
      exact .refused barred.refused ends'

theorem moves_insert (bracketed : s.Bracketed) (anchored : s.Anchored) (insert : r.isInsert = true) :
    Moves r (answer r s) s (handle r s).2 := by
  obtain ⟨⟨t, _ | saved⟩, _ | i⟩ := s
  · exact insert_refused insert _
  · exact Bool.noConfusion bracketed
  · exact Bool.noConfusion bracketed
  · exact insert_moves insert (anchored i rfl)

theorem moves (bracketed : s.Bracketed) (anchored : s.Anchored) (sound : s.db.tables.Sound)
    {e : Event} (routine : e.Routine) :
    Moves e.request (answer e.request s) s (handle e.request s).2 := by
  by_cases insert : e.request.isInsert = true
  · exact moves_insert bracketed anchored insert
  · have kind := routine.kind
    rw [Bool.eq_false_iff.mpr insert, Bool.or_false] at kind
    exact moves_unless_insert bracketed sound kind routine.rollsBack

theorem Moves.bracketed {a : Except Failure α} {u : Service} (moves : Moves r a s u)
    (bracketed : s.Bracketed) : u.Bracketed := by
  cases moves with
  | refused => exact bracketed
  | nothing => exact bracketed
  | began | wrote | finished | aborted | dropped | rebuilt => rfl

theorem known_registered (t : Tables) (name : String) {i : Importer}
    (begins : i.Begins (t.registered name).1) : i.Known (t.registered name).2 := by
  have member : (t.registered name).1 ∈ (t.registered name).2.registrars := by
    unfold Tables.registered
    split
    · rename_i found
      exact List.mem_of_find?_eq_some found
    · exact List.mem_append_right _ (List.mem_singleton.mpr rfl)
  refine List.find?_isSome.mpr ⟨_, member, ?_⟩
  rw [begins.id]
  exact beq_self_eq_true _

theorem Moves.anchored {a : Except Failure α} {u : Service} (moves : Moves r a s u)
    (anchored : s.Anchored) : u.Anchored := by
  cases moves with
  | refused => exact anchored
  | nothing => exact anchored
  | @began name t i begins =>
    intro j held
    obtain rfl := Option.some.inj held
    exact known_registered t name begins
  | @wrote _ _ _ t u saved i j _ continues writes =>
    intro k held
    obtain rfl := Option.some.inj held
    exact (anchored i rfl).goesOn continues (writes .empty)
  | finished | aborted | dropped | rebuilt =>
    intro i held
    cases held

/-- **In a routine history** a transaction is open exactly while an import is, which finds its
registrar. -/
theorem standing_after {history : List Event} (routine : ∀ e ∈ history, e.Routine) :
    (empty.after history).Bracketed ∧ (empty.after history).Anchored := by
  induction history with
  | nil => exact ⟨rfl, fun i held => by cases held⟩
  | cons e past ih =>
    have earlier := fun e member => routine e (List.mem_cons_of_mem _ member)
    obtain ⟨bracketed, anchored⟩ := ih earlier
    have visible := fun e member => (earlier e member).visible
    have sound := (reachable_after visible).database.sound.1
    have moves := moves bracketed anchored sound (routine e List.mem_cons_self)
    exact ⟨moves.bracketed bracketed, moves.anchored anchored⟩

/-- **Every request of a routine history** moves the service in one of the ways of `Moves`. -/
theorem moves_after {e : Event} {past : List Event} (routine : ∀ d ∈ e :: past, d.Routine) :
    Moves e.request (answer e.request (empty.after past)) (empty.after past)
      (empty.after (e :: past)) := by
  have earlier := fun d member => routine d (List.mem_cons_of_mem _ member)
  obtain ⟨bracketed, anchored⟩ := standing_after earlier
  have visible := fun d member => (earlier d member).visible
  have sound := (reachable_after visible).database.sound.1
  exact moves bracketed anchored sound (routine e List.mem_cons_self)

end Service

end NetRegistry
