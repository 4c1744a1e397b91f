/-
# Proofs.Store.Reachable -- what the operations can do to the tables

`Tables.Step` lists the statements that the operations carry out, each with the
condition under which it is carried out; `Database.Reachable` adds transactions.
A property of tables that every step preserves holds, in a reachable database,
of the tables and of those that a rollback goes back to (`Reachable.invariant`).

A property of databases that no step takes away is *stable* (`Database.Stable`):
being reachable is, and so is having certain tables to go back to.  Inserts and
rebuilds carry out only some of the steps (`Tables.InsertStep`,
`Tables.RebuildStep`), and keep what these do not take away (`Database.StableUnder`),
calls, scans and all (`Keeps (Session.Has P)`).
-/
import NetRegistry.Import
import NetRegistry.Proofs.Fallible
import NetRegistry.Rebuild.Coverage

namespace NetRegistry

set_option autoImplicit false

/-- A statement that an operation carries out. -/
inductive Tables.Step : Tables → Tables → Prop
  | insertRegistrar {t u : Tables} {name : String} {row : RegistrarRow}
      (fresh : t.registrarNamed? name = none)
      (run : Write.insertRegistrar name t = .ok (row, u)) : Step t u
  | writeOrg {t u : Tables} {registrar : RowId} {serial : Nat} {o : OrgRecord} {new : Bool}
      (run : Write.writeOrg registrar serial o t = .ok (new, u)) : Step t u
  | writeNetblock {t u : Tables} {f : Family} {registrar : RowId} {serial : Nat}
      {n : NetblockRecord f} {new : Bool} (accepted : Importer.check n = .ok ())
      (run : Write.writeNetblock registrar serial n t = .ok (new, u)) : Step t u
  | sweepNetblocks {t u : Tables} {f : Family} {registrar : RowId} {serial gone : Nat}
      (run : Write.sweepNetblocks f registrar serial t = .ok (gone, u)) : Step t u
  | sweepOrgs {t u : Tables} {registrar : RowId} {serial gone : Nat}
      (run : Write.sweepOrgs registrar serial t = .ok (gone, u)) : Step t u
  | linkNetblocks {t u : Tables} {f : Family} {registrar : RowId}
      (run : Write.linkNetblocks f registrar t = .ok ((), u)) : Step t u
  | recordImport {t u : Tables} {registrar : RowId} {serial now : Nat}
      (run : Write.recordImport registrar serial now t = .ok ((), u)) : Step t u
  | ensureList {t u : Tables} {name : String} {list : RowId}
      (run : Write.ensureList name t = .ok (list, u)) : Step t u
  | clearList {t u : Tables} {f : Family} {list : RowId}
      (run : Write.clearList f list t = .ok ((), u)) : Step t u
  | populate {t u : Tables} {f : Family} {list : RowId} {p : Predicate} {added : Nat}
      (run : Write.populate f list p t = .ok (added, u)) : Step t u
  | insertUnionBlock {t u : Tables} {f : Family} {list : RowId} {b : Block f}
      (run : Write.insertUnionBlock list b t = .ok ((), u)) : Step t u
  | clearCoverage {t u : Tables} {f : Family}
      (run : Write.clearCoverage f t = .ok ((), u)) : Step t u
  | insertCoverageBlock {t u : Tables} {f : Family} {b : Block f}
      (run : Write.insertCoverageBlock b t = .ok ((), u)) : Step t u

/-- A statement that an insert carries out. -/
inductive Tables.InsertStep : Tables → Tables → Prop
  | writeOrg {t u : Tables} {registrar : RowId} {serial : Nat} {o : OrgRecord} {new : Bool}
      (run : Write.writeOrg registrar serial o t = .ok (new, u)) : InsertStep t u
  | writeNetblock {t u : Tables} {f : Family} {registrar : RowId} {serial : Nat}
      {n : NetblockRecord f} {new : Bool} (accepted : Importer.check n = .ok ())
      (run : Write.writeNetblock registrar serial n t = .ok (new, u)) : InsertStep t u

/-- A statement that a rebuild of lists or of the coverage carries out. -/
inductive Tables.RebuildStep : Tables → Tables → Prop
  | ensureList {t u : Tables} {name : String} {list : RowId}
      (run : Write.ensureList name t = .ok (list, u)) : RebuildStep t u
  | clearList {t u : Tables} {f : Family} {list : RowId}
      (run : Write.clearList f list t = .ok ((), u)) : RebuildStep t u
  | populate {t u : Tables} {f : Family} {list : RowId} {p : Predicate} {added : Nat}
      (run : Write.populate f list p t = .ok (added, u)) : RebuildStep t u
  | insertUnionBlock {t u : Tables} {f : Family} {list : RowId} {b : Block f}
      (run : Write.insertUnionBlock list b t = .ok ((), u)) : RebuildStep t u
  | clearCoverage {t u : Tables} {f : Family}
      (run : Write.clearCoverage f t = .ok ((), u)) : RebuildStep t u
  | insertCoverageBlock {t u : Tables} {f : Family} {b : Block f}
      (run : Write.insertCoverageBlock b t = .ok ((), u)) : RebuildStep t u

theorem Tables.InsertStep.step {t u : Tables} (step : t.InsertStep u) : t.Step u := by
  cases step with
  | writeOrg run => exact .writeOrg run
  | writeNetblock accepted run => exact .writeNetblock accepted run

theorem Tables.RebuildStep.step {t u : Tables} (step : t.RebuildStep u) : t.Step u := by
  cases step with
  | ensureList run => exact .ensureList run
  | clearList run => exact .clearList run
  | populate run => exact .populate run
  | insertUnionBlock run => exact .insertUnionBlock run
  | clearCoverage run => exact .clearCoverage run
  | insertCoverageBlock run => exact .insertCoverageBlock run

namespace Database

/-- The databases that steps and transactions lead to from an empty one. -/
inductive Reachable : Database → Prop
  | empty : Reachable .empty
  | step {t u : Tables} {saved : Option Tables} (reached : Reachable ⟨t, saved⟩)
      (step : t.Step u) : Reachable ⟨u, saved⟩
  | begin {t : Tables} (reached : Reachable ⟨t, none⟩) : Reachable ⟨t, some t⟩
  | commit {t u : Tables} (reached : Reachable ⟨t, some u⟩) : Reachable ⟨t, none⟩
  | rollback {t u : Tables} (reached : Reachable ⟨t, some u⟩) : Reachable ⟨u, none⟩

/-- What every step preserves holds of the tables and of those to go back to. -/
theorem Reachable.invariant {P : Tables → Prop} (initially : P .empty)
    (preserved : ∀ t u, P t → t.Step u → P u) {db : Database} (reached : db.Reachable) :
    P db.tables ∧ ∀ t ∈ db.saved, P t := by
  induction reached with
  | empty => exact ⟨initially, fun t h => by cases h⟩
  | step _ step ih => exact ⟨preserved _ _ ih.1 step, ih.2⟩
  | begin _ ih => exact ⟨ih.1, fun t h => Option.some.inj h ▸ ih.1⟩
  | commit _ ih => exact ⟨ih.1, fun t h => by cases h⟩
  | rollback _ ih => exact ⟨ih.2 _ rfl, fun t h => by cases h⟩

theorem Reachable.reopened {db : Database} (reached : db.Reachable) : db.reopened.Reachable := by
  obtain ⟨t, _ | u⟩ := db
  · exact reached
  · exact reached.rollback

/-- A property that no statement of the operations takes away. -/
def Stable (P : Database → Prop) : Prop :=
  ∀ t u saved, t.Step u → P ⟨t, saved⟩ → P ⟨u, saved⟩

/-- A property that none of some statements takes away. -/
def StableUnder (S : Tables → Tables → Prop) (P : Database → Prop) : Prop :=
  ∀ t u saved, S t u → P ⟨t, saved⟩ → P ⟨u, saved⟩

variable {P : Database → Prop}

theorem Stable.inserts (stable : Stable P) : StableUnder Tables.InsertStep P :=
  fun t u saved step => stable t u saved step.step

theorem Stable.rebuilds (stable : Stable P) : StableUnder Tables.RebuildStep P :=
  fun t u saved step => stable t u saved step.step

theorem stable_reachable : Stable Reachable := fun _ _ _ step reached => reached.step step

/-- Statements leave the tables to go back to alone. -/
theorem stable_saved (saved : Option Tables) : Stable fun db => db.saved = saved :=
  fun _ _ _ _ same => same

open Fallible (Keeps)

variable {α : Type} {S : Tables → Tables → Prop}

theorem keeps_exec {stmt : Statement α}
    (keeps : ∀ t a u saved, stmt t = .ok (a, u) → P ⟨t, saved⟩ → P ⟨u, saved⟩) :
    Keeps P (exec stmt) := by
  refine Keeps.of_run fun db holds => ?_
  show P (exec stmt db).2
  unfold exec
  split
  · rename_i ran
    exact keeps _ _ _ _ ran holds
  · exact holds

theorem keeps_step (stable : StableUnder S P) {stmt : Statement α}
    (step : ∀ t a u, stmt t = .ok (a, u) → S t u) : Keeps P (exec stmt) :=
  keeps_exec fun t a u saved ran => stable t u saved (step t a u ran)

theorem keeps_query (q : Tables → Except StorageError α) : Keeps P (query q) :=
  Keeps.of_run fun _ => id

theorem keeps_begin : Keeps Reachable begin := by
  refine Keeps.of_run fun ⟨t, saved⟩ reached => ?_
  cases saved with
  | none => exact reached.begin
  | some u => exact reached

theorem keeps_commit : Keeps Reachable commit := by
  refine Keeps.of_run fun ⟨t, saved⟩ reached => ?_
  cases saved with
  | none => exact reached
  | some u => exact reached.commit

theorem keeps_rollback : Keeps Reachable rollback := by
  refine Keeps.of_run fun ⟨t, saved⟩ reached => ?_
  cases saved with
  | none => exact reached
  | some u => exact reached.rollback

/-- A property that a rebuild keeps, with the transaction around it. -/
structure Lasting (P : Database → Prop) : Prop where
  statements : StableUnder Tables.RebuildStep P
  begin : Keeps P begin
  commit : Keeps P commit
  rollback : Keeps P rollback

theorem lasting_reachable : Lasting Reachable :=
  ⟨stable_reachable.rebuilds, keeps_begin, keeps_commit, keeps_rollback⟩

end Database

open Fallible (Keeps)

namespace Session

/-- The property holds of the database of the session. -/
def Has (P : Database → Prop) (s : Session) : Prop := P s.db

/-- The session works on a reachable database. -/
def Reached (s : Session) : Prop := s.db.Reachable

variable {α τ : Type} {f : Family} {S : Tables → Tables → Prop} {P : Database → Prop}

theorem keeps_onDatabase {x : Fallible Database StorageError α} (keeps : Keeps P x) :
    Keeps (Has P) (onDatabase x) :=
  Keeps.of_run fun _ holds => keeps.run holds

theorem keeps_call (plan : FaultPlan) (c : Call) {x : Fallible Database StorageError α}
    (keeps : Keeps P x) : Keeps (Has P) (call plan c x) := by
  refine Keeps.of_run fun s holds => ?_
  show Has P (call plan c x s).2
  unfold call
  split
  · exact holds
  · exact (keeps_onDatabase keeps).run (s := { s with calls := c :: s.calls }) holds

theorem keeps_query (q : Tables → Except StorageError α) : Keeps (Has P) (query q) :=
  keeps_onDatabase (Database.keeps_query q)

theorem keeps_note {ε : Type} (line : LogLine) :
    Keeps (Has P) (note line : Fallible Session ε Unit) :=
  Keeps.modify fun _ => id

theorem has_noted {s : Session} (holds : s.Has P) (line : LogLine) : (s.noted line).Has P := holds

theorem has_notedAll {s : Session} (holds : s.Has P) (lines : List LogLine) :
    (s.notedAll lines).Has P := by
  induction lines generalizing s with
  | nil => exact holds
  | cons line rest ih => exact ih (has_noted holds line)

theorem keeps_begin (plan : FaultPlan) (keeps : Keeps P Database.begin) :
    Keeps (Has P) (begin plan) :=
  keeps_call plan _ keeps

theorem keeps_commit (plan : FaultPlan) (keeps : Keeps P Database.commit) :
    Keeps (Has P) (commit plan) :=
  keeps_call plan _ keeps

theorem keeps_rollback (plan : FaultPlan) (keeps : Keeps P Database.rollback) :
    Keeps (Has P) (rollback plan) :=
  keeps_call plan _ keeps

theorem keeps_exec (stable : Database.StableUnder S P) {stmt : Statement α}
    (step : ∀ t a u, stmt t = .ok (a, u) → S t u) : Keeps (Has P) (exec stmt) :=
  keeps_onDatabase (Database.keeps_step stable step)

section Statements

variable (stable : Database.StableUnder Tables.RebuildStep P) (plan : FaultPlan)
include stable

theorem keeps_ensureList (name : String) : Keeps (Has P) (ensureList plan name) :=
  keeps_call plan _ (Database.keeps_step stable fun _ _ _ => .ensureList)

theorem keeps_clearList (list : RowId) : Keeps (Has P) (clearList plan f list) :=
  keeps_call plan _ (Database.keeps_step stable fun _ _ _ => .clearList)

theorem keeps_populateMembership (list : RowId) (p : Predicate) :
    Keeps (Has P) (populateMembership plan f list p) :=
  keeps_call plan _ (Database.keeps_step stable fun _ _ _ => .populate)

theorem keeps_insertUnionBlock (list : RowId) (b : Block f) :
    Keeps (Has P) (insertUnionBlock plan list b) :=
  keeps_call plan _ (Database.keeps_step stable fun _ _ _ => .insertUnionBlock)

theorem keeps_clearCoverage : Keeps (Has P) (clearCoverage plan f) :=
  keeps_call plan _ (Database.keeps_step stable fun _ _ _ => .clearCoverage)

theorem keeps_insertCoverageBlock (b : Block f) : Keeps (Has P) (insertCoverageBlock plan b) :=
  keeps_call plan _ (Database.keeps_step stable fun _ _ _ => .insertCoverageBlock)

end Statements

/-! ## Scans -/

section Scans

variable {I : τ → Prop} {sink : Range f → Fallible τ Error Unit}

theorem keeps_feed (keeps : ∀ r, Keeps I (sink r)) (ranges : List (Range f)) :
    Keeps I (feed sink ranges) := by
  induction ranges with
  | nil => exact Keeps.pure 0
  | cons r rest ih =>
    exact (Keeps.ofExcept _).bind fun r => (keeps r).bind fun _ => ih.bind fun _ => Keeps.pure _

theorem keeps_stream (keeps : ∀ r, Keeps I (sink r)) (rows : List (Cell × Cell)) :
    Keeps I (stream f sink rows) := by
  induction rows with
  | nil => exact Keeps.pure 0
  | cons row rest ih =>
    exact (Keeps.ofExcept _).bind fun r => (Keeps.ofExcept _).bind fun r =>
      (keeps r).bind fun _ => ih.bind fun _ => Keeps.pure _

theorem keeps_scanRows (keeps : ∀ r, Keeps I (sink r)) (mode : FetchMode)
    (rows : List (Cell × Cell)) : Keeps I (scanRows f mode rows sink) := by
  cases mode with
  | stream => exact keeps_stream keeps rows
  | buffered => exact (Keeps.ofExcept _).bind fun ranges => keeps_feed keeps ranges

theorem keeps_feedBlocks {sink : Block f → Fallible τ Error Unit}
    (keeps : ∀ b, Keeps I (sink b)) (rows : List BlockRow) :
    Keeps I (feedBlocks f sink rows) := by
  induction rows with
  | nil => exact Keeps.pure 0
  | cons row rest ih =>
    exact (Keeps.ofExcept _).bind fun b => (keeps b).bind fun _ => ih.bind fun _ => Keeps.pure _

end Scans

theorem keeps_scanMembership (plan : FaultPlan) (list : RowId) (mode : FetchMode)
    {sink : Range f → Fallible (τ × Session) Error Unit}
    (keeps : ∀ r, Keeps (fun w : τ × Session => w.2.Has P) (sink r)) :
    Keeps (fun w : τ × Session => w.2.Has P) (scanMembership plan f list mode sink) :=
  (Keeps.onSecond (keeps_call plan _ (Database.keeps_query _))).bind fun rows =>
    keeps_scanRows keeps mode rows

theorem keeps_scanNetblocks (plan : FaultPlan)
    {sink : Range f → Fallible (τ × Session) Error Unit}
    (keeps : ∀ r, Keeps (fun w : τ × Session => w.2.Has P) (sink r)) :
    Keeps (fun w : τ × Session => w.2.Has P) (scanNetblocks plan f sink) :=
  (Keeps.onSecond (keeps_call plan _ (Database.keeps_query _))).bind fun rows =>
    keeps_scanRows keeps .stream rows

theorem keeps_scanUnion (list : RowId) {sink : Block f → Fallible (τ × Session) Error Unit}
    (keeps : ∀ b, Keeps (fun w : τ × Session => w.2.Has P) (sink b)) :
    Keeps (fun w : τ × Session => w.2.Has P) (scanUnion f list sink) :=
  (Keeps.onSecond (keeps_query _)).bind fun rows => keeps_feedBlocks keeps rows

end Session

end NetRegistry
