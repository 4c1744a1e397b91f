/-
# Proofs.Service.History -- requests one after the other

A history is a list of requests, newest first, and `Service.after` is the service
that it leads to.  Requests fall into kinds: inserts into the open import, its
ends, rebuilds, and so on.  A history is orderly (`Event.Orderly`) when nobody
begins, commits or rolls back by hand and no plan makes rollbacks fail.

* `handle_barred`: while a transaction is open, rebuilds and further imports are
  refused and change nothing.
* `reachable_after`: histories of public requests lead to reachable databases.
-/
import NetRegistry.Proofs.Rebuild.Nested
import NetRegistry.Proofs.Service.Reachable

namespace NetRegistry

set_option autoImplicit false

/-- A request, whatever the type of its answer. -/
structure Event where
  {Answer : Type}
  request : Request Answer

namespace Request

variable {α : Type}

/-! ## Kinds of requests -/

/-- Whether the request ends the open import. -/
def endsImport : Request α → Bool
  | .finishImport _ | .abortImport | .dropImport => true
  | _ => false

/-- Whether the request gives up the open import. -/
def abandonsImport : Request α → Bool
  | .abortImport | .dropImport => true
  | _ => false

def beginsImport : Request α → Bool
  | .beginImport _ => true
  | _ => false

/-- Whether the request begins or ends a transaction of its caller. -/
def isManual : Request α → Bool
  | .begin | .commit | .rollback => true
  | _ => false

/-- What calls of the request fail with. -/
def plan : Request α → FaultPlan
  | .rebuild plan _ _ | .rebuildList plan _ _ _ | .rebuildCoverage plan | .refresh plan _ _ => plan
  | _ => .none

/-- The rollbacks of the request work. -/
def RollsBack (r : Request α) : Prop := ∀ n, r.plan .rollback n = none

/-- The answer says that nothing was done: the request failed, or it committed no list and replaced
no coverage. -/
def Refused : {α : Type} → Request α → Except Failure α → Prop
  | _, .rebuild _ _ _, .ok report => ∀ l ∈ report.lists, l.2.isCommitted = false
  | _, .rebuildList _ _ _ _, .ok outcome => outcome.isCommitted = false
  | _, .refresh _ _ _, .ok report =>
      report.coverage = none ∧ ∀ l ∈ report.lists.lists, l.2.isCommitted = false
  | _, _, .ok _ => False
  | _, _, .error _ => True

/-! ### No request is of two kinds -/

variable {r : Request α}

theorem not_insert_of_end (kind : r.endsImport = true) : r.isInsert = false := by
  cases r <;> first | rfl | exact Bool.noConfusion kind

theorem not_insert_of_begin (kind : r.beginsImport = true) : r.isInsert = false := by
  cases r <;> first | rfl | exact Bool.noConfusion kind

theorem not_end_of_begin (kind : r.beginsImport = true) : r.endsImport = false := by
  cases r <;> first | rfl | exact Bool.noConfusion kind

theorem not_rebuild_of_begin (kind : r.beginsImport = true) : r.isRebuild = false := by
  cases r <;> first | rfl | exact Bool.noConfusion kind

theorem end_of_abandon (kind : r.abandonsImport = true) : r.endsImport = true := by
  cases r <;> first | rfl | exact Bool.noConfusion kind

end Request

namespace Event

/-- Whether the request writes records in the open import. -/
def isInsert (e : Event) : Bool := e.request.isInsert

/-- Whether the request is a rebuild or begins another import. -/
def isForeign (e : Event) : Bool := e.request.isRebuild || e.request.beginsImport

/-- The request is public, leaves transactions to the operations, and its rollbacks work. -/
structure Orderly (e : Event) : Prop where
  visible : e.request.isPublic = true
  automatic : e.request.isManual = false
  rollsBack : e.request.RollsBack

/-- The request is one of an import or a rebuild, and its rollbacks work. -/
structure Routine (e : Event) : Prop where
  kind : (e.request.beginsImport || e.request.isInsert || e.request.endsImport ||
    e.request.isRebuild) = true
  rollsBack : e.request.RollsBack

end Event

namespace Service

variable {α : Type} {s : Service} {r : Request α}

/-- The service after requests, newest first. -/
def after (s : Service) : List Event → Service
  | [] => s
  | e :: past => (handle e.request (s.after past)).2

/-- The answer to a request. -/
def answer (r : Request α) (s : Service) : Except Failure α := (handle r s).1.result

/-- Histories of public requests lead to reachable databases. -/
theorem reachable_after {history : List Event}
    (visible : ∀ e ∈ history, e.request.isPublic = true) :
    Reachable (empty.after history).db (empty.after history).importer.toList := by
  induction history with
  | nil => exact .empty
  | cons e past ih =>
    have reached := ih fun e member => visible e (List.mem_cons_of_mem _ member)
    exact reached.next e.request (visible e List.mem_cons_self)

theorem run_onSession (x : Fallible Session Error α) (i : Option Importer) (v : Session) :
    (onSession x).run (i, v) = ((x.run v).1.mapError .error, (i, (x.run v).2)) := rfl

theorem handle_eq {a : Except Failure α} {j : Option Importer} {v : Session}
    (run : (work r).run (s.importer, .on s.db) = (a, (j, v))) :
    answer r s = a ∧ (handle r s).1.calls = v.calls.reverse ∧ (handle r s).2 = ⟨v.db, j⟩ := by
  unfold answer handle
  rw [run]
  exact ⟨rfl, rfl, rfl⟩

/-! ## Requests that find a transaction open -/

/-- The request was refused, changed nothing and only tried to begin transactions. -/
structure Barred (r : Request α) (s : Service) : Prop where
  refused : r.Refused (answer r s)
  same : (handle r s).2 = s
  calls : ∀ c ∈ (handle r s).1.calls, c = .begin

theorem barred_of_run {a : Except Failure α} {v : Session}
    (run : (work r).run (s.importer, .on s.db) = (a, (s.importer, v))) (refused : r.Refused a)
    (barred : (Session.on s.db).Barred v) : Barred r s := by
  obtain ⟨answered, calls, state⟩ := handle_eq run
  refine ⟨answered ▸ refused, ?_, ?_⟩
  · rw [state, barred.db]
    rfl
  · intro c member
    obtain ⟨attempts, made, begins⟩ := barred.calls
    rw [calls, made, List.mem_reverse] at member
    rcases List.mem_append.mp member with attempt | before
    · exact begins c attempt
    · cases before

/-- **While a transaction is open** a rebuild or another import is refused. -/
theorem handle_barred (opened : s.db.inTransaction = true)
    (kind : (r.isRebuild || r.beginsImport) = true) : Barred r s := by
  have on : (Session.on s.db).db.inTransaction = true := opened
  cases r with
  | beginImport name =>
    obtain ⟨e, v, run, barred⟩ := Importer.begin_barred on name
    have began : (onSession (Importer.begin name)).run (s.importer, .on s.db) =
        (.error (.error e), (s.importer, v)) := by
      rw [run_onSession, run]
      rfl
    refine barred_of_run (a := .error (.error e)) ?_ trivial barred
    show (beginImport name).run (s.importer, .on s.db) = _
    rw [beginImport, Fallible.run_bind, began]
  | rebuild plan mode defs =>
    obtain ⟨outcomes, barred⟩ := Rebuild.all_barred plan mode on defs
    exact barred_of_run rfl outcomes barred
  | rebuildList plan mode name p =>
    obtain ⟨⟨e, outcome⟩, barred⟩ := Rebuild.list_barred plan mode on name p
    refine barred_of_run rfl ?_ barred
    show (Rebuild.list plan mode name p (.on s.db)).1.isCommitted = false
    rw [outcome]
    rfl
  | rebuildCoverage plan =>
    obtain ⟨e, v, run, barred⟩ := Rebuild.coverage_barred plan on
    refine barred_of_run (a := .error (.error e)) ?_ trivial barred
    show (onSession (Rebuild.coverage plan)).run (s.importer, .on s.db) = _
    rw [run_onSession, run]
    rfl
  | refresh plan mode defs =>
    obtain ⟨coverage, outcomes, barred⟩ := Rebuild.refresh_barred plan mode on defs
    exact barred_of_run rfl ⟨coverage, outcomes⟩ barred
  | _ => exact Bool.noConfusion kind

/-! ## A small history -/

/-- The first import of a registrar. -/
def firstImport : List Event :=
  [⟨.finishImport 7⟩,
    ⟨.insertNetblock .v6 (.range (.wrap .v6 8) (.wrap .v6 15) 125) ⟨none, "B", ""⟩⟩,
    ⟨.insertNetblock .v4 (.range (.wrap .v4 0) (.wrap .v4 255) 24) ⟨some "ORG", "A", ""⟩⟩,
    ⟨.insertOrg ⟨"ORG", "An organization", ""⟩⟩, ⟨.beginImport "TEST"⟩]

/-- The second one is open and has changed an organization. -/
def secondImport : List Event :=
  ⟨.insertOrg ⟨"ORG", "Renamed", ""⟩⟩ :: ⟨.beginImport "TEST"⟩ :: firstImport

/-- It is dropped. -/
def dropped : List Event := ⟨.dropImport⟩ :: secondImport

theorem dropped_routine : ∀ e ∈ dropped, e.Routine := by
  intro e member
  simp only [dropped, secondImport, firstImport, List.mem_cons, List.not_mem_nil, or_false] at member
  rcases member with rfl | rfl | rfl | rfl | rfl | rfl | rfl | rfl <;> exact ⟨rfl, fun _ => rfl⟩

end Service

end NetRegistry
