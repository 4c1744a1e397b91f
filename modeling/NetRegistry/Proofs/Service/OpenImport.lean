/-
# Proofs.Service.OpenImport -- an open import is not disturbed

All callers share one database and one transaction.  While an import is open,
rebuilds and further imports are refused before they change anything
(`handle_barred`), so its inserts write what they would write alone, and however
it ends, it ends as if the others had not been there.

* `bracketed_after`: in an orderly history there is a transaction exactly while
  there is an import.
* `after_filter`: between its inserts an open import sees nothing of the others.

**Main theorem** `import_undisturbed`.
-/
import NetRegistry.Proofs.Service.Moves

namespace NetRegistry

set_option autoImplicit false

open Fallible (Keeps)

namespace Service

variable {α : Type} {s : Service}

/-! ## Transactions and imports -/

/-- A request without transactions leaves alone what there is to go back to, and keeps the import
if one is open. -/
theorem handle_plain {r : Request α} (plain : r.isPlain = true) (s : Service) :
    (handle r s).2.importer.isSome = s.importer.isSome ∧
      (handle r s).2.db.saved = s.db.saved := by
  have keeps : Keeps (Holds s.importer.isSome fun db => db.saved = s.db.saved) (work r) :=
    keeps_plain (Database.stable_saved s.db.saved) r plain
  exact keeps.run (s := (s.importer, .on s.db)) ⟨rfl, rfl⟩

theorem plain_bracketed {r : Request α} (plain : r.isPlain = true) (bracketed : s.Bracketed) :
    (handle r s).2.Bracketed := by
  obtain ⟨importer, saved⟩ := handle_plain plain s
  unfold Bracketed Database.inTransaction at *
  rw [saved, importer]
  exact bracketed

/-- In an orderly history a transaction is open exactly while an import is. -/
theorem bracketed_after {history : List Event} (orderly : ∀ e ∈ history, e.Orderly) :
    (empty.after history).Bracketed := by
  induction history with
  | nil => rfl
  | cons e past ih =>
    have earlier := fun d member => orderly d (List.mem_cons_of_mem _ member)
    have bracketed := ih earlier
    have sound := (reachable_after fun d member => (earlier d member).visible).database.sound.1
    obtain ⟨visible, automatic, rollsBack⟩ := orderly e List.mem_cons_self
    show (handle e.request (empty.after past)).2.Bracketed
    obtain ⟨r⟩ := e
    by_cases plain : r.isPlain = true
    · exact plain_bracketed plain bracketed
    · by_cases kind : (r.beginsImport || r.endsImport || r.isRebuild) = true
      · exact (moves_unless_insert bracketed sound kind rollsBack).bracketed bracketed
      · -- What is left is to open the database again, which closes everything.
        cases r with
        | reopen =>
          obtain ⟨db, _ | i⟩ := empty.after past <;> rfl
        | _ => first
          | exact absurd rfl plain
          | exact absurd rfl kind
          | exact Bool.noConfusion automatic
          | exact Bool.noConfusion visible

/-! ## Calls between inserts -/

/-- An import is open, in its transaction. -/
structure Importing (s : Service) : Prop where
  held : s.importer.isSome = true
  opened : s.db.inTransaction = true

theorem plain_of_insert {r : Request α} (insert : r.isInsert = true) : r.isPlain = true := by
  cases r <;> first | rfl | exact Bool.noConfusion insert

theorem insert_importing {r : Request α} (insert : r.isInsert = true) (importing : s.Importing) :
    (handle r s).2.Importing := by
  obtain ⟨importer, saved⟩ := handle_plain (plain_of_insert insert) s
  refine ⟨importer.trans importing.held, ?_⟩
  unfold Database.inTransaction
  rw [saved]
  exact importing.opened

/-- Between its inserts an open import sees nothing of rebuilds and other imports. -/
theorem after_filter (importing : s.Importing) {calls : List Event}
    (interleaved : ∀ e ∈ calls, e.isInsert = true ∨ e.isForeign = true) :
    (s.after calls).Importing ∧
      s.after calls = s.after (calls.filter Event.isInsert) := by
  induction calls with
  | nil => exact ⟨importing, rfl⟩
  | cons e past ih =>
    obtain ⟨still, same⟩ := ih fun d member => interleaved d (List.mem_cons_of_mem _ member)
    by_cases insert : e.isInsert = true
    · rw [List.filter_cons_of_pos insert]
      exact ⟨insert_importing insert still, congrArg (fun s => (handle e.request s).2) same⟩
    · have foreign := (interleaved e List.mem_cons_self).resolve_left insert
      have barred : Barred e.request (s.after past) := handle_barred still.opened foreign
      have unchanged : s.after (e :: past) = s.after past := barred.same
      rw [List.filter_cons_of_neg insert, unchanged]
      exact ⟨still, same⟩

/-- Whatever rebuilds and other imports are asked for between the inserts of the open import, each of
them is refused, and the end of the import is what it is without them. -/
structure Undisturbed (s : Service) (calls : List Event) : Prop where
  importing : (s.after calls).Importing
  /-- A rebuild or another import is refused, changes nothing and only tries to begin. -/
  barred : ∀ e : Event, e.isForeign = true → Barred e.request (s.after calls)
  /-- The end gives the same statistics and the same database as without such requests. -/
  ends : ∀ e : Event, e.request.endsImport = true →
    answer e.request (s.after calls) =
        answer e.request (s.after (calls.filter Event.isInsert)) ∧
      s.after (e :: calls) = s.after (e :: calls.filter Event.isInsert)

/-- **An open import cannot be disturbed.** A transaction is open exactly while an import is, unless
somebody begins or ends transactions by hand; and while an import is open in its transaction, no
interleaving of its inserts with rebuilds and other imports disturbs it. -/
theorem import_undisturbed (history : List Event) :
    ((∀ e ∈ history, e.Orderly) →
      ((empty.after history).db.inTransaction = true ↔
        (empty.after history).importer.isSome = true)) ∧
    ((empty.after history).Importing → ∀ calls : List Event,
      (∀ e ∈ calls, e.isInsert = true ∨ e.isForeign = true) →
      Undisturbed (empty.after history) calls) := by
  constructor
  · intro orderly
    have bracketed := bracketed_after orderly
    unfold Bracketed at bracketed
    rw [bracketed]
  · intro importing calls interleaved
    obtain ⟨still, same⟩ := after_filter importing interleaved
    refine ⟨still, fun e foreign => handle_barred still.opened foreign, ?_⟩
    intro e _
    refine ⟨?_, ?_⟩
    · rw [same]
    · show (handle e.request _).2 = (handle e.request _).2
      rw [same]

/-- What is asked for while the second import is open. -/
def interleaved : List Event :=
  [⟨.beginImport "OTHER"⟩, ⟨.insertOrg ⟨"ORG", "Renamed again", ""⟩⟩, ⟨.rebuildCoverage .none⟩,
    ⟨.rebuild .none .stream [Definition.named "all"]⟩]

theorem import_undisturbed_interleaved :
    (empty.after secondImport).db.tables.netblocks.v4.length = 1 ∧
      (empty.after secondImport).Importing ∧
      Undisturbed (empty.after secondImport) interleaved := by
  have orderly : ∀ e ∈ secondImport, e.Orderly :=
    fun e member => (dropped_routine e (List.mem_cons_of_mem _ member)).orderly
  have calls : ∀ e ∈ interleaved, e.isInsert = true ∨ e.isForeign = true := by decide
  obtain ⟨bracketed, undisturbed⟩ := import_undisturbed secondImport
  have importing : (empty.after secondImport).Importing := ⟨rfl, (bracketed orderly).mpr rfl⟩
  exact ⟨rfl, importing, undisturbed importing interleaved calls⟩

end Service

end NetRegistry
