/-
# Proofs.Service.Frame -- finished imports of a history

The tables that matter are those right before an import began and those right
after it was finished.  Whatever was asked for in between, only what the import
itself has delivered, as the ledger tells it, decides what is different.

**Main theorem** `finished_framed`.
-/
import NetRegistry.Proofs.Import.Frame
import NetRegistry.Proofs.Service.Mirror

namespace NetRegistry

set_option autoImplicit false

open Importer (Delivery Writes)

namespace Service

/-! ## The delivery of the open import -/

section Ledger

variable {α : Type} {r : Request α} {a : Except Failure α} {l : Ledger} {name : String}
  {d : Delivery}

/-- While an import is not ended, the ledger has it as the current one. -/
theorem Moves.current {t saved : Tables} {i : Importer} {u : Service}
    (moves : Moves r a ⟨⟨t, some saved⟩, some i⟩ u) (unended : r.endsImport = false)
    (current : l.current = some (name, d)) : ∃ e, (l.note r a).current = some (name, e) := by
  cases moves with
  | refused refused =>
    rw [Ledger.note_refused refused unended]
    exact ⟨d, current⟩
  | wrote insert =>
    rw [Ledger.note_insert insert current]
    exact ⟨_, rfl⟩
  | finished | aborted | dropped => exact Bool.noConfusion unended

end Ledger

variable {past later : List Event} {name : String} {now : Nat} {i : Importer}

theorem opened_after (routine : ∀ e ∈ (⟨.beginImport name⟩ : Event) :: past, e.Routine)
    (accepted : answer (.beginImport name) (empty.after past) = .ok i) :
    ∃ t v j, empty.after past = ⟨⟨t, none⟩, none⟩ ∧
      empty.after (⟨.beginImport name⟩ :: past) = ⟨⟨v, some t⟩, some j⟩ := by
  have began : ¬ (Request.beginImport name).Refused
      (answer (.beginImport name) (empty.after past)) := by
    rw [accepted]
    exact fun refused => refused
  exact (moves_after routine).begins rfl began

/-- The ledger knows the import that began last by its registrar. -/
theorem current_after (routine : ∀ e ∈ later ++ ⟨.beginImport name⟩ :: past, e.Routine)
    (accepted : answer (.beginImport name) (empty.after past) = .ok i)
    (unended : ∀ e ∈ later, e.request.endsImport = false) :
    ∃ d, (ledger (later ++ ⟨.beginImport name⟩ :: past)).current = some (name, d) := by
  induction later with
  | nil =>
    refine ⟨.empty, ?_⟩
    show ((ledger past).note (.beginImport name) _).current = _
    rw [accepted]
    rfl
  | cons e later ih =>
    have earlier := fun d member => routine d (List.mem_cons_of_mem _ member)
    have unended' := fun d member => unended d (List.mem_cons_of_mem _ member)
    obtain ⟨d, current⟩ := ih earlier unended'
    obtain ⟨t, v, j, -, opened⟩ :=
      opened_after (fun e member => earlier e (List.mem_append_right _ member)) accepted
    obtain ⟨u, k, still⟩ := open_after earlier opened unended'
    have moves : Moves e.request (answer e.request (empty.after (later ++ ⟨.beginImport name⟩ :: past)))
        (empty.after (later ++ ⟨.beginImport name⟩ :: past)) _ := moves_after routine
    rw [still] at moves
    have noted := moves.current (unended e List.mem_cons_self) current
    rw [← still] at noted
    exact noted

/-! ## Finishing -/

theorem finish_handled {s : Service} {t saved : Tables} (opened : s = ⟨⟨t, some saved⟩, some i⟩)
    (now : Nat) :
    (∃ stats, answer (.finishImport now) s = .ok stats) ∧
      (handle (.finishImport now) s).2 = ⟨⟨i.settledTables now t, none⟩, none⟩ := by
  subst opened
  obtain ⟨stats, v, run, db⟩ := Importer.finish_settles (s := .on ⟨t, some saved⟩) rfl now i
  obtain ⟨answered, state⟩ := finish_of_run run db
  exact ⟨⟨stats, answered⟩, state⟩

/-- The registrar of a finished import is found by its name. -/
theorem registrarNamed?_settledTables {saved t : Tables} {finished : String → List Delivery}
    {d : Delivery} (mirrors : Mirrors saved finished) (begins : i.Begins (saved.registered name).1)
    (writes : Writes i.registrar.id i.serial (saved.registered name).2 .empty t d) (now : Nat) :
    ∃ row, (i.settledTables now t).registrarNamed? name = some row ∧ row.id = i.registrar.id := by
  obtain ⟨enrolled, named, -⟩ := mirrors.enrolled name
  have stamped : (fun r => (Mirrors.stamp i now r).name == name) = fun r => r.name == name := by
    funext r
    rw [Mirrors.stamp_name]
  have found : t.registrars.find? (·.name == name) = some (saved.registered name).1 := by
    rw [writes.frame.registrars]
    simpa only [named] using find?_key enrolled.names enrolled.member
  refine ⟨Mirrors.stamp i now (saved.registered name).1, ?_, ?_⟩
  · show (t.registrars.map (Mirrors.stamp i now)).find? (·.name == name) = _
    rw [List.find?_map]
    show (t.registrars.find? fun r => (Mirrors.stamp i now r).name == name).map _ = _
    rw [stamped, found]
    rfl
  · rw [Mirrors.stamp_id, begins.id]

theorem Mirroring.mirrors {l : Ledger} {t : Tables} (mirroring : Mirroring l ⟨⟨t, none⟩, none⟩) :
    Mirrors t l.finished := by
  cases mirroring with
  | closed mirrors => exact mirrors

/-- **A finished import leaves alone** everything but its registrar, the records of that registrar,
and the memberships of those that it did not report again. -/
theorem finished_framed
    (routine : ∀ e ∈ ⟨.finishImport now⟩ :: (later ++ ⟨.beginImport name⟩ :: past), e.Routine)
    (accepted : answer (.beginImport name) (empty.after past) = .ok i)
    (unended : ∀ e ∈ later, e.request.endsImport = false) :
    (∃ stats, answer (.finishImport now) (empty.after (later ++ ⟨.beginImport name⟩ :: past)) =
        .ok stats) ∧
      ∃ d row, (ledger (later ++ ⟨.beginImport name⟩ :: past)).current = some (name, d) ∧
        (empty.after (⟨.finishImport now⟩ ::
          (later ++ ⟨.beginImport name⟩ :: past))).db.tables.registrarNamed? name = some row ∧
        Framed name row.id d (empty.after past).db.tables
          (empty.after (⟨.finishImport now⟩ :: (later ++ ⟨.beginImport name⟩ :: past))).db.tables := by
  have earlier := fun e member => routine e (List.mem_cons_of_mem _ member)
  obtain ⟨saved, v, j, before, opened⟩ :=
    opened_after (fun e member => earlier e (List.mem_append_right _ member)) accepted
  obtain ⟨t, k, still⟩ := open_after earlier opened unended
  obtain ⟨d, noted⟩ := current_after earlier accepted unended
  have linked := (reachable_after fun e member => (earlier e member).visible).database.linked.1
  have mirroring := mirroring_after earlier
  obtain ⟨answered, state⟩ := finish_handled still now
  have after : empty.after (⟨.finishImport now⟩ :: (later ++ ⟨.beginImport name⟩ :: past)) =
      ⟨⟨k.settledTables now t, none⟩, none⟩ := state
  have mirrored := mirroring_after routine
  rw [after] at mirrored ⊢
  rw [still] at linked mirroring
  rw [before]
  refine ⟨answered, d, ?_⟩
  generalize ledger (later ++ ⟨.beginImport name⟩ :: past) = l at noted mirroring ⊢
  cases mirroring with
  | @importing _ _ _ other e mirrors begins writes current =>
    rw [noted] at current
    obtain ⟨rfl, rfl⟩ := Prod.mk.inj (Option.some.inj current)
    obtain ⟨row, found, own⟩ := registrarNamed?_settledTables mirrors begins writes now
    exact ⟨row, noted, found, own ▸ mirrors.framed begins writes linked mirrored.mirrors⟩

/-- Another registrar has imported a netblock of the same range. -/
def shared : List Event :=
  ⟨.finishImport 8⟩ :: ⟨.insertNetblock .v4 (.range (.wrap .v4 0) (.wrap .v4 255) 24) ⟨none, "C", ""⟩⟩ ::
    ⟨.beginImport "OTHER"⟩ :: firstImport

/-- The first one reports its netblock of that range again, and nothing else. -/
def reportedAgain : List Event :=
  [⟨.insertNetblock .v4 (.range (.wrap .v4 0) (.wrap .v4 255) 24) ⟨some "ORG", "A", ""⟩⟩]

/-- That import is finished. -/
def reimported : List Event := ⟨.finishImport 9⟩ :: (reportedAgain ++ ⟨.beginImport "TEST"⟩ :: shared)

theorem finished_framed_reimported :
    (∀ e ∈ reimported, e.Routine) ∧
      (∃ i, answer (.beginImport "TEST") (empty.after shared) = .ok i) ∧
      ((empty.after shared).db.tables.netblocks.get .v6).length = 1 ∧
      ((empty.after reimported).db.tables.netblocks.get .v6).length = 0 ∧
      ∃ d row, (ledger (reportedAgain ++ ⟨.beginImport "TEST"⟩ :: shared)).current = some ("TEST", d) ∧
        (empty.after reimported).db.tables.registrarNamed? "TEST" = some row ∧
        Framed "TEST" row.id d (empty.after shared).db.tables (empty.after reimported).db.tables := by
  have routine : ∀ e ∈ reimported, e.Routine := by
    intro e member
    simp only [reimported, reportedAgain, shared, firstImport, List.mem_cons, List.mem_append,
      List.not_mem_nil, or_false] at member
    rcases member with rfl | rfl | rfl | rfl | rfl | rfl | rfl | rfl | rfl | rfl | rfl <;>
      exact ⟨rfl, fun _ => rfl⟩
  have unended : ∀ e ∈ reportedAgain, e.request.endsImport = false := by
    intro e member
    rw [List.mem_singleton.mp member]
    rfl
  have accepted : ∃ i, answer (.beginImport "TEST") (empty.after shared) = .ok i := ⟨_, rfl⟩
  obtain ⟨i, began⟩ := accepted
  exact ⟨routine, ⟨i, began⟩, rfl, rfl, (finished_framed routine began unended).2⟩

end Service

end NetRegistry
