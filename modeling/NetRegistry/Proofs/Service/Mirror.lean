/-
# Proofs.Service.Mirror -- the database mirrors the last complete imports

The ledger of a history is what its requests and their answers tell of imports:
the deliveries that every registrar has finished and the one of the import that
is open.  It does not look at the tables.

* `mirroring_after`: along a routine history the finished deliveries are mirrored
  by the tables, and under an open import by the tables to go back to.
* `abandoned_after`: an import that is aborted or dropped leaves everything as it
  was before it began, whatever it wrote.

**Main theorem** `imports_mirrored`.
-/
import NetRegistry.Proofs.Import.Mirror
import NetRegistry.Proofs.Service.Moves

namespace NetRegistry

set_option autoImplicit false

open Importer (Begins Delivery Settled Writes)

/-- The deliveries of every registrar that were finished, newest first, and the import that is
open. -/
structure Ledger where
  finished : String → List Delivery
  current : Option (String × Delivery)

namespace Ledger

def empty : Ledger := ⟨fun _ => [], none⟩

/-- The ledger after a request, by its answer. -/
def note : {α : Type} → Request α → Except Failure α → Ledger → Ledger
  | _, .beginImport name, .ok _, l => { l with current := some (name, .empty) }
  | _, .finishImport _, .ok _, ⟨finished, some (name, d)⟩ => ⟨d.finish finished name, none⟩
  | _, .finishImport _, _, l => { l with current := none }
  | _, .abortImport, _, l => { l with current := none }
  | _, .dropImport, _, l => { l with current := none }
  | _, r, a, l => { l with current := l.current.map fun c => (c.1, r.delivered a c.2) }

variable {α : Type} {r : Request α} {a : Except Failure α} {l : Ledger}

theorem current_same (l : Ledger) : { l with current := l.current.map fun c => (c.1, c.2) } = l := by
  obtain ⟨finished, _ | c⟩ := l <;> rfl

/-- A request that was refused leaves no note. -/
theorem note_refused (refused : r.Refused a) (kind : r.endsImport = false) : l.note r a = l := by
  cases a with
  | error e =>
    cases r with
    | finishImport _ | abortImport | dropImport => exact Bool.noConfusion kind
    | _ => exact l.current_same
  | ok answer =>
    cases r with
    | rebuild _ _ _ | rebuildList _ _ _ _ | refresh _ _ _ => exact l.current_same
    | finishImport _ | abortImport | dropImport => exact Bool.noConfusion kind
    | _ => exact refused.elim

theorem note_nothing (kind : r.endsImport = true) (none : l.current = none) : l.note r a = l := by
  obtain ⟨finished, current⟩ := l
  cases none
  cases r with
  | finishImport _ => cases a <;> rfl
  | abortImport | dropImport => rfl
  | _ => exact Bool.noConfusion kind

theorem note_insert (kind : r.isInsert = true) {name : String} {d : Delivery}
    (current : l.current = some (name, d)) :
    l.note r a = ⟨l.finished, some (name, r.delivered a d)⟩ := by
  obtain ⟨finished, _⟩ := l
  cases current
  cases r with
  | insertOrg _ | insertNetblock _ _ _ | insertRange _ _ _ => rfl
  | _ => exact Bool.noConfusion kind

theorem note_rebuild (kind : r.isRebuild = true) : l.note r a = l := by
  cases r with
  | rebuild _ _ _ | rebuildList _ _ _ _ | rebuildCoverage _ | refresh _ _ _ =>
    cases a <;> exact l.current_same
  | _ => exact Bool.noConfusion kind

end Ledger

/-! ## What the tables are -/

/-- The rows of a registrar are what its last finished delivery reported, the last report of a handle
or of a range counting, under the number of its finished imports. -/
structure Mirrored (t : Tables) (r : RegistrarRow) (deliveries : List Delivery) : Prop where
  serial : r.serial = deliveries.length
  orgs : ∀ handle : String,
    (t.orgs.filter fun o => o.registrar = r.id ∧ o.handle = handle).map OrgRow.written =
      ((deliveries.head?.bind fun d => d.orgs.find? (·.handle = handle)).map
        (·.row r.id r.serial)).toList
  netblocks : ∀ {f : Family} (range : Range f),
    ((t.netblocks.get f).filter fun n =>
        n.registrar = r.id ∧ (n.first, n.last) = range.toRow).map NetblockRow.written =
      ((deliveries.head?.bind fun d => (d.netblocks.get f).find? (·.range = range)).map
        (·.row r.id r.serial)).toList

/-- What the database holds when no import is open, by the deliveries that were finished. -/
structure MirrorsImports (finished : String → List Delivery) (db : Database) : Prop where
  closed : db.saved = none
  ids : (db.tables.registrars.map (·.id)).Nodup
  names : (db.tables.registrars.map (·.name)).Nodup
  /-- The registrars are those that finished an import. -/
  registrars : ∀ name, (∃ r ∈ db.tables.registrars, r.name = name) ↔ finished name ≠ []
  mirrored : ∀ r ∈ db.tables.registrars, Mirrored db.tables r (finished r.name)
  /-- There are no other organizations. -/
  orgs : ∀ o ∈ db.tables.orgs, ∃ r ∈ db.tables.registrars, o.registrar = r.id
  /-- There are no other netblocks, and every one has the addresses of a range. -/
  netblocks : ∀ f, ∀ n ∈ db.tables.netblocks.get f,
    (∃ r ∈ db.tables.registrars, n.registrar = r.id) ∧
      ∃ range : Range f, (n.first, n.last) = range.toRow

section Mirrors

variable {t : Tables} {finished : String → List Delivery} {r : RegistrarRow}

/-- What the last delivery of a registrar asks for. -/
theorem Mirrors.asked (mirrors : Mirrors t finished) (member : r ∈ t.registrars) {α κ : Type}
    (K : Kind α κ) (k : κ) :
    K.mirrored t finished r.id k = (finished r.name).head?.bind fun d => K.asked d r.id r.serial k := by
  have found : t.registrar? r.id = some r := find?_key mirrors.ids member
  rw [Kind.mirrored, found]
  rfl

theorem netblock?_toRow {f : Family} (d : Delivery) (range : Range f) :
    d.netblock? f range.toRow = (d.netblocks.get f).find? (·.range = range) := by
  unfold Delivery.netblock?
  congr 1
  funext n
  rw [Bool.eq_iff_iff]
  simp [Range.toRow, toCell_inj, Range.ext_iff]

theorem Mirrors.registrar (mirrors : Mirrors t finished) (member : r ∈ t.registrars) :
    Mirrored t r (finished r.name) := by
  refine ⟨mirrors.serials r member, ?_, ?_⟩
  · intro handle
    have shown := mirrors.orgs r.id handle
    rw [mirrors.asked member, Keying.has_eq_decide] at shown
    rw [Option.map_bind]
    exact shown
  · intro f range
    have shown := mirrors.netblocks f r.id range.toRow
    rw [mirrors.asked member, Keying.has_eq_decide] at shown
    simp only [← netblock?_toRow]
    rw [Option.map_bind]
    exact shown

/-- Every row that is shown belongs to a registrar that asked for it. -/
theorem asked_of_mem {α κ : Type} [DecidableEq κ] {K : Kind α κ} {rows : List α}
    (shows : K.Shows rows (K.mirrored t finished)) {row : α} (member : row ∈ rows) :
    ∃ r ∈ t.registrars, r.id = K.owner row ∧ ∃ d ∈ (finished r.name).head?,
      (K.asked d (K.owner row) r.serial (K.key row)).isSome = true := by
  obtain ⟨r, found, bound⟩ := Option.bind_eq_some_iff.mp (shows.of_mem member).2
  obtain ⟨d, last, asked⟩ := Option.bind_eq_some_iff.mp bound
  have id : r.id = K.owner row := by simpa using List.find?_some found
  exact ⟨r, List.mem_of_find?_eq_some found, id, d, last, Option.isSome_iff_exists.mpr ⟨_, asked⟩⟩

theorem Mirrors.database (mirrors : Mirrors t finished) : MirrorsImports finished ⟨t, none⟩ := by
  refine ⟨rfl, mirrors.ids, mirrors.names, mirrors.known, ?_, ?_, ?_⟩
  · intro r member
    exact mirrors.registrar member
  · intro o member
    obtain ⟨r, listed, id, -⟩ := asked_of_mem mirrors.orgs member
    exact ⟨r, listed, id.symm⟩
  · intro f n member
    obtain ⟨r, listed, id, d, -, asked⟩ := asked_of_mem (mirrors.netblocks f) member
    refine ⟨⟨r, listed, id.symm⟩, ?_⟩
    have found : (d.netblock? f (n.first, n.last)).isSome = true := by
      rw [← Option.isSome_map]
      exact asked
    obtain ⟨reported, found⟩ := Option.isSome_iff_exists.mp found
    have cells := List.find?_some found
    simp only [Bool.and_eq_true, beq_iff_eq] at cells
    exact ⟨reported.range, Prod.ext cells.1.symm cells.2.symm⟩

end Mirrors

namespace Service

/-- What a history tells of imports. -/
def ledger : List Event → Ledger
  | [] => .empty
  | e :: past => (ledger past).note e.request (answer e.request (empty.after past))

/-! ## What the tables mirror -/

/-- The tables mirror the finished deliveries.  Under an open import the tables to go back to do, and
the delivery of the import is what it has written since. -/
inductive Mirroring (l : Ledger) : Service → Prop
  | closed {t : Tables} (mirrors : Mirrors t l.finished) (current : l.current = none) :
      Mirroring l ⟨⟨t, none⟩, none⟩
  | importing {t saved : Tables} {i : Importer} {name : String} {d : Delivery}
      (mirrors : Mirrors saved l.finished) (begins : i.Begins (saved.registered name).1)
      (writes : Writes i.registrar.id i.serial (saved.registered name).2 .empty t d)
      (current : l.current = some (name, d)) : Mirroring l ⟨⟨t, some saved⟩, some i⟩

theorem Moves.mirroring {α : Type} {r : Request α} {a : Except Failure α} {s u : Service}
    {l : Ledger} (moves : Moves r a s u) (mirroring : Mirroring l s) :
    Mirroring (l.note r a) u := by
  cases moves with
  | refused refused kind =>
    rw [Ledger.note_refused refused kind]
    exact mirroring
  | nothing kind =>
    cases mirroring with
    | closed mirrors current =>
      rw [Ledger.note_nothing kind current]
      exact .closed mirrors current
  | began begins =>
    cases mirroring with
    | closed mirrors => exact .importing mirrors begins (.refl _ _) rfl
  | wrote insert continues writes =>
    cases mirroring with
    | @importing _ _ _ name d mirrors begins written current =>
      rw [Ledger.note_insert insert current]
      refine .importing mirrors (begins.goesOn continues) ?_ rfl
      rw [continues.registrar, continues.serial]
      exact written.trans (writes d)
  | finished settled =>
    cases mirroring with
    | @importing _ _ _ name d mirrors begins written current =>
      obtain ⟨finished, _⟩ := l
      cases current
      exact .closed (mirrors.settled begins written settled) rfl
  | aborted =>
    cases mirroring with
    | importing mirrors => exact .closed mirrors rfl
  | dropped =>
    cases mirroring with
    | importing mirrors => exact .closed mirrors rfl
  | rebuilt rebuild passed =>
    cases mirroring with
    | closed mirrors current =>
      rw [Ledger.note_rebuild rebuild]
      have same := passed.imports
      exact .closed (mirrors.congr same.registrars same.orgs same.netblocks) current

theorem mirroring_after {history : List Event} (routine : ∀ e ∈ history, e.Routine) :
    Mirroring (ledger history) (empty.after history) := by
  induction history with
  | nil => exact .closed .empty rfl
  | cons e past ih =>
    have earlier := ih fun d member => routine d (List.mem_cons_of_mem _ member)
    exact (moves_after routine).mirroring earlier

/-! ## Imports that were given up -/

section Abandoned

variable {α : Type} {r : Request α} {a : Except Failure α}

theorem Moves.begins {s u : Service} (moves : Moves r a s u) (kind : r.beginsImport = true)
    (accepted : ¬ r.Refused a) :
    ∃ t v i, s = ⟨⟨t, none⟩, none⟩ ∧ u = ⟨⟨v, some t⟩, some i⟩ := by
  cases moves with
  | refused refused => exact absurd refused accepted
  | began => exact ⟨_, _, _, rfl, rfl⟩
  | nothing ends => exact Bool.noConfusion (ends.symm.trans (Request.not_end_of_begin kind))
  | wrote insert => exact Bool.noConfusion (insert.symm.trans (Request.not_insert_of_begin kind))
  | rebuilt rebuild => exact Bool.noConfusion (rebuild.symm.trans (Request.not_rebuild_of_begin kind))
  | finished | aborted | dropped => exact Bool.noConfusion kind

theorem Moves.goesOn {t saved : Tables} {i : Importer} {u : Service}
    (moves : Moves r a ⟨⟨t, some saved⟩, some i⟩ u) (unended : r.endsImport = false) :
    ∃ v j, u = ⟨⟨v, some saved⟩, some j⟩ := by
  cases moves with
  | refused => exact ⟨_, _, rfl⟩
  | wrote => exact ⟨_, _, rfl⟩
  | finished | aborted | dropped => exact Bool.noConfusion unended

theorem Moves.goesBack {t saved : Tables} {i : Importer} {u : Service}
    (moves : Moves r a ⟨⟨t, some saved⟩, some i⟩ u) (kind : r.abandonsImport = true) :
    u = ⟨⟨saved, none⟩, none⟩ := by
  cases moves with
  | refused _ unended => exact Bool.noConfusion (unended.symm.trans (Request.end_of_abandon kind))
  | wrote insert =>
    have ends := Request.end_of_abandon kind
    exact Bool.noConfusion (insert.symm.trans (Request.not_insert_of_end ends))
  | finished => exact Bool.noConfusion kind
  | aborted | dropped => rfl

end Abandoned

/-- While an import is not ended, what it would go back to stays. -/
theorem open_after {past later : List Event} (routine : ∀ e ∈ later ++ past, e.Routine)
    {t saved : Tables} {i : Importer} (opened : empty.after past = ⟨⟨t, some saved⟩, some i⟩)
    (unended : ∀ e ∈ later, e.request.endsImport = false) :
    ∃ u j, empty.after (later ++ past) = ⟨⟨u, some saved⟩, some j⟩ := by
  induction later with
  | nil => exact ⟨t, i, opened⟩
  | cons e later ih =>
    obtain ⟨u, j, still⟩ := ih (fun d member => routine d (List.mem_cons_of_mem _ member))
      fun d member => unended d (List.mem_cons_of_mem _ member)
    have moves : Moves e.request (answer e.request (empty.after (later ++ past)))
        (empty.after (later ++ past)) (empty.after (e :: (later ++ past))) := moves_after routine
    rw [still] at moves
    exact moves.goesOn (unended e List.mem_cons_self)

/-- **An import that was aborted or dropped** leaves the service as it was before the import began,
whatever was asked for meanwhile. -/
theorem abandoned_after {past later : List Event} {beginning ending : Event}
    (routine : ∀ e ∈ ending :: (later ++ beginning :: past), e.Routine)
    (begins : beginning.request.beginsImport = true)
    (accepted : ¬ beginning.request.Refused (answer beginning.request (empty.after past)))
    (unended : ∀ e ∈ later, e.request.endsImport = false)
    (abandons : ending.request.abandonsImport = true) :
    empty.after (ending :: (later ++ beginning :: past)) = empty.after past := by
  have earlier := fun e member => routine e (List.mem_cons_of_mem _ member)
  have opening := moves_after fun e member => earlier e (List.mem_append_right later member)
  obtain ⟨t, v, i, before, opened⟩ := opening.begins begins accepted
  obtain ⟨u, j, still⟩ := open_after earlier opened unended
  have closing := moves_after routine
  rw [still] at closing
  rw [before]
  exact closing.goesBack abandons

/-- **The database mirrors the last complete imports.** After every routine history, when no import
is open, the rows of every registrar are what its last finished delivery reported, under the number
of its finished imports; and an import that was aborted or dropped has left no trace. -/
theorem imports_mirrored {history : List Event} (routine : ∀ e ∈ history, e.Routine) :
    ((empty.after history).importer = none →
      MirrorsImports (ledger history).finished (empty.after history).db) ∧
    ∀ (past later : List Event) (beginning ending : Event),
      history = ending :: (later ++ beginning :: past) →
      beginning.request.beginsImport = true →
      ¬ beginning.request.Refused (answer beginning.request (empty.after past)) →
      (∀ e ∈ later, e.request.endsImport = false) →
      ending.request.abandonsImport = true → empty.after history = empty.after past := by
  constructor
  · intro closed
    have mirroring := mirroring_after routine
    generalize empty.after history = s at closed mirroring ⊢
    cases mirroring with
    | closed mirrors => exact Mirrors.database mirrors
    | importing => cases closed
  · rintro past later beginning ending rfl begins accepted unended abandons
    exact abandoned_after routine begins accepted unended abandons

theorem imports_mirrored_dropped :
    (∀ e ∈ dropped, e.Routine) ∧ ((ledger dropped).finished "TEST").length = 1 ∧
      MirrorsImports (ledger dropped).finished (empty.after dropped).db ∧
      empty.after dropped = empty.after firstImport := by
  obtain ⟨mirrored, abandoned⟩ := imports_mirrored dropped_routine
  refine ⟨dropped_routine, rfl, mirrored rfl, ?_⟩
  exact abandoned firstImport [⟨.insertOrg ⟨"ORG", "Renamed", ""⟩⟩] ⟨.beginImport "TEST"⟩
    ⟨.dropImport⟩ rfl rfl (fun refused => refused) (by decide) rfl

end Service

end NetRegistry
