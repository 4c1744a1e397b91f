/-
# Proofs.Service.Reachable -- the states that public operations lead to

`Service.Reachable db imports` holds of a database and the imports alive on it
when public operations, one after the other, lead there from an empty database.
Each operation works with one of the imports or with none, so that an import can
outlive a transaction that its caller ended by hand while another is begun.

**Main theorem** `Service.Reachable.database`: such a database is reached by the
steps of `Tables.Step` and transactions alone.
-/
import NetRegistry.Proofs.Rebuild.Reachable
import NetRegistry.Service

namespace NetRegistry

set_option autoImplicit false

open Fallible (Keeps)

/-! ## Imports -/

namespace Importer

variable {P : Database → Prop}

theorem keeps_ensureRegistrar (stable : Database.Stable P) (name : String) :
    Keeps (Session.Has P) (ensureRegistrar name) := by
  refine Keeps.of_run fun s holds => ?_
  cases found : s.db.tables.registrarNamed? name with
  | none =>
    -- The row is new because the query just before did not find it.
    have inserted : P ⟨{ s.db.tables with registrars := s.db.tables.registrars ++
        [⟨nextId (s.db.tables.registrars.map (·.id)), name, 0, 0⟩] }, s.db.saved⟩ :=
      stable _ _ _ (.insertRegistrar found rfl) holds
    have query : (Session.query (·.readRegistrar name)).run s = (.ok none, s) := by
      show (Except.mapError Error.storage (s.db.tables.readRegistrar name), s) = _
      rw [Tables.readRegistrar, found]
      rfl
    rw [ensureRegistrar, Fallible.run_bind, query]
    exact inserted
  | some row =>
    have query : (Session.query (·.readRegistrar name)).run s =
        (((Read.registrar row).map some).mapError Error.storage, s) := by
      show (Except.mapError Error.storage (s.db.tables.readRegistrar name), s) = _
      rw [Tables.readRegistrar, found]
    rw [ensureRegistrar, Fallible.run_bind, query]
    cases Read.registrar row <;> exact holds

section Inserts

variable (stable : Database.StableUnder Tables.InsertStep P)
include stable

theorem keeps_insertOrg (o : OrgRecord) (i : Importer) :
    Keeps (Session.Has P) (i.insertOrg o) :=
  (Session.keeps_exec stable fun _ _ _ => .writeOrg).bind fun _ => Keeps.pure _

theorem keeps_insertNetblock {f : Family} (n : NetblockRecord f) (i : Importer) :
    Keeps (Session.Has P) (i.insertNetblock n) := by
  cases accepted : check n with
  | error e =>
    refine Keeps.of_run fun s holds => ?_
    rw [insertNetblock, accepted, Fallible.run_bind]
    exact holds
  | ok =>
    exact (Keeps.ofExcept _).bind fun _ =>
      (Session.keeps_exec stable fun _ _ _ => .writeNetblock accepted).bind fun _ => Keeps.pure _

theorem keeps_insertBlocks {f : Family} (a : Attributes) (blocks : List (Block f)) :
    Keeps (fun w : Importer × Session => w.2.Has P) (insertBlocks a blocks) := by
  induction blocks with
  | nil => exact Keeps.pure ()
  | cons b rest ih =>
    refine Keeps.get.bind fun (i, _) => ?_
    refine (Keeps.onSecond (keeps_insertNetblock stable (blockRecord a b) i)).bind fun _ => ?_
    refine Keeps.bind (Keeps.modify ?_) fun _ => ih
    exact fun _ holds => holds

theorem keeps_insertRange {f : Family} (r : Range f) (a : Attributes) :
    Keeps (fun w : Importer × Session => w.2.Has P) (insertRange r a) := by
  refine (keeps_insertBlocks stable a r.blocks).bind fun _ => ?_
  dsimp only
  split
  · exact (Keeps.onSecond (Session.keeps_note _)).bind fun _ => Keeps.pure _
  · exact Keeps.pure _

end Inserts

theorem keeps_begin (name : String) : Keeps Session.Reached (begin name) := by
  refine (Session.keeps_begin .none Database.keeps_begin).bind fun _ => ?_
  refine (Keeps.attempt (keeps_ensureRegistrar Database.stable_reachable name)).bind
    fun found => ?_
  cases found with
  | error e =>
    exact (Session.keeps_rollback .none Database.keeps_rollback).bind fun _ => Keeps.fail e
  | ok r =>
    dsimp only
    split
    · exact (Session.keeps_note _).bind fun _ => Keeps.pure _
    · exact (Session.keeps_rollback .none Database.keeps_rollback).bind fun _ => Keeps.fail _

theorem keeps_settle (now : Nat) (i : Importer) : Keeps Session.Reached (settle now i) := by
  have keeps : ∀ {α : Type} {stmt : Statement α}, (∀ t a u, stmt t = .ok (a, u) → t.Step u) →
      Keeps Session.Reached (Session.exec stmt) := Session.keeps_exec Database.stable_reachable
  refine (keeps fun _ _ _ => .sweepNetblocks).bind fun _ => ?_
  refine (keeps fun _ _ _ => .sweepNetblocks).bind fun _ => ?_
  refine (keeps fun _ _ _ => .sweepOrgs).bind fun _ => ?_
  refine (keeps fun _ _ _ => .linkNetblocks).bind fun _ => ?_
  refine (keeps fun _ _ _ => .linkNetblocks).bind fun _ => ?_
  refine (keeps fun _ _ _ => .recordImport).bind fun _ => ?_
  exact (Session.keeps_commit .none Database.keeps_commit).bind fun _ => Keeps.pure _

theorem reached_drop (i : Importer) {s : Session} (reached : s.Reached) : (i.drop s).Reached := by
  have rolled := (Session.keeps_rollback .none Database.keeps_rollback).run (Session.has_noted reached
    ⟨.warn, s!"import of {i.registrar.name} dropped unfinished, rolling back"⟩)
  unfold drop
  dsimp only
  split <;> rename_i h <;> rw [h] at rolled <;> exact rolled

theorem keeps_finish (now : Nat) (i : Importer) : Keeps Session.Reached (finish now i) := by
  refine Keeps.of_run fun s reached => ?_
  have settled := (keeps_settle now i).run reached
  show Session.Reached (finish now i s).2
  unfold finish
  split <;> rename_i h <;> rw [h] at settled
  · exact settled
  · exact reached_drop i settled

theorem keeps_abort (i : Importer) : Keeps Session.Reached i.abort :=
  (Session.keeps_note _).bind fun _ => Session.keeps_rollback .none Database.keeps_rollback

end Importer

/-! ## Requests -/

/-- Whether callers can make the request; the others write to the database from outside. -/
def Request.isPublic {α : Type} : Request α → Bool
  | .overwriteSerial _ _ => false
  | .insertUnchecked _ _ _ _ _ _ => false
  | _ => true

/-- Whether the request carries out statements or reads, and does nothing about a transaction. -/
def Request.isPlain {α : Type} : Request α → Bool
  | .insertOrg _ | .insertNetblock _ _ _ | .insertRange _ _ _ => true
  | .ensureRegistrar _ | .ensureList _ | .clearList _ _ | .populate _ _ _ => true
  | .insertUnionBlock _ _ | .insertCoverageBlock _ | .clearCoverage _ => true
  | .registrar _ | .registrars | .listByName _ | .unionLookup _ _ | .lookup _ | .coverage _ => true
  | .scanMembership _ _ _ _ | .scanNetblocks _ _ | .scanUnion _ _ _ => true
  | .exportList _ _ | .snapshot => true
  | _ => false

/-- Whether the request writes records in the open import. -/
def Request.isInsert {α : Type} : Request α → Bool
  | .insertOrg _ | .insertNetblock _ _ _ | .insertRange _ _ _ => true
  | _ => false

def Request.isRebuild {α : Type} : Request α → Bool
  | .rebuild _ _ _ | .rebuildList _ _ _ _ | .rebuildCoverage _ | .refresh _ _ _ => true
  | _ => false

namespace Service

/-- The databases that public operations lead to, with the imports alive on them. -/
inductive Reachable : Database → List Importer → Prop
  | empty : Reachable .empty []
  | request {db : Database} {imports others : List Importer} {held : Option Importer} {α : Type}
      (r : Request α) (visible : r.isPublic = true) (reached : Reachable db imports)
      (chosen : imports.Perm (held.toList ++ others)) :
      Reachable (handle r ⟨db, held⟩).2.db
        ((handle r ⟨db, held⟩).2.importer.toList ++ others)

variable {α : Type} {P : Database → Prop} {held : Bool}

/-- An import is held or not, and the property holds of the database. -/
def Holds (held : Bool) (P : Database → Prop) (w : Option Importer × Session) : Prop :=
  w.1.isSome = held ∧ w.2.Has P

/-- The session of a service works on a reachable database. -/
def Reached (w : Option Importer × Session) : Prop := w.2.Reached

theorem keeps_onSession {x : Fallible Session Error α} (keeps : Keeps (Session.Has P) x) :
    Keeps (Holds held P) (onSession x) :=
  Keeps.of_run fun _ holds => ⟨holds.1, keeps.run holds.2⟩

theorem keeps_infallibly {x : Session → α × Session}
    (keeps : ∀ s : Session, s.Has P → (x s).2.Has P) : Keeps (Holds held P) (infallibly x) :=
  Keeps.of_run fun w holds => ⟨holds.1, keeps w.2 holds.2⟩

theorem keeps_onImport {x : Fallible (Importer × Session) Failure α}
    (keeps : Keeps (fun w => w.2.Has P) x) : Keeps (Holds held P) (onImport x) := by
  refine Keeps.of_run fun ⟨i, s⟩ holds => ?_
  cases i with
  | none => exact holds
  | some i => exact ⟨holds.1, keeps.run (s := (i, s)) holds.2⟩

theorem keeps_listing {scan : Fallible (List α × Session) Error Nat}
    (keeps : Keeps (fun w => w.2.Has P) scan) : Keeps (Holds held P) (listing scan) :=
  keeps_infallibly fun s holds => keeps.run (s := ([], s)) holds

theorem keeps_collect (stopAt : Option Nat) (a : α) :
    Keeps (fun w : List α × Session => w.2.Has P) (collect stopAt a) := by
  refine Keeps.of_run fun w holds => ?_
  unfold Fallible.run collect
  dsimp only
  split <;> exact holds

theorem keeps_exportText (list : String) (limit : Option Nat) :
    Keeps (Holds held P) (exportText list limit) := by
  have union : ∀ f id, Keeps (fun w : LimitedWriter × Session => w.2.Has P)
      (Export.union f id) := fun f id =>
    Session.keeps_scanUnion id fun b => Keeps.of_run fun w holds => holds
  have id : Keeps (Session.Has P) (Export.listId list) := by
    refine (Session.keeps_query _).bind fun found => ?_
    cases found with
    | none => exact Keeps.fail _
    | some id => exact Keeps.pure id
  have whole : Keeps (fun w : LimitedWriter × Session => w.2.Has P) (Export.list list) :=
    (Keeps.onSecond id).bind fun _ => (union .v4 _).bind fun _ => (union .v6 _).bind fun _ =>
      (Keeps.onSecond (Session.keeps_note _)).bind fun _ => Keeps.pure _
  exact keeps_infallibly fun s holds => whole.run (s := (.empty limit, s)) holds

/-! ### Requests without transactions -/

section Inserts

variable (stable : Database.StableUnder Tables.InsertStep P)
include stable

theorem keeps_insertOrg (o : OrgRecord) : Keeps (Holds held P) (work (.insertOrg o)) := by
  unfold work
  refine keeps_onImport (Keeps.of_run ?_)
  intro ⟨i, s⟩ holds
  have written := (i.keeps_insertOrg stable o).run (s := s) holds
  unfold Fallible.run at written ⊢
  dsimp only
  split <;> rename_i h <;> rw [h] at written <;> exact written

theorem keeps_insertNetblock {f : Family} (source : NetblockSource f) (a : Attributes) :
    Keeps (Holds held P) (insertNetblock source a) := by
  refine keeps_onImport (Keeps.of_run ?_)
  intro ⟨i, s⟩ holds
  unfold Fallible.run
  dsimp only
  split
  · exact holds
  · rename_i n _
    have written := (i.keeps_insertNetblock stable n).run (s := s) holds
    unfold Fallible.run at written
    split <;> rename_i h <;> rw [h] at written <;> exact written

theorem keeps_insertRange {f : Family} (r : Range f) (a : Attributes) :
    Keeps (Holds held P) (insertRange r a) := by
  refine keeps_onImport (Keeps.of_run ?_)
  intro ⟨i, s⟩ holds
  unfold Fallible.run
  dsimp only
  split
  · exact holds
  · exact (Importer.keeps_insertRange stable r a).run (s := (i, s)) holds

end Inserts

/-- An insert keeps hold of the import, and what its statements do not take away. -/
theorem keeps_insert (stable : Database.StableUnder Tables.InsertStep P) (r : Request α)
    (insert : r.isInsert = true) : Keeps (Holds held P) (work r) := by
  cases r with
  | insertOrg o => exact keeps_insertOrg stable o
  | insertNetblock f source a => exact keeps_insertNetblock stable source a
  | insertRange first last a => exact keeps_insertRange stable _ a
  | _ => exact Bool.noConfusion insert

/-- A request without transactions keeps hold of the import, if there is one, and keeps what no
statement takes away. -/
theorem keeps_plain (stable : Database.Stable P) (r : Request α) (plain : r.isPlain = true) :
    Keeps (Holds held P) (work r) := by
  cases r with
  | insertOrg _ | insertNetblock _ _ _ | insertRange _ _ _ =>
    exact keeps_insert stable.inserts _ rfl
  | ensureRegistrar name => exact keeps_onSession (Importer.keeps_ensureRegistrar stable name)
  | ensureList name => exact keeps_onSession (Session.keeps_ensureList stable.rebuilds .none name)
  | clearList f list => exact keeps_onSession (Session.keeps_clearList stable.rebuilds .none list)
  | populate f list p =>
    exact keeps_onSession (Session.keeps_populateMembership stable.rebuilds .none list p)
  | insertUnionBlock list b =>
    exact keeps_onSession (Session.keeps_insertUnionBlock stable.rebuilds .none list b)
  | insertCoverageBlock b =>
    exact keeps_onSession (Session.keeps_insertCoverageBlock stable.rebuilds .none b)
  | clearCoverage f => exact keeps_onSession (Session.keeps_clearCoverage stable.rebuilds .none)
  | scanMembership f list mode stopAt =>
    exact keeps_listing (Session.keeps_scanMembership .none list mode (keeps_collect stopAt))
  | scanNetblocks f stopAt =>
    exact keeps_listing (Session.keeps_scanNetblocks .none (keeps_collect stopAt))
  | scanUnion f list stopAt =>
    exact keeps_listing (Session.keeps_scanUnion list (keeps_collect stopAt))
  | exportList list limit => exact keeps_exportText list limit
  | snapshot =>
    unfold work
    exact keeps_onSession (Keeps.of_run fun _ holds => holds)
  | registrar _ | listByName _ | unionLookup _ _ | lookup _ | coverage _ | registrars =>
    unfold work
    exact keeps_onSession (Session.keeps_query _)
  | beginImport _ | finishImport _ | abortImport | dropImport | begin | commit | rollback
    | rebuild _ _ _ | rebuildList _ _ _ _ | rebuildCoverage _ | refresh _ _ _ | reopen
    | overwriteSerial _ _ | insertUnchecked _ _ _ _ _ _ => exact Bool.noConfusion plain

/-- A rebuild keeps hold of the import and keeps what lasts, whatever fails in it. -/
theorem keeps_rebuild (lasting : Database.Lasting P) (r : Request α) (rebuild : r.isRebuild = true) :
    Keeps (Holds held P) (work r) := by
  cases r with
  | rebuild plan mode defs => exact keeps_infallibly fun _ => Rebuild.has_all plan mode lasting defs
  | rebuildList plan mode name p =>
    exact keeps_infallibly fun _ => Rebuild.has_list plan mode lasting name p
  | rebuildCoverage plan => exact keeps_onSession (Rebuild.keeps_coverage plan lasting)
  | refresh plan mode defs =>
    exact keeps_infallibly fun _ => Rebuild.has_refresh plan mode lasting defs
  | _ => exact Bool.noConfusion rebuild

/-! ### Reachable databases -/

theorem keeps_reached {x : Work α} (keeps : ∀ held, Keeps (Holds held Database.Reachable) x) :
    Keeps Reached x :=
  Keeps.of_run fun w reached => ((keeps w.1.isSome).run ⟨rfl, reached⟩).2

theorem keeps_endImport {x : Importer → Fallible Session Error α}
    (keeps : ∀ i, Keeps Session.Reached (x i)) : Keeps Reached (endImport x) := by
  refine Keeps.of_run fun ⟨held, s⟩ reached => ?_
  cases held with
  | none => exact reached
  | some i => exact (keeps i).run (s := s) reached

theorem keeps_dropHeld : Keeps Reached dropHeld := by
  refine Keeps.of_run fun ⟨held, s⟩ reached => ?_
  cases held with
  | none => exact reached
  | some i => exact i.reached_drop (s := s) reached

/-- A public request stays among the reachable databases. -/
theorem keeps_work (r : Request α) (visible : r.isPublic = true) : Keeps Reached (work r) := by
  cases plain : r.isPlain with
  | true => exact keeps_reached fun _ => keeps_plain Database.stable_reachable r plain
  | false =>
    have onSession : ∀ {β : Type} {x : Fallible Session Error β}, Keeps Session.Reached x →
        Keeps Reached (onSession x) := fun keeps => keeps_reached fun _ => keeps_onSession keeps
    have lasting := Database.lasting_reachable
    cases r with
    | beginImport registrar =>
      refine (onSession (Importer.keeps_begin registrar)).bind fun i => ?_
      refine keeps_dropHeld.bind fun _ => Keeps.bind (Keeps.modify ?_) fun _ => Keeps.pure i
      exact fun _ reached => reached
    | finishImport now => exact keeps_endImport (Importer.keeps_finish now)
    | abortImport => exact keeps_endImport Importer.keeps_abort
    | dropImport => exact keeps_dropHeld
    | begin => exact onSession (Session.keeps_begin .none Database.keeps_begin)
    | commit => exact onSession (Session.keeps_commit .none Database.keeps_commit)
    | rollback => exact onSession (Session.keeps_rollback .none Database.keeps_rollback)
    | rebuild _ _ _ | rebuildList _ _ _ _ | rebuildCoverage _ | refresh _ _ _ =>
      exact keeps_reached fun _ => keeps_rebuild lasting _ rfl
    | reopen =>
      refine keeps_dropHeld.bind fun _ => Keeps.modify ?_
      intro ⟨_, s⟩ reached
      exact Database.Reachable.reopened reached
    | overwriteSerial _ _ | insertUnchecked _ _ _ _ _ _ => exact Bool.noConfusion visible
    | _ => exact Bool.noConfusion plain

/-- **Public operations** only lead to databases that steps and transactions lead to. -/
theorem Reachable.database {db : Database} {imports : List Importer}
    (reached : Reachable db imports) : db.Reachable := by
  induction reached with
  | empty => exact .empty
  | @request db _ _ held α r visible _ _ ih =>
    exact (keeps_work r visible).run (s := (held, .on db)) ih

/-- A single service that carries out requests, one after the other. -/
theorem Reachable.next {service : Service}
    (reached : Reachable service.db service.importer.toList) (r : Request α)
    (visible : r.isPublic = true) :
    Reachable (handle r service).2.db (handle r service).2.importer.toList := by
  have chosen : service.importer.toList.Perm (service.importer.toList ++ []) := by
    rw [List.append_nil]
  have after := Reachable.request r visible reached chosen
  rwa [List.append_nil] at after

end Service

end NetRegistry
