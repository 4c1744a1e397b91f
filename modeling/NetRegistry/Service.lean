/-
# Service -- the public operations

A service is a database and the import that is open on it, if one is; at most
one is held at a time.  A `Request α` is one public operation with an answer of
type `α`; `Service.handle` carries it out and gives, beside the answer, the
calls made on the store and the log.  A request either succeeds or fails; a
failure may still have changed the database, as the operation says.

Starting an import while another is held drops the held one, but only once the
new one has been started.  Finishing and aborting let go of the import even when
they fail.  A service that ends drops the import it still holds (`Service.close`).
-/
import NetRegistry.Address.Net
import NetRegistry.Export
import NetRegistry.Import
import NetRegistry.Rebuild.Coverage

namespace NetRegistry

set_option autoImplicit false

/-- A database and the import open on it. -/
structure Service where
  db : Database
  importer : Option Importer

inductive Failure where
  | error (e : Error)
  | misuse (m : Misuse)
  /-- The request needs an open import. -/
  | noImport

/-- The netblock of a request: a block as text, or a range with its prefix length. -/
inductive NetblockSource (f : Family) where
  | text (cidr : String)
  | range (first last : Addr f) (prefixLen : Nat)

/-- What a listing of a scan saw, oldest first, and how the scan ended. -/
structure Listing (α : Type) where
  seen : List α
  result : Except Error Nat

/-- What an export wrote, and the number of its lines or why it stopped. -/
structure Exported where
  written : String
  result : Except Error Nat

structure ListContents where
  id : RowId
  name : String
  members : PerFamily fun _ => Nat
  unions : PerFamily fun f => List (Block f)

/-- All that can be read back from a database. -/
structure Snapshot where
  registrars : List Registrar
  lists : List ListContents
  netblocks : PerFamily fun f => List (Range f)
  counts : PerFamily fun _ => Nat
  coverage : PerFamily fun f => List (Block f)

/-- A public operation, indexed by the type of its answer. -/
inductive Request : Type → Type where
  | beginImport (registrar : String) : Request Importer
  | insertOrg (o : OrgRecord) : Request Unit
  | insertNetblock (f : Family) (source : NetblockSource f) (a : Attributes) : Request (Block f)
  | insertRange {f : Family} (first last : Addr f) (a : Attributes) : Request Nat
  | finishImport (now : Nat) : Request ImportStats
  | abortImport : Request Unit
  | dropImport : Request Unit
  | begin : Request Unit
  | commit : Request Unit
  | rollback : Request Unit
  | ensureRegistrar (name : String) : Request Registrar
  | registrar (name : String) : Request (Option Registrar)
  | ensureList (name : String) : Request RowId
  | listByName (name : String) : Request (Option RowId)
  | clearList (f : Family) (list : RowId) : Request Unit
  | populate (f : Family) (list : RowId) (p : Predicate) : Request Nat
  | insertUnionBlock {f : Family} (list : RowId) (b : Block f) : Request Unit
  | insertCoverageBlock {f : Family} (b : Block f) : Request Unit
  | clearCoverage (f : Family) : Request Unit
  | scanMembership (f : Family) (list : RowId) (mode : FetchMode) (stopAt : Option Nat) :
      Request (Listing (Range f))
  | scanNetblocks (f : Family) (stopAt : Option Nat) : Request (Listing (Range f))
  | scanUnion (f : Family) (list : RowId) (stopAt : Option Nat) : Request (Listing (Block f))
  | unionLookup {f : Family} (list : RowId) (a : Addr f) : Request (Option (Block f))
  | lookup {f : Family} (a : Addr f) : Request (Option (NetblockInfo f))
  | exportList (list : String) (limit : Option Nat) : Request Exported
  | snapshot : Request Snapshot
  | coverage (f : Family) : Request (List (Block f))
  | registrars : Request (List Registrar)
  | rebuild (plan : FaultPlan) (mode : FetchMode) (defs : List Definition) : Request Report
  | rebuildList (plan : FaultPlan) (mode : FetchMode) (name : String) (p : Predicate) :
      Request Outcome
  | rebuildCoverage (plan : FaultPlan) : Request CoverageStats
  | refresh (plan : FaultPlan) (mode : FetchMode) (defs : List Definition) : Request RefreshReport
  | reopen : Request Unit
  | overwriteSerial (registrar : String) (serial : Int) : Request Nat
  | insertUnchecked (f : Family) (registrar : String) (first last : Cell) (prefixLen : Int)
      (name : String) : Request Nat

/-- The answer to a request, with the calls and the log lines made for it, oldest first. -/
structure Response (α : Type) where
  result : Except Failure α
  calls : List Call
  log : List LogLine

namespace Service

/-- An empty database and no import. -/
def empty : Service := ⟨.empty, none⟩

/-- What requests work on: the import held and the session. -/
abbrev Work (α : Type) : Type := Fallible (Option Importer × Session) Failure α

variable {α τ : Type}

/-- Work on the session only. -/
def onSession (x : Fallible Session Error α) : Work α := fun (i, s) =>
  let (r, s) := x.run s
  (r.mapError .error, (i, s))

/-- Work on the session that cannot fail. -/
def infallibly (x : Session → α × Session) : Work α := fun (i, s) =>
  let (a, s) := x s
  (.ok a, (i, s))

/-- Work on the open import, which is there. -/
def onImport (x : Fallible (Importer × Session) Failure α) : Work α := fun (i, s) =>
  match i with
  | none => (.error .noImport, (none, s))
  | some i =>
      let (r, (i, s)) := x.run (i, s)
      (r, (some i, s))

/-- Let go of the open import, which is there, and end it. -/
def endImport (x : Importer → Fallible Session Error α) : Work α := fun (i, s) =>
  match i with
  | none => (.error .noImport, (none, s))
  | some i =>
      let (r, s) := (x i).run s
      (r.mapError .error, (none, s))

/-- Drop the import if there is one. -/
def dropHeld : Work Unit := fun (i, s) =>
  match i with
  | none => (.ok (), (none, s))
  | some i => (.ok (), (none, i.drop s))

/-- Start an import, then drop the one that was held. -/
def beginImport (registrar : String) : Work Importer := do
  let i ← onSession (Importer.begin registrar)
  dropHeld
  Fallible.modify fun (_, s) => (some i, s)
  return i

/-- The netblock that a request means. -/
def record {f : Family} (source : NetblockSource f) (a : Attributes) :
    Except Error (NetblockRecord f) :=
  match source with
  | .range first last prefixLen =>
      .ok ⟨⟨first, last⟩, prefixLen, a.reference, a.name, a.descr⟩
  | .text cidr =>
      match Block.parse? f cidr with
      | some b => .ok ⟨b.range, b.prefixLen, a.reference, a.name, a.descr⟩
      | none => .error (.cidrPattern cidr)

/-- Write a netblock in the open import. -/
def insertNetblock {f : Family} (source : NetblockSource f) (a : Attributes) : Work (Block f) :=
  onImport fun (i, s) =>
    match record source a with
    | .error e => (.error (.error e), (i, s))
    | .ok n =>
        match (i.insertNetblock n).run s with
        | (.ok j, s) => (.ok ⟨n.range.first, n.prefixLen⟩, (j, s))
        | (.error e, s) => (.error (.error e), (i, s))

/-- Write a range in the open import. -/
def insertRange {f : Family} (r : Range f) (a : Attributes) : Work Nat :=
  onImport fun (i, s) =>
    match r.decompose with
    | .error m => (.error (.misuse m), (i, s))
    | .ok _ =>
        let (n, w) := (Importer.insertRange r a).run (i, s)
        (n.mapError .error, w)

/-- A sink that keeps what it is given and refuses more than a number of items. -/
def collect (stopAt : Option Nat) (a : α) : Fallible (List α × Session) Error Unit :=
  fun (seen, s) =>
    if stopAt = some seen.length then (.error (.rejected .sinkStopped), (seen, s))
    else (.ok (), (seen ++ [a], s))

/-- Run a scan with a collecting sink. -/
def listing (scan : Fallible (List α × Session) Error Nat) : Work (Listing α) :=
  infallibly fun s =>
    let (result, (seen, s)) := scan.run ([], s)
    (⟨seen, result⟩, s)

/-- Write the union of a list to a text. -/
def exportText (list : String) (limit : Option Nat) : Work Exported :=
  infallibly fun s =>
    let (result, (w, s)) := (Export.list list).run (.empty limit, s)
    (⟨w.written, result⟩, s)

def contents (t : Tables) (l : ListRow) : Except StorageError ListContents := do
  let v4 ← t.unionOf .v4 l.id
  let v6 ← t.unionOf .v6 l.id
  return ⟨l.id, l.name, .ofFn fun f => (t.membersOf f l.id).length, ⟨v4, v6⟩⟩

/-- The coverage union of both families. -/
def coverage (t : Tables) : Except StorageError (PerFamily fun f => List (Block f)) := do
  return ⟨← t.coverageOf .v4, ← t.coverageOf .v6⟩

/-- The ranges of all netblocks of a family. -/
def allRanges (t : Tables) (f : Family) : Except Error (List (Range f)) :=
  let keep : Range f → Fallible (List (Range f)) Error Unit := fun r => .modify (· ++ [r])
  let (result, seen) := (Session.stream f keep (t.netblockRows f)).run []
  result.map fun _ => seen

def snapshot (t : Tables) : Except Error Snapshot := do
  let registrars ← t.readRegistrars.mapError .storage
  let lists ← (t.listsByName.mapM (contents t)).mapError .storage
  let v4 ← allRanges t .v4
  let v6 ← allRanges t .v6
  let coverage ← (coverage t).mapError .storage
  return {
    registrars, lists, coverage
    netblocks := ⟨v4, v6⟩
    counts := .ofFn fun f => (t.netblocks.get f).length }

/-- Close the database and open it again. -/
def reopen : Work Unit := do
  dropHeld
  Fallible.modify fun (i, s) => (i, { s with db := s.db.reopened })

def work : {α : Type} → Request α → Work α
  | _, .beginImport registrar => beginImport registrar
  | _, .insertOrg o => onImport fun (i, s) =>
      match (i.insertOrg o).run s with
      | (.ok j, s) => (.ok (), (j, s))
      | (.error e, s) => (.error (.error e), (i, s))
  | _, .insertNetblock _ source a => insertNetblock source a
  | _, .insertRange first last a => insertRange ⟨first, last⟩ a
  | _, .finishImport now => endImport (Importer.finish now)
  | _, .abortImport => endImport Importer.abort
  | _, .dropImport => dropHeld
  | _, .begin => onSession (Session.begin .none)
  | _, .commit => onSession (Session.commit .none)
  | _, .rollback => onSession (Session.rollback .none)
  | _, .ensureRegistrar name => onSession (Importer.ensureRegistrar name)
  | _, .registrar name => onSession (Session.query (·.readRegistrar name))
  | _, .ensureList name => onSession (Session.ensureList .none name)
  | _, .listByName name => onSession (Session.query fun t => .ok (t.listNamed? name))
  | _, .clearList f list => onSession (Session.clearList .none f list)
  | _, .populate f list p => onSession (Session.populateMembership .none f list p)
  | _, .insertUnionBlock list b => onSession (Session.insertUnionBlock .none list b)
  | _, .insertCoverageBlock b => onSession (Session.insertCoverageBlock .none b)
  | _, .clearCoverage f => onSession (Session.clearCoverage .none f)
  | _, .scanMembership f list mode stopAt =>
      listing (Session.scanMembership .none f list mode (collect stopAt))
  | _, .scanNetblocks f stopAt => listing (Session.scanNetblocks .none f (collect stopAt))
  | _, .scanUnion f list stopAt => listing (Session.scanUnion f list (collect stopAt))
  | _, .unionLookup list a => onSession (Session.query fun t => t.unionLookup _ list a)
  | _, .lookup a => onSession (Session.query fun t => t.lookup _ a)
  | _, .exportList list limit => exportText list limit
  | _, .snapshot => onSession fun s => (snapshot s.db.tables, s)
  | _, .coverage f => onSession (Session.query fun t => t.coverageOf f)
  | _, .registrars => onSession (Session.query (·.readRegistrars))
  | _, .rebuild plan mode defs => infallibly (Rebuild.all plan mode defs)
  | _, .rebuildList plan mode name p => infallibly (Rebuild.list plan mode name p)
  | _, .rebuildCoverage plan => onSession (Rebuild.coverage plan)
  | _, .refresh plan mode defs => infallibly (Rebuild.refresh plan mode defs)
  | _, .reopen => reopen
  | _, .overwriteSerial registrar serial =>
      onSession (Session.exec (Write.overwriteSerial registrar serial))
  | _, .insertUnchecked f registrar first last prefixLen name =>
      onSession (Session.exec (Write.insertUnchecked f registrar first last prefixLen name))

def handle (r : Request α) (service : Service) : Response α × Service :=
  let (result, (importer, s)) := (work r).run (service.importer, .on service.db)
  (⟨result, s.calls.reverse, s.log.reverse⟩, ⟨s.db, importer⟩)

/-- The end of a service: the import still held is dropped, which the log lines tell, and the
database is left as it is found when it is opened again. -/
def close (service : Service) : Database × List LogLine :=
  let (response, service) := service.handle .reopen
  (service.db, response.log)

end Service

end NetRegistry
