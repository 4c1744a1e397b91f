/-
# Import -- import sessions

An import writes all records of one registrar under its next serial, in one
transaction.  Finishing it deletes what the registrar did not report again, links
netblocks to organizations and commits, so that the registrar's records are
those of its last finished import.  Aborting or dropping it rolls back.

A netblock is accepted when its range is one block and the prefix length given
with it is that of the range; a range of any length is stored as its blocks.
-/
import NetRegistry.Cover.Decompose
import NetRegistry.Store.Session

namespace NetRegistry

set_option autoImplicit false

/-- Rows added and deleted. -/
structure RowCounts where
  new : Nat
  deleted : Nat
deriving DecidableEq

structure ImportStats where
  serial : Nat
  orgs : RowCounts
  netblocks : PerFamily fun _ => RowCounts

structure Importer where
  /-- The registrar as it was before the import. -/
  registrar : Registrar
  stats : ImportStats

/-- What a netblock or a range is reported with. -/
structure Attributes where
  reference : Option String
  name : String
  descr : String
deriving DecidableEq

namespace Importer

/-- Nothing has been written under the serial. -/
def noStats (serial : Nat) : ImportStats := ⟨serial, ⟨0, 0⟩, ⟨⟨0, 0⟩, ⟨0, 0⟩⟩⟩

/-- The registrar of a given name, which is added if need be. -/
def ensureRegistrar (name : String) : Fallible Session Error Registrar := do
  match ← Session.query (·.readRegistrar name) with
  | some r => return r
  | none =>
      let row ← Session.exec (Write.insertRegistrar name)
      Session.note ⟨.info, s!"registered new registrar {name}"⟩
      return ⟨row.id, row.name, 0, row.lastImport⟩

/-- Start an import for the named registrar. -/
def begin (name : String) : Fallible Session Error Importer := do
  Session.begin .none
  match ← Fallible.attempt (ensureRegistrar name) with
  | .error e => do
      Session.rollback .none
      Fallible.fail e
  | .ok r =>
      if r.serial < maxSerial then do
        Session.note ⟨.info, s!"importing {r.name} (serial {r.serial + 1})"⟩
        return ⟨r, noStats (r.serial + 1)⟩
      else do
        Session.rollback .none
        Fallible.fail (.rejected (.serialExhausted r.name))

/-- Serial of everything that this import writes. -/
def serial (i : Importer) : Nat := i.stats.serial

def countOrg (i : Importer) : Importer :=
  { i with stats := { i.stats with orgs := { i.stats.orgs with new := i.stats.orgs.new + 1 } } }

def countNetblock (f : Family) (i : Importer) : Importer :=
  let c := i.stats.netblocks.get f
  { i with
    stats := { i.stats with netblocks := i.stats.netblocks.set f { c with new := c.new + 1 } } }

def insertOrg (o : OrgRecord) (i : Importer) : Fallible Session Error Importer := do
  let new ← Session.exec (Write.writeOrg i.registrar.id i.serial o)
  return if new then i.countOrg else i

/-- The reason to refuse a netblock, if there is one. -/
def check {f : Family} (n : NetblockRecord f) : Except Error Unit := do
  let p ← n.range.prefixLen?.mapError .range
  if p = n.prefixLen then .ok () else .error (.rejected (.prefixMismatch n.range p n.prefixLen))

def insertNetblock {f : Family} (n : NetblockRecord f) (i : Importer) :
    Fallible Session Error Importer := do
  Fallible.ofExcept (check n)
  let new ← Session.exec (Write.writeNetblock i.registrar.id i.serial n)
  return if new then i.countNetblock f else i

/-- A block with the attributes of a range that it is part of. -/
def blockRecord {f : Family} (a : Attributes) (b : Block f) : NetblockRecord f :=
  ⟨b.range, b.prefixLen, a.reference, a.name, a.descr⟩

/-- Write blocks one after the other.  The importer is part of the state, so that the blocks
written before a failure stay counted. -/
def insertBlocks {f : Family} (a : Attributes) : List (Block f) →
    Fallible (Importer × Session) Error Unit
  | [] => pure ()
  | b :: rest => do
      let (i, _) ← Fallible.get
      let i ← Fallible.onSecond (insertNetblock (blockRecord a b) i)
      Fallible.modify fun (_, s) => (i, s)
      insertBlocks a rest

/-- Write a range as its blocks, every one with the same attributes; the answer is their number. -/
def insertRange {f : Family} (r : Range f) (a : Attributes) :
    Fallible (Importer × Session) Error Nat := do
  insertBlocks a r.blocks
  let written := r.blocks.length
  if 1 < written then
    Fallible.onSecond (Session.note ⟨.debug, s!"range {r.text} stored as {written} blocks"⟩)
  return written

/-- Delete what was not reported again, link, record the serial and commit. -/
def settle (now : Nat) (i : Importer) : Fallible Session Error ImportStats := do
  let id := i.registrar.id
  let v4 ← Session.exec (Write.sweepNetblocks .v4 id i.serial)
  let v6 ← Session.exec (Write.sweepNetblocks .v6 id i.serial)
  let orgs ← Session.exec (Write.sweepOrgs id i.serial)
  Session.exec (Write.linkNetblocks .v4 id)
  Session.exec (Write.linkNetblocks .v6 id)
  Session.exec (Write.recordImport id i.serial now)
  Session.commit .none
  let n := i.stats.netblocks
  return { i.stats with
    orgs := { i.stats.orgs with deleted := orgs }
    netblocks := ⟨{ n.v4 with deleted := v4 }, { n.v6 with deleted := v6 }⟩ }

/-- Give up an import that was neither finished nor aborted: roll back and only log a failure. -/
def drop (i : Importer) (s : Session) : Session :=
  let s := s.noted
    ⟨.warn, s!"import of {i.registrar.name} dropped unfinished, rolling back"⟩
  match (Session.rollback .none).run s with
  | (.ok (), s) => s
  | (.error e, s) =>
      s.noted ⟨.error, s!"rollback of {i.registrar.name} import failed: {e.text}"⟩

/-- The line that a finished import leaves in the log. -/
def summary (name : String) (s : ImportStats) : String :=
  let part := fun c : RowCounts => s!"+{c.new}/-{c.deleted}"
  s!"imported {name} serial {s.serial}: orgs {part s.orgs}, v4 {part s.netblocks.v4}, " ++
    s!"v6 {part s.netblocks.v6}"

/-- Finish an import; one that cannot be finished is dropped. -/
def finish (now : Nat) (i : Importer) : Fallible Session Error ImportStats := fun s =>
  match (settle now i).run s with
  | (.ok stats, s) => (.ok stats, s.noted ⟨.info, summary i.registrar.name stats⟩)
  | (.error e, s) => (.error e, i.drop s)

def abort (i : Importer) : Fallible Session Error Unit := do
  Session.note ⟨.warn, s!"import of {i.registrar.name} aborted"⟩
  Session.rollback .none

end Importer

end NetRegistry
