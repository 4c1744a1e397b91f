/-
# Rebuild.Lists -- rebuilding lists from their definitions

A list is rebuilt in one transaction: its members and union are cleared, the
netblocks that satisfy its predicate become members, and the minimal cover of
their ranges becomes its union, family by family.  When any call fails the list
is rolled back, and a pass over several lists goes on with the next one.  A list
that selects nothing is skipped and keeps what it has.
-/
import NetRegistry.Cover.Writer
import NetRegistry.Listing.Expansion
import NetRegistry.Listing.Resolution
import NetRegistry.Store.Session

namespace NetRegistry

set_option autoImplicit false

/-- What was built for one family: members, their runs, and the blocks of the union. -/
structure FamilyStats where
  members : Nat
  runs : Nat
  blocks : Nat
deriving DecidableEq

/-- What was built for a list. -/
structure ListStats where
  list : RowId
  v4 : FamilyStats
  v6 : FamilyStats
deriving DecidableEq

inductive Outcome where
  | committed (stats : ListStats)
  | rolledBack (e : Error)
  | skipped

namespace Outcome

def isCommitted : Outcome → Bool
  | .committed _ => true
  | _ => false

/-- Whether the list was rolled back. -/
def isRolledBack : Outcome → Bool
  | .rolledBack _ => true
  | _ => false

def isSkipped : Outcome → Bool
  | .skipped => true
  | _ => false

end Outcome

/-- What became of the lists of a pass, in build order. -/
structure Report where
  lists : List (String × Outcome)
  /-- The lists built without their includes being built first. -/
  unresolved : List String

namespace Report

/-- Number of lists with a kind of outcome. -/
def count (r : Report) (kind : Outcome → Bool) : Nat := r.lists.countP fun l => kind l.2

def committed (r : Report) : Nat := r.count Outcome.isCommitted

def rolledBack (r : Report) : Nat := r.count Outcome.isRolledBack

def skipped (r : Report) : Nat := r.count Outcome.isSkipped

end Report

namespace Rebuild

variable (plan : FaultPlan) (mode : FetchMode)

/-- Scan the members of a list into its union. -/
def writeUnion (f : Family) (list : RowId) :
    Fallible (CoverWriter f × Session) Error CoverCounts := do
  let sink := Session.insertUnionBlock plan list
  let _ ← Session.scanMembership plan f list mode (CoverWriter.push sink)
  CoverWriter.finish sink

/-- Build the members and the union of a list in one family. -/
def buildFamily (f : Family) (list : RowId) (p : Predicate) :
    Fallible Session Error FamilyStats := do
  let members ← Session.populateMembership plan f list p
  let counts ← Fallible.withFirst (.empty f) (writeUnion plan mode f list)
  return ⟨members, counts.runs, counts.blocks⟩

/-- Build a list inside the open transaction. -/
def build (name : String) (p : Predicate) : Fallible Session Error ListStats := do
  let list ← Session.ensureList plan name
  Session.clearList plan .v4 list
  Session.clearList plan .v6 list
  let v4 ← buildFamily plan mode .v4 list p
  let v6 ← buildFamily plan mode .v6 list p
  return ⟨list, v4, v6⟩

/-- Build a list inside the open transaction and commit. -/
def buildAndCommit (name : String) (p : Predicate) : Fallible Session Error ListStats := do
  let stats ← build plan mode name p
  Session.commit plan
  return stats

/-- The line that a committed list leaves in the log. -/
def builtLine (name : String) (s : ListStats) : LogLine :=
  ⟨.info, s!"  {name}: {s.v4.members} v4 / {s.v6.members} v6 members, " ++
    s!"{s.v4.blocks} v4 / {s.v6.blocks} v6 blocks"⟩

/-- Roll back after a failure, of which a failing rollback is only logged. -/
def giveUp (label : String) (e : Error) (s : Session) : Session :=
  let s := s.noted ⟨.error, s!"{label}rebuild failed, rolling back: {e.text}"⟩
  match (Session.rollback plan).run s with
  | (.ok (), s) => s
  | (.error e, s) => s.noted ⟨.error, s!"{label}rollback failed: {e.text}"⟩

/-- Rebuild one list in a transaction of its own. -/
def list (name : String) (p : Predicate) (s : Session) : Outcome × Session :=
  let s := s.noted ⟨.info, s!"  building {name}"⟩
  let s := s.noted ⟨.debug, s!"  {name}: {p.text}"⟩
  match (Session.begin plan).run s with
  | (.error e, s) =>
      (.rolledBack e, s.noted ⟨.error, s!"  {name}: failed to start transaction: {e.text}"⟩)
  | (.ok (), s) =>
      match (buildAndCommit plan mode name p).run s with
      | (.ok stats, s) => (.committed stats, s.noted (builtLine name stats))
      | (.error e, s) => (.rolledBack e, giveUp plan s!"  {name}: " e s)

/-- Rebuild one definition among others, or skip it when it selects nothing. -/
def definition (defs : List Definition) (d : Definition) (s : Session) : Outcome × Session :=
  let (compiled, notes) := Definition.compile defs d.name
  let s := s.notedAll (notes.map (·.line))
  match compiled with
  | some p => list plan mode d.name p s
  | none => (.skipped, s.noted ⟨.info, s!"  skipping {d.name}: selects nothing"⟩)

/-- Rebuild definitions one after the other. -/
def definitions (defs : List Definition) :
    List Definition → Session → List (String × Outcome) × Session
  | [], s => ([], s)
  | d :: rest, s =>
      let (outcome, s) := definition plan mode defs d s
      let (later, s) := definitions defs rest s
      ((d.name, outcome) :: later, s)

/-- Rebuild every list, in build order. -/
def all (defs : List Definition) (s : Session) : Report × Session :=
  let resolution := resolve defs
  let s := s.notedAll (resolution.notes.map (·.line))
  let s := s.noted ⟨.info, s!"rebuilding {resolution.order.length} lists"⟩
  let (lists, s) := definitions plan mode defs resolution.order s
  let report : Report := ⟨lists, resolution.unresolved⟩
  (report, s.noted ⟨.info, s!"rebuild done: {report.committed} committed, " ++
    s!"{report.rolledBack} rolled back, {report.skipped} skipped"⟩)

end Rebuild

end NetRegistry
