/-
# Rebuild.Coverage -- the coverage union of the whole registry

The coverage union of a family is the minimal cover of all its netblocks.  Both
families are replaced in one transaction, so a failure in either leaves both as
they were.  A refresh, due after an import, replaces the coverage and then
rebuilds every list, whatever became of the coverage.
-/
import NetRegistry.Rebuild.Lists

namespace NetRegistry

set_option autoImplicit false

/-- What was built for one family: netblocks scanned, and the counts of their cover. -/
structure FamilyCoverage where
  netblocks : Nat
  cover : CoverCounts
deriving DecidableEq

/-- What was built for both families. -/
structure CoverageStats where
  v4 : FamilyCoverage
  v6 : FamilyCoverage
deriving DecidableEq

/-- What a refresh did; there are no coverage counts when the coverage was rolled back. -/
structure RefreshReport where
  coverage : Option CoverageStats
  lists : Report

namespace Rebuild

variable (plan : FaultPlan)

/-- Scan all netblocks into the coverage union. -/
def writeCoverage (f : Family) : Fallible (CoverWriter f × Session) Error FamilyCoverage := do
  let sink := Session.insertCoverageBlock plan
  let netblocks ← Session.scanNetblocks plan f (CoverWriter.push sink)
  let cover ← CoverWriter.finish sink
  return ⟨netblocks, cover⟩

/-- Replace the coverage union of one family. -/
def coverFamily (f : Family) : Fallible Session Error FamilyCoverage := do
  Session.clearCoverage plan f
  Fallible.withFirst (.empty f) (writeCoverage plan f)

/-- Replace the coverage union of both families inside the open transaction and commit. -/
def coverAndCommit : Fallible Session Error CoverageStats := do
  let v4 ← coverFamily plan .v4
  let v6 ← coverFamily plan .v6
  Session.commit plan
  return ⟨v4, v6⟩

/-- The line that a committed coverage leaves in the log. -/
def coveredLine (c : CoverageStats) : LogLine :=
  ⟨.info, s!"coverage: {c.v4.netblocks} v4 netblocks -> {c.v4.cover.blocks} blocks, " ++
    s!"{c.v6.netblocks} v6 netblocks -> {c.v6.cover.blocks} blocks"⟩

/-- Replace the coverage union of both families in a transaction of its own. -/
def coverage : Fallible Session Error CoverageStats := fun s =>
  let s := s.noted ⟨.info, "rebuilding coverage union"⟩
  match (Session.begin plan).run s with
  | (.error e, s) => (.error e, s)
  | (.ok (), s) =>
      match (coverAndCommit plan).run s with
      | (.ok stats, s) => (.ok stats, s.noted (coveredLine stats))
      | (.error e, s) => (.error e, giveUp plan "coverage " e s)

/-- Replace the coverage and rebuild every list. -/
def refresh (mode : FetchMode) (defs : List Definition) (s : Session) : RefreshReport × Session :=
  let (covered, s) := (coverage plan).run s
  let (lists, s) := all plan mode defs s
  (⟨covered.toOption, lists⟩, s)

end Rebuild

end NetRegistry
