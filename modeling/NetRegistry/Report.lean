/-
# Report -- results as JSON

Reports of rebuilds have their keys in alphabetical order; records that are read
from the store have theirs in the order of their parts.
-/
import NetRegistry.Document.Json
import NetRegistry.Rebuild.Coverage

namespace NetRegistry

set_option autoImplicit false

def CoverCounts.toJson (c : CoverCounts) : Json :=
  .object [("blocks", .nat c.blocks), ("runs", .nat c.runs)]

def CoverageStats.toJson (c : CoverageStats) : Json :=
  .object [
    ("v4", c.v4.cover.toJson), ("v4_netblocks", .nat c.v4.netblocks),
    ("v6", c.v6.cover.toJson), ("v6_netblocks", .nat c.v6.netblocks)]

/-- A result that may be missing. -/
def CoverageStats.optionalToJson : Option CoverageStats → Json
  | none => .null
  | some c => c.toJson

/-- Counts of one family of a list. -/
def FamilyStats.toJson (s : FamilyStats) : Json :=
  .object [("blocks", .nat s.blocks), ("members", .nat s.members), ("runs", .nat s.runs)]

namespace Outcome

/-- What became of a list, with its name unless the reader knows it. -/
def toJson (name : Option String) : Outcome → Json
  | .committed s =>
      .object ([("list_id", .int s.list)] ++ named ++
        [("outcome", .string "committed"), ("v4", s.v4.toJson), ("v6", s.v6.toJson)])
  | .rolledBack e =>
      .object ([("error", .string e.text)] ++ named ++ [("outcome", .string "rolled_back")])
  | .skipped => .object (named ++ [("outcome", .string "skipped")])
where
  /-- The member that names the list. -/
  named : List (String × Json) := name.toList.map fun n => ("name", .string n)

end Outcome

/-- What became of the lists of a pass. -/
def Report.toJson (r : Report) : Json :=
  .object [
    ("lists", .array (r.lists.map fun (name, outcome) => outcome.toJson (some name))),
    ("unresolved", .array (r.unresolved.map .string))]

def Registrar.toJson (r : Registrar) : Json :=
  .object [
    ("id", .int r.id), ("name", .string r.name), ("serial", .nat r.serial),
    ("last_import", .int r.lastImport)]

/-- A netblock found by a lookup. -/
def NetblockInfo.toJson {f : Family} (n : NetblockInfo f) : Json :=
  .object [
    ("id", .int n.id), ("registrar", .string n.registrar),
    ("org_handle", .optional n.orgHandle), ("org_name", .optional n.orgName),
    ("start", .string n.first.text), ("end", .string n.last.text),
    ("prefix_len", .nat n.prefixLen), ("netname", .string n.netname),
    ("descr", .string n.descr)]

/-- A netblock, or null. -/
def NetblockInfo.optionalToJson {f : Family} : Option (NetblockInfo f) → Json
  | none => .null
  | some n => n.toJson

end NetRegistry
