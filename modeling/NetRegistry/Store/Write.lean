/-
# Store.Write -- statements that change rows

Records of a registrar are written under the serial of an import: an
organization is found again by its handle and a netblock by its range, and then
keeps its id.  Deleting a netblock deletes its memberships, and deleting an
organization unlinks its netblocks; unions and coverage are never touched by
either.  A row may refer only to rows that exist.
-/
import NetRegistry.Store.Database
import NetRegistry.Store.Read
import NetRegistry.Text.Pattern

namespace NetRegistry

set_option autoImplicit false

/-- An organization as reported by a registrar. -/
structure OrgRecord where
  handle : String
  name : String
  descr : String
deriving DecidableEq

/-- A netblock as reported by a registrar. -/
structure NetblockRecord (f : Family) where
  range : Range f
  prefixLen : Nat
  /-- The handle of the organization that holds it. -/
  reference : Option String
  name : String
  descr : String
deriving DecidableEq

namespace Write

/-! ## Registrars and their records -/

/-- Add a registrar without imports. -/
def insertRegistrar (name : String) : Statement RegistrarRow := fun t =>
  let row : RegistrarRow := ⟨nextId (t.registrars.map (·.id)), name, 0, 0⟩
  .ok (row, { t with registrars := t.registrars ++ [row] })

/-- Write an organization of a registrar under a serial; the answer is whether it is new. -/
def writeOrg (registrar : RowId) (serial : Nat) (o : OrgRecord) : Statement Bool := fun t =>
  let same := fun r : OrgRow => r.registrar == registrar && r.handle == o.handle
  if t.orgs.any same then
    let refreshed := t.orgs.map fun r =>
      if same r then { r with serial := serial, name := o.name, descr := o.descr } else r
    .ok (false, { t with orgs := refreshed })
  else if (t.registrar? registrar).isNone then .error .danglingReference
  else
    let row : OrgRow :=
      ⟨nextId (t.orgs.map (·.id)), registrar, serial, o.handle, o.name, o.descr⟩
    .ok (true, { t with orgs := t.orgs ++ [row] })

/-- Write a netblock of a registrar under a serial; the answer is whether it is new.  One that was
there keeps its id and its link. -/
def writeNetblock {f : Family} (registrar : RowId) (serial : Nat) (n : NetblockRecord f) :
    Statement Bool := fun t =>
  let first := n.range.first.toCell
  let last := n.range.last.toCell
  let rows := t.netblocks.get f
  let same := fun r : NetblockRow =>
    r.registrar == registrar && r.first == first && r.last == last
  if rows.any same then
    let refreshed := rows.map fun r =>
      if same r then
        { r with
          serial := serial, reference := n.reference, prefixLen := n.prefixLen
          name := n.name, descr := n.descr }
      else r
    .ok (false, { t with netblocks := t.netblocks.set f refreshed })
  else if (t.registrar? registrar).isNone then .error .danglingReference
  else
    let row : NetblockRow :=
      ⟨nextId (rows.map (·.id)), registrar, serial, n.reference, none, first, last, n.prefixLen,
        n.name, n.descr⟩
    .ok (true, { t with netblocks := t.netblocks.set f (rows ++ [row]) })

/-- Delete the netblocks of a registrar that carry another serial, and their memberships. -/
def sweepNetblocks (f : Family) (registrar : RowId) (serial : Nat) : Statement Nat := fun t =>
  let stale := fun r : NetblockRow => r.registrar == registrar && r.serial != serial
  let gone := (t.netblocks.get f).filter stale
  let goneIds := gone.map (·.id)
  .ok (gone.length,
    { t with
      netblocks := t.netblocks.set f ((t.netblocks.get f).filter (!stale ·))
      members := t.members.set f ((t.members.get f).filter fun m => !goneIds.contains m.netblock) })

/-- Delete the organizations of a registrar that carry another serial, and unlink their
netblocks. -/
def sweepOrgs (registrar : RowId) (serial : Nat) : Statement Nat := fun t =>
  let stale := fun r : OrgRow => r.registrar == registrar && r.serial != serial
  let gone := t.orgs.filter stale
  let goneIds := gone.map (·.id)
  let unlink := fun n : NetblockRow =>
    if n.org.any goneIds.contains then { n with org := none } else n
  .ok (gone.length,
    { t with
      orgs := t.orgs.filter (!stale ·)
      netblocks := t.netblocks.map fun _ rows => rows.map unlink })

/-- The organization of a registrar with a given handle. -/
def orgOfHandle? (t : Tables) (registrar : RowId) (handle : String) : Option RowId :=
  (t.orgs.find? fun o => o.registrar == registrar && o.handle == handle).map (·.id)

/-- Link every netblock of a registrar to the organization that it refers to, or to none. -/
def linkNetblocks (f : Family) (registrar : RowId) : Statement Unit := fun t =>
  let link := fun n : NetblockRow =>
    if n.registrar == registrar then
      { n with org := n.reference.bind (orgOfHandle? t registrar) }
    else n
  .ok ((), { t with netblocks := t.netblocks.set f ((t.netblocks.get f).map link) })

def recordImport (registrar : RowId) (serial : Nat) (now : Nat) : Statement Unit := fun t =>
  let update := fun r : RegistrarRow =>
    if r.id == registrar then { r with serial := serial, lastImport := now } else r
  .ok ((), { t with registrars := t.registrars.map update })

/-! ## Lists and coverage -/

/-- The id of the list of a given name, which is added if there is none. -/
def ensureList (name : String) : Statement RowId := fun t =>
  match t.listNamed? name with
  | some id => .ok (id, t)
  | none =>
      let id := nextId (t.lists.map (·.id))
      .ok (id, { t with lists := t.lists ++ [⟨id, name⟩] })

/-- Delete the members and the union of a list in one family. -/
def clearList (f : Family) (list : RowId) : Statement Unit := fun t =>
  .ok ((),
    { t with
      members := t.members.set f ((t.members.get f).filter (·.list != list))
      unions := t.unions.set f ((t.unions.get f).filter (·.list != list)) })

/-- Whether a netblock satisfies a predicate. -/
def selects (t : Tables) (p : Predicate) (n : NetblockRow) : Bool :=
  (t.candidate? n).any fun c => p.holds Text.matchesPattern c

/-- Add every netblock that satisfies the predicate to the list; the answer is their number. -/
def populate (f : Family) (list : RowId) (p : Predicate) : Statement Nat := fun t =>
  let chosen := (t.netblocks.get f).filter (selects t p)
  let present := t.membersOf f list
  if chosen.any fun n => present.any (·.netblock == n.id) then .error (.duplicateMember f)
  else if !chosen.isEmpty && !t.hasList list then .error .danglingReference
  else
    let rows := chosen.map fun n : NetblockRow =>
      (⟨list, n.id, n.first, n.last, n.prefixLen⟩ : MemberRow)
    .ok (chosen.length, { t with members := t.members.set f (t.members.get f ++ rows) })

/-- Add a block to the union of a list. -/
def insertUnionBlock {f : Family} (list : RowId) (b : Block f) : Statement Unit := fun t =>
  if (t.unions.get f).any fun u => u.list == list && u.block.base == b.base.toCell then
    .error (.duplicateUnionBlock f)
  else if !t.hasList list then .error .danglingReference
  else .ok ((), { t with unions := t.unions.set f (t.unions.get f ++ [⟨list, b.toRow⟩]) })

/-- Delete the coverage union of a family. -/
def clearCoverage (f : Family) : Statement Unit := fun t =>
  .ok ((), { t with coverage := t.coverage.set f [] })

/-- Add a block to the coverage union. -/
def insertCoverageBlock {f : Family} (b : Block f) : Statement Unit := fun t =>
  if (t.coverage.get f).any (·.base == b.base.toCell) then .error (.duplicateCoverageBlock f)
  else .ok ((), { t with coverage := t.coverage.set f (t.coverage.get f ++ [b.toRow]) })

/-! ## Writing from outside

A database file can be changed by other programs.  These statements do so
without the checks that the import makes. -/

/-- Overwrite the serial of a registrar; the answer is the number of rows changed. -/
def overwriteSerial (name : String) (serial : Int) : Statement Nat := fun t =>
  .ok (t.registrars.countP (·.name == name),
    { t with
      registrars := t.registrars.map fun r =>
        if r.name == name then { r with serial := serial } else r })

/-- Insert a netblock with the current serial of its registrar and any stored values; the answer is
the number of rows inserted. -/
def insertUnchecked (f : Family) (registrar : String) (first last : Cell) (prefixLen : Int)
    (name : String) : Statement Nat := fun t =>
  match t.registrarNamed? registrar with
  | none => .ok (0, t)
  | some r =>
      let rows := t.netblocks.get f
      if rows.any fun n => n.registrar == r.id && n.first == first && n.last == last then
        .error (.duplicateNetblock f)
      else
        let row : NetblockRow :=
          ⟨nextId (rows.map (·.id)), r.id, r.serial, none, none, first, last, prefixLen, name, ""⟩
        .ok (1, { t with netblocks := t.netblocks.set f (rows ++ [row]) })

end Write

end NetRegistry
