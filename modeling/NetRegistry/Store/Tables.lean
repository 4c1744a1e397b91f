/-
# Store.Tables -- what the database holds

Registrars, their organizations and netblocks, named lists with their members
and unions, and the coverage union of the whole registry.  Every row has an id
within its table: one more than the largest id there is, or 1 in an empty table
(`nextId`), so the id of a deleted last row is given out again.

Addresses stand in the tables as stored values (`Cell`), and so do the prefix
lengths of unions and coverage, because a database can be written from outside;
reading them back can therefore fail.
-/
import NetRegistry.Listing.Predicate
import NetRegistry.Store.Cell

namespace NetRegistry

set_option autoImplicit false

abbrev RowId := Int

/-- A registrar: a source of records that are imported together. -/
structure RegistrarRow where
  id : RowId
  name : String
  /-- Serial of the last finished import. -/
  serial : Int
  /-- Time of the last finished import in seconds, 0 if there was none. -/
  lastImport : Int
deriving DecidableEq

structure OrgRow where
  id : RowId
  registrar : RowId
  serial : Int
  handle : String
  name : String
  descr : String
deriving DecidableEq

structure NetblockRow where
  id : RowId
  registrar : RowId
  serial : Int
  /-- The handle of the organization that the netblock refers to. -/
  reference : Option String
  /-- The organization that it is linked to. -/
  org : Option RowId
  first : Cell
  last : Cell
  prefixLen : Int
  name : String
  descr : String
deriving DecidableEq

structure ListRow where
  id : RowId
  name : String
deriving DecidableEq

/-- A netblock that is a member of a list, with its range and prefix length copied. -/
structure MemberRow where
  list : RowId
  netblock : RowId
  first : Cell
  last : Cell
  prefixLen : Int
deriving DecidableEq

/-- A block as it is stored. -/
structure BlockRow where
  base : Cell
  prefixLen : Cell
deriving DecidableEq

/-- The row that stores a block. -/
def Block.toRow {f : Family} (b : Block f) : BlockRow := ⟨b.base.toCell, .integer b.prefixLen⟩

/-- A block of the union of a list. -/
structure UnionRow where
  list : RowId
  block : BlockRow
deriving DecidableEq

/-- The tables, rows in the order in which they were inserted. -/
structure Tables where
  registrars : List RegistrarRow
  orgs : List OrgRow
  netblocks : PerFamily fun _ => List NetblockRow
  lists : List ListRow
  members : PerFamily fun _ => List MemberRow
  unions : PerFamily fun _ => List UnionRow
  coverage : PerFamily fun _ => List BlockRow

/-- The id that the next row gets. -/
def nextId (ids : List RowId) : RowId := ids.foldl max 0 + 1

namespace Tables

/-- Nothing is stored. -/
def empty : Tables := ⟨[], [], ⟨[], []⟩, [], ⟨[], []⟩, ⟨[], []⟩, ⟨[], []⟩⟩

variable (t : Tables)

/-- The registrar of a given id. -/
def registrar? (id : RowId) : Option RegistrarRow := t.registrars.find? (·.id == id)

/-- The registrar of a given name. -/
def registrarNamed? (name : String) : Option RegistrarRow := t.registrars.find? (·.name == name)

/-- The organization of a given id. -/
def org? (id : RowId) : Option OrgRow := t.orgs.find? (·.id == id)

/-- The id of the list of a given name. -/
def listNamed? (name : String) : Option RowId := (t.lists.find? (·.name == name)).map (·.id)

/-- Whether there is a list of that id. -/
def hasList (id : RowId) : Bool := t.lists.any (·.id == id)

/-- The organization that a netblock is linked to. -/
def orgOf? (n : NetblockRow) : Option OrgRow := n.org.bind t.org?

/-- What a predicate sees of a netblock; nothing if its registrar does not exist. -/
def candidate? (n : NetblockRow) : Option Candidate :=
  (t.registrar? n.registrar).map fun r =>
    let org := t.orgOf? n
    { registrar := r.name
      orgHandle := org.map (·.handle)
      orgName := org.map (·.name)
      orgDescr := org.map (·.descr)
      reference := n.reference
      netname := n.name
      descr := n.descr }

end Tables

end NetRegistry
