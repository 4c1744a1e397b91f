/-
# Store.Read -- reading rows back

Stored values become addresses, prefix lengths and serials here, and a value
that does not fit is reported with the column of the result that it stood in.
A scan gives its rows in the order of their stored first and last addresses; a
lookup gives the row with the longest prefix, and of equals the oldest.
-/
import NetRegistry.Error
import NetRegistry.Store.Tables

namespace NetRegistry

set_option autoImplicit false

/-- A registrar as read: its serial fits 32 bits. -/
structure Registrar where
  id : RowId
  name : String
  serial : Nat
  lastImport : Int
deriving DecidableEq

/-- What a lookup tells about a netblock. -/
structure NetblockInfo (f : Family) where
  id : RowId
  registrar : String
  /-- The handle of the organization, or the one that the netblock refers to. -/
  orgHandle : Option String
  orgName : Option String
  first : Addr f
  last : Addr f
  prefixLen : Nat
  netname : String
  descr : String
deriving DecidableEq

/-- Greatest serial. -/
def maxSerial : Nat := powTwo 32 - 1

/-- Greatest prefix length that a row can hold. -/
def maxPrefixLen : Nat := 255

namespace Read

/-- An address in a column of a result. -/
def addr (f : Family) (column : Nat) (name : String) (c : Cell) : Except StorageError (Addr f) :=
  match Addr.ofCell? f c with
  | .ok a => .ok a
  | .error .kind => .error (.wrongKind c.kindName column name)
  | .error (.outOfRange n) => .error (.integerOutOfRange n column)
  | .error (.blobSize size) => .error (.blobSize size column)

/-- A number from 0 to `top` in a column of a result. -/
def bounded (top : Nat) (column : Nat) (n : Int) : Except StorageError Nat :=
  if 0 ≤ n ∧ n ≤ top then .ok n.toNat else .error (.integerOutOfRange n column)

/-- The prefix length in a column of a result. -/
def prefixLen (column : Nat) (name : String) : Cell → Except StorageError Nat
  | .integer n => bounded maxPrefixLen column n
  | c => .error (.wrongKind c.kindName column name)

def registrar (r : RegistrarRow) : Except StorageError Registrar := do
  let serial ← bounded maxSerial 2 r.serial
  return ⟨r.id, r.name, serial, r.lastImport⟩

/-- The first and last address of a scanned row. -/
def bounds (f : Family) (row : Cell × Cell) : Except StorageError (Range f) := do
  let first ← addr f 0 "start_ip" row.1
  let last ← addr f 1 "end_ip" row.2
  return ⟨first, last⟩

/-- The block of a row. -/
def block (f : Family) (row : BlockRow) : Except StorageError (Block f) := do
  let base ← addr f 0 "address" row.base
  let prefixLen ← prefixLen 1 "prefix_len" row.prefixLen
  return ⟨base, prefixLen⟩

end Read

/-- Order of scanned rows: by first address as stored, then by last. -/
def scanLe (r s : Cell × Cell) : Bool :=
  if r.1 = s.1 then r.2.le s.2 else r.1.le s.1

namespace Tables

variable (t : Tables)

/-- The registrar of a given name, if there is one. -/
def readRegistrar (name : String) : Except StorageError (Option Registrar) :=
  match t.registrarNamed? name with
  | none => .ok none
  | some r => (Read.registrar r).map some

/-- All registrars by name. -/
def readRegistrars : Except StorageError (List Registrar) :=
  (t.registrars.mergeSort (·.name ≤ ·.name)).mapM Read.registrar

/-- All lists by name. -/
def listsByName : List ListRow := t.lists.mergeSort (·.name ≤ ·.name)

/-- The stored ranges of the netblocks of a family in scan order. -/
def netblockRows (f : Family) : List (Cell × Cell) :=
  ((t.netblocks.get f).map fun n => (n.first, n.last)).mergeSort scanLe

def membersOf (f : Family) (list : RowId) : List MemberRow :=
  (t.members.get f).filter (·.list == list)

/-- The stored ranges of the members of a list in scan order. -/
def memberRows (f : Family) (list : RowId) : List (Cell × Cell) :=
  ((t.membersOf f list).map fun m => (m.first, m.last)).mergeSort scanLe

/-- The rows of the union of a list in the order of their stored addresses. -/
def unionRows (f : Family) (list : RowId) : List BlockRow :=
  (((t.unions.get f).filter (·.list == list)).map (·.block)).mergeSort fun b c => b.base.le c.base

/-- The union of a list in address order. -/
def unionOf (f : Family) (list : RowId) : Except StorageError (List (Block f)) :=
  (t.unionRows f list).mapM (Read.block f)

/-- The rows of the coverage union in the order of their stored addresses. -/
def coverageRows (f : Family) : List BlockRow :=
  (t.coverage.get f).mergeSort fun b c => b.base.le c.base

/-- The coverage union in address order. -/
def coverageOf (f : Family) : Except StorageError (List (Block f)) :=
  (t.coverageRows f).mapM (Read.block f)

/-- The block of the union of a list that contains an address: the last one that starts at or below
it is the only one that can, and the only row that is read. -/
def unionLookup (f : Family) (list : RowId) (a : Addr f) :
    Except StorageError (Option (Block f)) := do
  match ((t.unionRows f list).filter (·.base.le a.toCell)).getLast? with
  | none => return none
  | some row =>
      let b ← Read.block f row
      return if b.contains a then some b else none

/-- Whether a netblock goes before another as the answer to a lookup. -/
def moreSpecific (m n : NetblockRow) : Bool :=
  n.prefixLen < m.prefixLen || (m.prefixLen == n.prefixLen && m.id < n.id)

/-- The netblocks that contain an address, as stored. -/
def containing (f : Family) (a : Addr f) : List NetblockRow :=
  (t.netblocks.get f).filter fun n =>
    n.first.le a.toCell && a.toCell.le n.last && (t.registrar? n.registrar).isSome

/-- The most specific netblock of a sequence. -/
def mostSpecific? : List NetblockRow → Option NetblockRow
  | [] => none
  | n :: rest =>
      match mostSpecific? rest with
      | none => some n
      | some m => some (if moreSpecific m n then m else n)

/-- What is known of the most specific netblock that contains an address. -/
def lookup (f : Family) (a : Addr f) : Except StorageError (Option (NetblockInfo f)) :=
  match mostSpecific? (t.containing f a) with
  | none => .ok none
  | some n => do
      let first ← Read.addr f 4 "start_ip" n.first
      let last ← Read.addr f 5 "end_ip" n.last
      let prefixLen ← Read.bounded maxPrefixLen 6 n.prefixLen
      let org := t.orgOf? n
      return some
        { id := n.id
          registrar := ((t.registrar? n.registrar).map (·.name)).getD ""
          orgHandle := org.map (·.handle) <|> n.reference
          orgName := org.map (·.name)
          first, last, prefixLen
          netname := n.name
          descr := n.descr }

end Tables

end NetRegistry
