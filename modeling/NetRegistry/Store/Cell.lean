/-
# Store.Cell -- addresses as stored values

A stored value is null, an integer, a number with a fraction, a text or a byte
string.  A column may be declared for one kind and hold another.  IPv4 addresses
are stored as integers and IPv6 addresses as their sixteen bytes, most significant
first, so that the order of stored values is the order of addresses: numbers
compare as numbers, byte strings byte by byte, a proper beginning first.
Reading an address back checks the kind of value, then its size or range.
-/
import NetRegistry.Address.Text

namespace NetRegistry

set_option autoImplicit false

inductive Cell where
  | null
  | integer (n : Int)
  /-- A number with a fraction; an infinite one is a power of two that no other reaches. -/
  | real (x : Rat)
  | text (s : String)
  | blob (bytes : List UInt8)
deriving DecidableEq

/-- Why a stored value is no address. -/
inductive CellError where
  /-- The value is of another kind. -/
  | kind
  /-- The integer does not fit. -/
  | outOfRange (n : Int)
  /-- The byte string has another length. -/
  | blobSize (size : Nat)
deriving DecidableEq

/-- The message of a failed reading. -/
def CellError.text : CellError → String
  | .kind => "Invalid type"
  | .outOfRange n => s!"Value {n} out of range"
  | .blobSize size => s!"Cannot read 16 byte value out of {size} byte blob"

namespace Cell

/-- Lexicographic order of byte strings. -/
def bytesLe : List UInt8 → List UInt8 → Bool
  | [], _ => true
  | _ :: _, [] => false
  | a :: as, b :: bs => a < b || (a == b && bytesLe as bs)

/-- Rank of the kinds of values. -/
def rank : Cell → Nat
  | .null => 0
  | .integer _ | .real _ => 1
  | .text _ => 2
  | .blob _ => 3

/-- The order of stored values: by kind, then within the kind; all numbers are of one kind. -/
def le : Cell → Cell → Bool
  | .integer m, .integer n => m ≤ n
  | .integer m, .real y => !y.blt (.ofInt m)
  | .real x, .integer n => !(Rat.ofInt n).blt x
  | .real x, .real y => !y.blt x
  | .text s, .text t => s ≤ t
  | .blob a, .blob b => bytesLe a b
  | a, b => a.rank ≤ b.rank

def kindName : Cell → String
  | .null => "Null"
  | .integer _ => "Integer"
  | .real _ => "Real"
  | .text _ => "Text"
  | .blob _ => "Blob"

end Cell

namespace Addr

/-- The stored value of an address. -/
def toCell : {f : Family} → Addr f → Cell
  | .v4, a => .integer a.toNat
  | .v6, a => .blob ((splitBits 8 16 a.toNat).map (·.toUInt8))

/-- The address that a stored value holds. -/
def ofCell? : (f : Family) → Cell → Except CellError (Addr f)
  | .v4, .integer n =>
      if h : 0 ≤ n ∧ n.toNat < powTwo Family.v4.bits then .ok ⟨n.toNat, h.2⟩
      else .error (.outOfRange n)
  | .v6, .blob bytes =>
      if bytes.length = 16 then .ok (wrap .v6 (joinBits 8 (bytes.map (·.toNat))))
      else .error (.blobSize bytes.length)
  | _, _ => .error .kind

end Addr

end NetRegistry
