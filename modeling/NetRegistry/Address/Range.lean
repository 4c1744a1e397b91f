/-
# Address.Range -- inclusive address ranges and CIDR blocks

A `Range` is a pair of addresses, both inclusive; it may be *inverted*
(`last < first`), because ranges arrive from outside and are checked where it
matters.  A `Block` is a base address with a prefix length, written
`base/length`; it too is unchecked, and `Block.of?` is the checked constructor.

A range is one block exactly when its length is a power of two that divides its
first address (`Range.isBlock`); the prefix length is then the width less the
logarithm of the length.
-/
import NetRegistry.Address.Basic

namespace NetRegistry

set_option autoImplicit false

@[ext] structure Range (f : Family) where
  first : Addr f
  last : Addr f
deriving DecidableEq

/-- A base address and a prefix length. -/
@[ext] structure Block (f : Family) where
  base : Addr f
  prefixLen : Nat
deriving DecidableEq

/-- Why a range or a block was refused. -/
inductive RangeError (f : Family) where
  /-- The first address is above the last. -/
  | inverted (range : Range f)
  /-- The range is not a single block. -/
  | unaligned (range : Range f)
  /-- The prefix is longer than the address. -/
  | prefixTooLong (prefixLen : Nat)
deriving DecidableEq

/-- A call that its caller should not have made; the unchecked operations refuse it. -/
inductive Misuse where
  /-- The prefix length of a range that is not a single block was asked for. -/
  | unaligned (first last : Nat)
  /-- The last address of a block with an over-long prefix was asked for. -/
  | prefixTooLong (prefixLen : Nat)
  /-- The blocks of an inverted range were asked for. -/
  | inverted (first last : Nat)
deriving DecidableEq

namespace Range

variable {f : Family}

/-- The range from `first` to `last`, refused when inverted. -/
def of? (first last : Addr f) : Except (RangeError f) (Range f) :=
  if last < first then .error (.inverted ⟨first, last⟩) else .ok ⟨first, last⟩

/-- The whole address space. -/
def full (f : Family) : Range f := ⟨.bottom f, .top f⟩

/-- Whether the address lies in the range. -/
def contains (r : Range f) (a : Addr f) : Bool := r.first ≤ a && a ≤ r.last

/-- Number of addresses less one, counted around the space for an inverted range. -/
def span (r : Range f) : Addr f := r.first.distance r.last

/-- Number of addresses of a range that is not inverted. -/
def length (r : Range f) : Nat := r.span.toNat + 1

/-- Whether the range is exactly one block: its length is a power of two that divides the
first address. -/
def isBlock (r : Range f) : Bool :=
  r.first ≤ r.last && powTwo r.length.log2 == r.length && r.first.toNat % r.length == 0

/-- Prefix length of a range that is one block. -/
def blockPrefix (r : Range f) : Nat := f.bits - r.length.log2

/-- Prefix length of the range, with the reason when it is not one block. -/
def prefixLen? (r : Range f) : Except (RangeError f) Nat :=
  if r.last < r.first then .error (.inverted r)
  else if r.isBlock then .ok r.blockPrefix
  else .error (.unaligned r)

/-- Prefix length of a range that the caller knows to be one block. -/
def prefixLen (r : Range f) : Except Misuse Nat :=
  if r.isBlock then .ok r.blockPrefix else .error (.unaligned r.first.toNat r.last.toNat)

/-- The block that the range is, with the reason when it is none. -/
def toBlock? (r : Range f) : Except (RangeError f) (Block f) :=
  r.prefixLen?.map (⟨r.first, ·⟩)

/-- Order by first address, then by last. -/
def le (r s : Range f) : Bool :=
  r.first < s.first || (r.first == s.first && r.last ≤ s.last)

end Range

namespace Block

variable {f : Family}

/-- Last address of the block, refused for an over-long prefix. -/
def last? (b : Block f) : Except (RangeError f) (Addr f) :=
  if f.bits < b.prefixLen then .error (.prefixTooLong b.prefixLen)
  else .ok (b.base.broadcast b.prefixLen)

/-- Last address of a block whose prefix the caller knows to fit. -/
def lastOrMisuse (b : Block f) : Except Misuse (Addr f) :=
  if f.bits < b.prefixLen then .error (.prefixTooLong b.prefixLen)
  else .ok (b.base.broadcast b.prefixLen)

/-- The block `base/prefixLen`, refused for an over-long prefix, then for set host bits. -/
def of? (base : Addr f) (prefixLen : Nat) : Except (RangeError f) (Block f) := do
  let last ← last? ⟨base, prefixLen⟩
  if base.network prefixLen = base then .ok ⟨base, prefixLen⟩
  else .error (.unaligned ⟨base, last⟩)

def last (b : Block f) : Addr f := b.base.broadcast b.prefixLen

/-- The addresses of the block. -/
def range (b : Block f) : Range f := ⟨b.base, b.last⟩

/-- Whether the address, with its host bits cleared, is the base of the block. -/
def contains (b : Block f) (a : Addr f) : Bool := a.network b.prefixLen == b.base

/-- The block with its host bits cleared. -/
def network (b : Block f) : Block f := ⟨b.base.network b.prefixLen, b.prefixLen⟩

/-- Order by base address, then by prefix length. -/
def le (b c : Block f) : Bool :=
  b.base < c.base || (b.base == c.base && b.prefixLen ≤ c.prefixLen)

end Block

end NetRegistry
