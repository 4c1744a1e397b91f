/-
# Address.Basic -- fixed-width addresses

An address is a number below `powTwo f.bits`, with the bound in the type.  The
arithmetic that a CIDR network needs is division by powers of two: clearing the
low `h` bits of `a` is `a / powTwo h * powTwo h`, and setting them is that number
plus `powTwo h - 1`.  Nothing here wraps, except `Addr.distance`, which says so.
-/
import NetRegistry.Address.Family
import NetRegistry.Bits

namespace NetRegistry

set_option autoImplicit false

@[ext] structure Addr (f : Family) where
  toNat : Nat
  isLt : toNat < powTwo f.bits
deriving DecidableEq

namespace Addr

variable {f : Family}

/-- The number as an address, if it fits the width. -/
def ofNat? (f : Family) (n : Nat) : Option (Addr f) :=
  if h : n < powTwo f.bits then some ⟨n, h⟩ else none

/-- The number as an address, reduced modulo the size of the address space. -/
def wrap (f : Family) (n : Nat) : Addr f :=
  ⟨n % powTwo f.bits, Nat.mod_lt _ (powTwo_pos _)⟩

/-- The lowest address. -/
def bottom (f : Family) : Addr f := ⟨0, powTwo_pos _⟩

/-- The highest address. -/
def top (f : Family) : Addr f := ⟨powTwo f.bits - 1, Nat.sub_lt (powTwo_pos _) Nat.one_pos⟩

instance : LE (Addr f) := ⟨fun a b => a.toNat ≤ b.toNat⟩
instance : LT (Addr f) := ⟨fun a b => a.toNat < b.toNat⟩
instance (a b : Addr f) : Decidable (a ≤ b) := inferInstanceAs (Decidable (a.toNat ≤ b.toNat))
instance (a b : Addr f) : Decidable (a < b) := inferInstanceAs (Decidable (a.toNat < b.toNat))

theorem le_def {a b : Addr f} : a ≤ b ↔ a.toNat ≤ b.toNat := Iff.rfl
theorem lt_def {a b : Addr f} : a < b ↔ a.toNat < b.toNat := Iff.rfl

def highest (a b : Addr f) : Addr f := if a ≤ b then b else a

theorem toNat_highest (a b : Addr f) : (a.highest b).toNat = max a.toNat b.toNat := by
  unfold highest
  split <;> rename_i h <;> rw [le_def] at h <;> omega

/-- The next address, or nothing at the top of the space. -/
def next? (a : Addr f) : Option (Addr f) := ofNat? f (a.toNat + 1)

/-- How far `b` lies above `a`, counted around the address space when it lies below. -/
def distance (a b : Addr f) : Addr f := wrap f (b.toNat + powTwo f.bits - a.toNat)

theorem toNat_distance {a b : Addr f} (h : a ≤ b) : (a.distance b).toNat = b.toNat - a.toNat := by
  have ha := a.isLt; have hb := b.isLt; rw [le_def] at h
  show (b.toNat + powTwo f.bits - a.toNat) % powTwo f.bits = _
  rw [show b.toNat + powTwo f.bits - a.toNat = (b.toNat - a.toNat) + powTwo f.bits by omega,
    Nat.add_mod_right, Nat.mod_eq_of_lt (by omega)]

/-! ## Bits -/

/-- Number of trailing zero bits of `n`, at most `width`. -/
def trailingZerosUpTo : (width n : Nat) → Nat
  | 0, _ => 0
  | w + 1, n => if n % 2 = 0 then trailingZerosUpTo w (n / 2) + 1 else 0

/-- Number of trailing zero bits; the full width for the lowest address. -/
def trailingZeros (a : Addr f) : Nat := trailingZerosUpTo f.bits a.toNat

/-- Number of leading zero bits; the full width for the lowest address. -/
def leadingZeros (a : Addr f) : Nat :=
  if a.toNat = 0 then f.bits else f.bits - 1 - a.toNat.log2

/-- The address whose lowest `k` bits are set; all of them when `k` exceeds the width. -/
def lowMask (f : Family) (k : Nat) : Addr f :=
  ⟨powTwo (min k f.bits) - 1,
    Nat.lt_of_lt_of_le (Nat.sub_lt (powTwo_pos _) Nat.one_pos) (powTwo_le (Nat.min_le_right _ _))⟩

/-- Number of host bits below a prefix; an over-long prefix leaves none. -/
def hostBits (f : Family) (prefixLen : Nat) : Nat := f.bits - prefixLen

/-- The address whose host bits below a prefix are set. -/
def hostMask (f : Family) (prefixLen : Nat) : Addr f := lowMask f (hostBits f prefixLen)

theorem hostBits_le (f : Family) (p : Nat) : hostBits f p ≤ f.bits := Nat.sub_le _ _

/-- `a` with its host bits below the prefix cleared. -/
def network (a : Addr f) (prefixLen : Nat) : Addr f :=
  ⟨a.toNat / powTwo (hostBits f prefixLen) * powTwo (hostBits f prefixLen),
    Nat.lt_of_le_of_lt (Nat.div_mul_le_self _ _) a.isLt⟩

theorem setHostBits_lt (a : Addr f) (p : Nat) :
    a.toNat / powTwo (hostBits f p) * powTwo (hostBits f p) + (powTwo (hostBits f p) - 1) <
      powTwo f.bits := by
  have hp := powTwo_pos (hostBits f p)
  have hsplit : powTwo f.bits = powTwo (f.bits - hostBits f p) * powTwo (hostBits f p) := by
    rw [← powTwo_add, Nat.sub_add_cancel (hostBits_le f p)]
  have hq : a.toNat / powTwo (hostBits f p) < powTwo (f.bits - hostBits f p) := by
    rw [Nat.div_lt_iff_lt_mul hp, ← hsplit]; exact a.isLt
  have hle := Nat.mul_le_mul_right (powTwo (hostBits f p)) (Nat.succ_le_of_lt hq)
  rw [← hsplit, Nat.succ_mul] at hle
  omega

/-- `a` with its host bits below the prefix set. -/
def broadcast (a : Addr f) (prefixLen : Nat) : Addr f :=
  ⟨a.toNat / powTwo (hostBits f prefixLen) * powTwo (hostBits f prefixLen) +
      (powTwo (hostBits f prefixLen) - 1),
    setHostBits_lt a prefixLen⟩

theorem le_broadcast (a : Addr f) (p : Nat) : a ≤ a.broadcast p := by
  show a.toNat ≤ _ / _ * _ + _
  have h := Nat.div_add_mod a.toNat (powTwo (hostBits f p))
  have hm := Nat.mod_lt a.toNat (powTwo_pos (hostBits f p))
  rw [Nat.mul_comm] at h
  omega

end Addr

end NetRegistry
