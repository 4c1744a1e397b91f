/-
# Proofs.Address.Word -- addresses as machine words

A machine keeps an address in a word as wide as the address and works on its bits.
Here are those operations: the bitwise ones, the sums and differences that wrap
around, each refused with an `Overflow` where it would do so, and the logarithm
read off the leading zeros.

* `Addr.network_eq_and`, `Addr.broadcast_eq_or`: clearing and setting host bits is
  masking with them.
* `Range.isBlockByMask_eq`: a range is one block exactly when the mask of the bits in
  which its ends differ is a run of low bits, none of them set in its first
  address.  The mask plus one may wrap around.
* `Range.prefixLenByMask?_eq`: its prefix length is the number of leading zeros of the
  mask, and the operation that refuses other ranges is never misused on the way.
-/
import NetRegistry.Proofs.Cover.Block

namespace NetRegistry

set_option autoImplicit false

/-- An operation on words of which the result does not fit. -/
inductive Overflow where
  /-- A sum above the highest word. -/
  | sum
  /-- A difference below zero. -/
  | difference
  /-- The logarithm of zero. -/
  | logarithm
deriving DecidableEq

theorem Overflow.ok_bind {α β : Type} (a : α) (g : α → Except Overflow β) :
    (Except.ok a >>= g) = g a := rfl

namespace Addr

variable {f : Family}

instance : AndOp (Addr f) := ⟨fun a b => ⟨a.toNat &&& b.toNat, Nat.and_lt_two_pow _ b.isLt⟩⟩
instance : OrOp (Addr f) := ⟨fun a b => ⟨a.toNat ||| b.toNat, Nat.or_lt_two_pow a.isLt b.isLt⟩⟩
instance : XorOp (Addr f) := ⟨fun a b => ⟨a.toNat ^^^ b.toNat, Nat.xor_lt_two_pow a.isLt b.isLt⟩⟩
instance : Complement (Addr f) := ⟨fun a => top f ^^^ a⟩

theorem toNat_and (a b : Addr f) : (a &&& b).toNat = a.toNat &&& b.toNat := rfl
theorem toNat_or (a b : Addr f) : (a ||| b).toNat = a.toNat ||| b.toNat := rfl
theorem toNat_xor (a b : Addr f) : (a ^^^ b).toNat = a.toNat ^^^ b.toNat := rfl
theorem toNat_not (a : Addr f) : (~~~a).toNat = (powTwo f.bits - 1) ^^^ a.toNat := rfl

/-- The address one above the lowest. -/
def one (f : Family) : Addr f := wrap f 1

theorem toNat_one (f : Family) : (one f).toNat = 1 := by cases f <;> rfl

/-- The sum of two words, around the space where it exceeds the width. -/
def wrappingAdd (a b : Addr f) : Addr f := wrap f (a.toNat + b.toNat)

/-- The sum of two words, refused where it wraps. -/
def plus (a b : Addr f) : Except Overflow (Addr f) :=
  if a.toNat + b.toNat < powTwo f.bits then .ok (a.wrappingAdd b) else .error .sum

/-- The difference of two words, refused where it wraps. -/
def minus (a b : Addr f) : Except Overflow (Addr f) :=
  if b ≤ a then .ok (b.distance a) else .error .difference

/-- The difference of two small numbers, refused below zero. -/
def less (m n : Nat) : Except Overflow Nat := if n ≤ m then .ok (m - n) else .error .difference

/-- The logarithm of a word by its leading zeros, refused for zero. -/
def logarithm (a : Addr f) : Except Overflow Nat :=
  if a = bottom f then .error .logarithm else less (f.bits - 1) a.leadingZeros

theorem plus_eq_ok {a b c : Addr f} (sum : c.toNat = a.toNat + b.toNat) : a.plus b = .ok c := by
  have fits : a.toNat + b.toNat < powTwo f.bits := sum ▸ c.isLt
  rw [plus, if_pos fits]
  congr 1
  exact Addr.ext ((Nat.mod_eq_of_lt fits).trans sum.symm)

theorem minus_eq_ok {a b : Addr f} (below : b ≤ a) : a.minus b = .ok (b.distance a) := if_pos below

theorem less_eq_ok {m n : Nat} (below : n ≤ m) : less m n = .ok (m - n) := if_pos below

theorem leadingZeros_of_ne_zero {a : Addr f} (nonzero : a.toNat ≠ 0) :
    a.leadingZeros = f.bits - 1 - a.toNat.log2 := if_neg nonzero

theorem log2_lt_bits {a : Addr f} (nonzero : a.toNat ≠ 0) : a.toNat.log2 < f.bits :=
  (Nat.log2_lt nonzero).mpr a.isLt

theorem logarithm_eq_ok {a : Addr f} (nonzero : a.toNat ≠ 0) :
    a.logarithm = .ok a.toNat.log2 := by
  have ne : a ≠ bottom f := fun same => nonzero (congrArg toNat same)
  have small := log2_lt_bits nonzero
  rw [logarithm, if_neg ne, less_eq_ok (by rw [leadingZeros_of_ne_zero nonzero]; omega),
    leadingZeros_of_ne_zero nonzero]
  congr 1
  omega

/-- The next address as a word: nothing at the top, or else the sum with one. -/
def successor (a : Addr f) : Except Overflow (Option (Addr f)) :=
  if a = top f then .ok none else (a.plus (one f)).map some

theorem successor_eq (a : Addr f) : a.successor = .ok a.next? := by
  have below := a.isLt
  have isTop : a = top f ↔ a.toNat + 1 = powTwo f.bits := by
    rw [Addr.ext_iff_toNat]
    show a.toNat = powTwo f.bits - 1 ↔ _
    omega
  by_cases atTop : a = top f
  · rw [successor, if_pos atTop, next?, ofNat?, dif_neg (by rw [isTop.mp atTop]; exact Nat.lt_irrefl _)]
  · have fits : a.toNat + 1 < powTwo f.bits := by
      rw [isTop] at atTop
      omega
    rw [successor, if_neg atTop, plus_eq_ok (c := ⟨a.toNat + 1, fits⟩) (by rw [toNat_one]),
      next?, ofNat?, dif_pos fits]
    rfl

/-! ## Masks -/

theorem testBit_lowBits (k i : Nat) : (powTwo k - 1).testBit i = decide (i < k) :=
  Nat.testBit_two_pow_sub_one k i

theorem testBit_clearLow (n k i : Nat) :
    (n / powTwo k * powTwo k).testBit i = (decide (k ≤ i) && n.testBit i) := by
  have shifted : (n / powTwo k * powTwo k).testBit i =
      (decide (k ≤ i) && (n / powTwo k).testBit (i - k)) := Nat.testBit_mul_two_pow _ i k
  have dropped : (n / powTwo k).testBit (i - k) = n.testBit (i - k + k) :=
    Nat.testBit_div_two_pow n (i - k)
  rw [shifted, dropped]
  by_cases above : k ≤ i
  · rw [Nat.sub_add_cancel above]
  · simp [above]

/-- Low bits are added to a number that has none of them by setting them. -/
theorem add_lowBits (n k : Nat) :
    n / powTwo k * powTwo k + (powTwo k - 1) = n / powTwo k * powTwo k ||| (powTwo k - 1) := by
  have small : powTwo k - 1 < powTwo k := Nat.sub_lt (powTwo_pos k) Nat.one_pos
  rw [Nat.mul_comm]
  exact Nat.two_pow_add_eq_or_of_lt small _

/-- They are also the bits in which the sum differs from the number. -/
theorem xor_lowBits {n k : Nat} (aligned : powTwo k ∣ n) :
    n ^^^ (powTwo k - 1) = n + (powTwo k - 1) := by
  have whole : n / powTwo k * powTwo k = n := Nat.div_mul_cancel aligned
  have sum := add_lowBits n k
  have clear := testBit_clearLow n k
  rw [whole] at sum clear
  rw [sum]
  refine Nat.eq_of_testBit_eq fun i => ?_
  rw [Nat.testBit_xor, Nat.testBit_or, testBit_lowBits, clear i]
  by_cases low : i < k
  · simp [low, Nat.not_le.mpr low]
  · simp [low]

theorem toNat_hostMask (f : Family) (p : Nat) :
    (hostMask f p).toNat = powTwo (hostBits f p) - 1 := by
  show powTwo (min (hostBits f p) f.bits) - 1 = _
  rw [Nat.min_eq_left (hostBits_le f p)]

/-- Clearing the host bits of an address is masking them out. -/
theorem network_eq_and (a : Addr f) (p : Nat) : a.network p = a &&& ~~~hostMask f p := by
  refine Addr.ext (Nat.eq_of_testBit_eq fun i => ?_)
  rw [toNat_and, toNat_not, toNat_hostMask, Nat.testBit_and, Nat.testBit_xor, testBit_lowBits,
    testBit_lowBits]
  show (a.toNat / powTwo (hostBits f p) * powTwo (hostBits f p)).testBit i = _
  rw [testBit_clearLow]
  by_cases inside : i < f.bits
  · by_cases low : i < hostBits f p
    · simp [inside, low, Nat.not_le.mpr low]
    · simp [inside, low, Nat.not_lt.mp low]
  · have outside : a.toNat.testBit i = false :=
      Nat.testBit_lt_two_pow (Nat.lt_of_lt_of_le a.isLt (powTwo_le (Nat.not_lt.mp inside)))
    simp [outside]

/-- Setting the host bits of an address is masking them in. -/
theorem broadcast_eq_or (a : Addr f) (p : Nat) : a.broadcast p = a ||| hostMask f p := by
  refine Addr.ext (Nat.eq_of_testBit_eq fun i => ?_)
  show (a.toNat / powTwo (hostBits f p) * powTwo (hostBits f p) +
    (powTwo (hostBits f p) - 1)).testBit i = _
  rw [add_lowBits, toNat_or, toNat_hostMask, Nat.testBit_or, Nat.testBit_or, testBit_clearLow,
    testBit_lowBits]
  by_cases low : i < hostBits f p
  · simp [low]
  · simp [low, Nat.not_lt.mp low]

theorem leadingZeros_of_toNat_eq_lowBits {a : Addr f} {k : Nat} (fits : k ≤ f.bits)
    (lowBits : a.toNat = powTwo k - 1) : a.leadingZeros = f.bits - k := by
  cases k with
  | zero => exact if_pos lowBits
  | succ k =>
    have pos := powTwo_pos k
    have double := powTwo_succ k
    have nonzero : a.toNat ≠ 0 := by omega
    have log : a.toNat.log2 = k := (Nat.log2_eq_iff nonzero).mpr ⟨
      show powTwo k ≤ _ by omega, show _ < powTwo (k + 1) by omega⟩
    rw [leadingZeros_of_ne_zero nonzero, log]
    omega

end Addr

/-! ## Ranges that are one block, by their mask -/

namespace Range

variable {f : Family} {r : Range f}

/-- The bits in which the ends of the range differ. -/
def mask (r : Range f) : Addr f := r.first ^^^ r.last

/-- Whether the range is one block: its mask is a run of low bits of which its first address has
none. -/
def isBlockByMask (r : Range f) : Bool :=
  r.first ≤ r.last && r.mask &&& r.mask.wrappingAdd (.one f) == .bottom f &&
    r.first &&& r.mask == .bottom f

/-- Prefix length of a range that the caller knows to be one block, by its mask. -/
def prefixLenByMask (r : Range f) : Except Misuse Nat :=
  if r.isBlockByMask then .ok r.mask.leadingZeros
  else .error (.unaligned r.first.toNat r.last.toNat)

/-- Prefix length of the range by its mask, with the reason when it is not one block; `Misuse` if
a range that is none reached the operation for ranges that are. -/
def prefixLenByMask? (r : Range f) : Except Misuse (Except (RangeError f) Nat) :=
  if r.last < r.first then .ok (.error (.inverted r))
  else if r.isBlockByMask then r.prefixLenByMask.map .ok
  else .ok (.error (.unaligned r))

/-- A number has no bit in common with the next word exactly when it is a run of low bits. -/
theorem and_wrappingAdd_one_eq_bottom_iff {a : Addr f} :
    a &&& a.wrappingAdd (.one f) = .bottom f ↔ ∃ k, k ≤ f.bits ∧ a.toNat = powTwo k - 1 := by
  have below := a.isLt
  rw [Addr.ext_iff_toNat, Addr.toNat_and]
  show a.toNat &&& (a.toNat + (Addr.one f).toNat) % powTwo f.bits = 0 ↔ _
  rw [Addr.toNat_one]
  by_cases full : a.toNat + 1 = powTwo f.bits
  · -- the sum wraps around to zero
    rw [full, Nat.mod_self, Nat.and_zero]
    exact ⟨fun _ => ⟨f.bits, Nat.le_refl _, by omega⟩, fun _ => rfl⟩
  · have power : a.toNat + 1 &&& a.toNat + 1 - 1 = 0 ↔ ∃ k, a.toNat + 1 = powTwo k :=
      Nat.and_sub_one_eq_zero_iff_isPowerOfTwo (Nat.succ_ne_zero _)
    rw [Nat.mod_eq_of_lt (by omega), Nat.and_comm]
    refine power.trans ⟨?_, ?_⟩
    · rintro ⟨k, sum⟩
      refine ⟨k, Nat.le_of_not_lt fun long => ?_, by omega⟩
      have more := powTwo_le (Nat.le_of_lt long)
      omega
    · rintro ⟨k, -, lowBits⟩
      have pos := powTwo_pos k
      exact ⟨k, by omega⟩

/-- The ends of a valid block differ in its host bits. -/
theorem mask_range {b : Block f} (valid : b.Valid) : b.range.mask.toNat = b.size - 1 := by
  have last := valid.toNat_last
  have pos := b.size_pos
  have differ : b.base.toNat ^^^ (b.size - 1) = b.base.toNat + (b.size - 1) :=
    Addr.xor_lowBits valid.size_dvd
  show b.base.toNat ^^^ b.last.toNat = _
  rw [show b.last.toNat = b.base.toNat ^^^ (b.size - 1) by omega, ← Nat.xor_assoc, Nat.xor_self,
    Nat.zero_xor]

/-- The test by the mask holds of the ranges of valid blocks. -/
theorem isBlockByMask_iff : r.isBlockByMask = true ↔ ∃ b : Block f, b.Valid ∧ b.range = r := by
  rw [isBlockByMask, Bool.and_eq_true, Bool.and_eq_true, decide_eq_true_eq, beq_iff_eq, beq_iff_eq,
    and_wrappingAdd_one_eq_bottom_iff]
  constructor
  · rintro ⟨⟨ordered, k, fits, lowBits⟩, disjoint⟩
    have aligned : powTwo k ∣ r.first.toNat := by
      rw [Addr.ext_iff_toNat, Addr.toNat_and, lowBits] at disjoint
      have low : r.first.toNat &&& (powTwo k - 1) = r.first.toNat % powTwo k :=
        Nat.and_two_pow_sub_one_eq_mod _ k
      exact Nat.dvd_of_mod_eq_zero (low.symm.trans disjoint)
    have last : r.last.toNat = r.first.toNat + (powTwo k - 1) := by
      rw [← Addr.xor_lowBits aligned, ← lowBits, mask, Addr.toNat_xor, ← Nat.xor_assoc, Nat.xor_self,
        Nat.zero_xor]
    have pos := powTwo_pos k
    exact ⟨_, valid_of_aligned fits aligned (by omega)⟩
  · rintro ⟨b, valid, rfl⟩
    have differ := mask_range valid
    refine ⟨⟨valid.base_le_last, _, b.hostBits_le, differ⟩, Addr.ext ?_⟩
    rw [Addr.toNat_and, differ]
    have low : b.base.toNat &&& (b.size - 1) = b.base.toNat % b.size :=
      Nat.and_two_pow_sub_one_eq_mod _ _
    exact low.trans (Nat.mod_eq_zero_of_dvd valid.size_dvd)

theorem isBlock_iff_exists : r.isBlock = true ↔ ∃ b : Block f, b.Valid ∧ b.range = r := by
  constructor
  · intro isBlock
    obtain ⟨b, valid, range, -⟩ := exists_block isBlock
    exact ⟨b, valid, range⟩
  · rintro ⟨b, valid, rfl⟩
    exact valid.isBlock_range

theorem isBlockByMask_eq (r : Range f) : r.isBlockByMask = r.isBlock := by
  rw [Bool.eq_iff_iff, isBlockByMask_iff, isBlock_iff_exists]

theorem leadingZeros_mask (isBlock : r.isBlock = true) : r.mask.leadingZeros = r.blockPrefix := by
  obtain ⟨b, valid, rfl, prefixLen⟩ := exists_block isBlock
  have fits := valid.fits
  rw [Addr.leadingZeros_of_toNat_eq_lowBits b.hostBits_le (mask_range valid), ← prefixLen,
    Addr.hostBits]
  omega

theorem prefixLenByMask_eq (r : Range f) : r.prefixLenByMask = r.prefixLen := by
  rw [prefixLenByMask, prefixLen, isBlockByMask_eq]
  by_cases isBlock : r.isBlock = true
  · rw [if_pos isBlock, if_pos isBlock, leadingZeros_mask isBlock]
  · rw [if_neg isBlock, if_neg isBlock]

/-- The checked prefix length by masks never misuses the unchecked one. -/
theorem prefixLenByMask?_eq (r : Range f) : r.prefixLenByMask? = .ok r.prefixLen? := by
  rw [prefixLenByMask?, prefixLen?, isBlockByMask_eq, prefixLenByMask_eq]
  split
  · rfl
  · split
    · rename_i isBlock
      rw [prefixLen, if_pos isBlock]
      rfl
    · rfl

end Range

end NetRegistry
