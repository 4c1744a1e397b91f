/-
# Proofs.Address.Laminar -- blocks are intervals, and any two are apart or nested

Whether a block contains an address is asked of bits: the address with its host bits
masked out is compared with the base.  Blocks are stored, sorted and looked up by the
numbers at their ends.  For a block that the checked constructor accepts the two say
the same, and the blocks of a family form a laminar set.

* `Addr.lowMaskByShift?_eq`: the mask is what is left of the highest word after a shift,
  and no shift is as wide as the word.
* `Block.containsByMask?_eq`, `Block.lastByMask?_eq`: what a block contains and where it
  ends, on words.
* `Block.Valid.isInterval`: the addresses of a block are those from its base to its
  last.
* `Block.within_of_prefixLen_le`, `Block.prefixLen_le_of_within`, `Block.eq_of_within`:
  of two blocks that share an address, the shorter prefix is the one around the other.

**Main theorem** `Block.intervals_laminar`.
-/
import NetRegistry.Proofs.Address.Word

namespace NetRegistry

set_option autoImplicit false

variable {f : Family}

/-! ## Masks as shifts -/

namespace Addr

theorem shiftRight_lt (a : Addr f) (n : Nat) : a.toNat >>> n < powTwo f.bits :=
  Nat.lt_of_le_of_lt (Nat.shiftRight_le a.toNat n) a.isLt

/-- The word shifted to the right, refused where the shift is as wide as the word. -/
def shiftRight? (a : Addr f) (n : Nat) : Option (Addr f) :=
  if n < f.bits then some ⟨a.toNat >>> n, a.shiftRight_lt n⟩ else none

/-- The lowest `k` bits of the highest word, moved down from its top; none are not moved, because
that shift would be as wide as the word. -/
def lowMaskByShift? (f : Family) (k : Nat) : Option (Addr f) :=
  if k = 0 then some (bottom f) else (top f).shiftRight? (f.bits - min k f.bits)

theorem lowBits_shiftRight {k n : Nat} (fits : k ≤ n) :
    (powTwo n - 1) >>> (n - k) = powTwo k - 1 := by
  refine Nat.eq_of_testBit_eq fun i => ?_
  rw [Nat.testBit_shiftRight, testBit_lowBits, testBit_lowBits, decide_eq_decide]
  omega

/-- The shift is never refused, and leaves the mask. -/
theorem lowMaskByShift?_eq (f : Family) (k : Nat) : lowMaskByShift? f k = some (lowMask f k) := by
  have bits := f.bits_pos
  rw [lowMaskByShift?]
  by_cases none : k = 0
  · subst none
    rfl
  · have shift : f.bits - min k f.bits < f.bits := by omega
    rw [if_neg none, shiftRight?, if_pos shift]
    exact congrArg some (Addr.ext (lowBits_shiftRight (Nat.min_le_right k f.bits)))

end Addr

/-! ## Ranges within ranges -/

namespace Range

variable {r s : Range f}

/-- The range is contained in the other one. -/
def Within (r s : Range f) : Prop := ∀ a ∈ r, a ∈ s

theorem within_iff (ordered : r.first ≤ r.last) :
    r.Within s ↔ s.first ≤ r.first ∧ r.last ≤ s.last := by
  constructor
  · intro within
    exact ⟨(mem_iff.mp (within _ (mem_iff.mpr ⟨Nat.le_refl _, ordered⟩))).1,
      (mem_iff.mp (within _ (mem_iff.mpr ⟨ordered, Nat.le_refl _⟩))).2⟩
  · rintro ⟨low, high⟩ a inside
    obtain ⟨above, below⟩ := mem_iff.mp inside
    exact mem_iff.mpr ⟨Nat.le_trans low above, Nat.le_trans below high⟩

end Range

namespace Block

variable {b c : Block f}

/-! ## Blocks as intervals -/

/-- Whether the address is the base once its host bits are masked out. -/
def containsByMask? (b : Block f) (a : Addr f) : Option Bool :=
  (Addr.lowMaskByShift? f (Addr.hostBits f b.prefixLen)).map fun mask => a &&& ~~~mask == b.base

/-- The base with its host bits masked in. -/
def lastByMask? (b : Block f) : Option (Addr f) :=
  (Addr.lowMaskByShift? f (Addr.hostBits f b.prefixLen)).map fun mask => b.base ||| mask

theorem containsByMask?_eq (b : Block f) (a : Addr f) :
    b.containsByMask? a = some (b.contains a) := by
  rw [containsByMask?, Addr.lowMaskByShift?_eq, contains, Addr.network_eq_and]
  rfl

theorem lastByMask?_eq (b : Block f) : b.lastByMask? = some b.last := by
  rw [lastByMask?, Addr.lowMaskByShift?_eq, last, Addr.broadcast_eq_or]
  rfl

/-- The block holds the addresses from its base to its last, on words as on numbers. -/
structure IsInterval (b : Block f) : Prop where
  /-- The last address may be asked for unchecked, and is the base with its host bits set. -/
  lastOrMisuse : b.lastOrMisuse = .ok b.last
  lastByMask : b.lastByMask? = some b.last
  containsByMask : ∀ a, b.containsByMask? a = some (b.contains a)
  contains_iff : ∀ a, b.contains a = true ↔ b.base ≤ a ∧ a ≤ b.last

theorem Valid.isInterval (valid : b.Valid) : b.IsInterval where
  lastOrMisuse := if_neg (Nat.not_lt.mpr valid.fits)
  lastByMask := b.lastByMask?_eq
  containsByMask := b.containsByMask?_eq
  contains_iff _ := valid.mem_iff

/-! ## Two blocks -/

theorem within_iff (validB : b.Valid) (validC : c.Valid) :
    b.range.Within c.range ↔ ∀ a ∈ b, a ∈ c :=
  forall_congr' fun _ => imp_congr validB.mem_range_iff validC.mem_range_iff

theorem within_of_prefixLen_le (validB : b.Valid) (validC : c.Valid) {a : Addr f} (inB : a ∈ b)
    (inC : a ∈ c) (shorter : c.prefixLen ≤ b.prefixLen) : b.range.Within c.range :=
  (within_iff validB validC).mpr fun _ member => mem_of_prefixLen_le shorter inB inC member

theorem size_lt_of_prefixLen_lt (fits : c.prefixLen ≤ f.bits) (shorter : b.prefixLen < c.prefixLen) :
    c.size < b.size := by
  have pos := c.size_pos
  have more : Addr.hostBits f c.prefixLen + 1 ≤ Addr.hostBits f b.prefixLen := by
    rw [Addr.hostBits, Addr.hostBits]
    omega
  have double : c.size * 2 ≤ b.size := powTwo_succ _ ▸ powTwo_le more
  omega

/-- A block is within none that has fewer addresses. -/
theorem prefixLen_le_of_within (validB : b.Valid) (validC : c.Valid)
    (within : b.range.Within c.range) : c.prefixLen ≤ b.prefixLen := by
  refine Nat.le_of_not_lt fun longer => ?_
  -- The ends of `b` lie between those of `c`, which are closer to each other.
  have fewer := size_lt_of_prefixLen_lt validC.fits longer
  obtain ⟨low, high⟩ := (Range.within_iff validB.base_le_last).mp within
  have lastB := validB.toNat_last
  have lastC := validC.toNat_last
  rw [Addr.le_def] at low high
  simp only [range] at low high
  omega

/-- Two blocks of one size that share an address have the same base. -/
theorem eq_of_mem_of_prefixLen_eq {a : Addr f} (inB : a ∈ b) (inC : a ∈ c)
    (same : c.prefixLen = b.prefixLen) : b = c := by
  have baseB : a.network b.prefixLen = b.base := beq_iff_eq.mp inB
  have baseC : a.network c.prefixLen = c.base := beq_iff_eq.mp inC
  rw [same] at baseC
  exact Block.ext (baseB.symm.trans baseC) same.symm

theorem eq_of_within (validB : b.Valid) (validC : c.Valid) (within : b.range.Within c.range)
    (same : c.prefixLen = b.prefixLen) : b = c :=
  eq_of_mem_of_prefixLen_eq validB.base_mem
    ((within_iff validB validC).mp within _ validB.base_mem) same

/-- The blocks share no address. -/
def Apart (b c : Block f) : Prop := ∀ a, ¬ (b.contains a = true ∧ c.contains a = true)

theorem not_apart_of_within (validB : b.Valid) (validC : c.Valid)
    (within : b.range.Within c.range) : ¬ b.Apart c := fun apart =>
  apart b.base ⟨validB.base_mem, (within_iff validB validC).mp within _ validB.base_mem⟩

theorem Apart.symm (apart : b.Apart c) : c.Apart b := fun a both => apart a both.symm

theorem apart_or_within (validB : b.Valid) (validC : c.Valid) :
    b.Apart c ∨ b.range.Within c.range ∨ c.range.Within b.range := by
  by_cases shared : ∃ a, a ∈ b ∧ a ∈ c
  · obtain ⟨a, inB, inC⟩ := shared
    rcases nested inB inC with inner | outer
    · exact Or.inr (Or.inl ((within_iff validB validC).mpr inner))
    · exact Or.inr (Or.inr ((within_iff validC validB).mpr outer))
  · exact Or.inl fun a both => shared ⟨a, both⟩

/-- The blocks share no address or the range of one is within that of the other, never both; the
outer one then has the shorter prefix, or they are one block. -/
structure Laminar (b c : Block f) : Prop where
  apart_or_within : b.Apart c ∨ b.range.Within c.range ∨ c.range.Within b.range
  apart_excludes : b.Apart c → ¬ b.range.Within c.range ∧ ¬ c.range.Within b.range
  within : b.range.Within c.range →
    c.prefixLen ≤ b.prefixLen ∧ (c.prefixLen = b.prefixLen → b = c)
  around : c.range.Within b.range →
    b.prefixLen ≤ c.prefixLen ∧ (b.prefixLen = c.prefixLen → b = c)

/-- **Blocks are intervals, and laminar**: an accepted block holds the addresses from its base to its
last, and two of them share no address or one is within the other, which has the shorter prefix
unless they are one block. -/
theorem intervals_laminar {x y : Addr f} {p q : Nat} (acceptedB : Block.of? x p = .ok b)
    (acceptedC : Block.of? y q = .ok c) : b.IsInterval ∧ c.IsInterval ∧ b.Laminar c := by
  have validB := (of?_eq_ok_iff.mp acceptedB).2
  have validC := (of?_eq_ok_iff.mp acceptedC).2
  refine ⟨validB.isInterval, validC.isInterval, apart_or_within validB validC, fun apart => ?_,
    fun within => ?_, fun around => ?_⟩
  · exact ⟨fun within => not_apart_of_within validB validC within apart,
      fun around => not_apart_of_within validC validB around apart.symm⟩
  · exact ⟨prefixLen_le_of_within validB validC within, eq_of_within validB validC within⟩
  · exact ⟨prefixLen_le_of_within validC validB around, fun same =>
      (eq_of_within validC validB around same).symm⟩

/-- `2001:db8::/32`. -/
def site : Block .v6 := ⟨⟨0x20010db8000000000000000000000000, by decide⟩, 32⟩

/-- `2001:db8:ffff:ffff::/64`, which ends where `site` does. -/
def lastSubnet : Block .v6 := ⟨⟨0x20010db8ffffffff0000000000000000, by decide⟩, 64⟩

theorem intervals_laminar_lastSubnet :
    (of? lastSubnet.base 64 = .ok lastSubnet ∧ of? site.base 32 = .ok site) ∧
      (lastSubnet.IsInterval ∧ site.IsInterval ∧ lastSubnet.Laminar site) ∧
        lastSubnet.range.Within site.range := by
  have inner : of? lastSubnet.base 64 = .ok lastSubnet :=
    of?_eq_ok_iff.mpr ⟨rfl, by decide, by decide +kernel⟩
  have outer : of? site.base 32 = .ok site := of?_eq_ok_iff.mpr ⟨rfl, by decide, by decide +kernel⟩
  have within : lastSubnet.range.Within site.range :=
    (Range.within_iff (by decide +kernel)).mpr (by decide +kernel)
  exact ⟨⟨inner, outer⟩, intervals_laminar inner outer, within⟩

end Block

end NetRegistry
