/-
# Proofs.Address.Prefix -- ranges and prefixes are the same blocks

A range has a prefix (`Range.HasPrefix`) when clearing the host bits of its first
address changes nothing and setting them gives its last.  That is what its prefix
length is asked for:

* `Range.prefixLen?_eq_ok_iff_hasPrefix`: the prefix length is the one prefix that the
  range has, and `Range.HasPrefix.unique` that there is no other.
* `Range.prefixLen?_eq_unaligned_iff`, `Range.prefixLen?_eq_inverted_iff`: the two
  reasons that there is none.
* `Range.toBlock?_eq_ok_iff`: the block of a range is the accepted block that has the
  range.

**Main theorem** `Range.prefix_conversions`.
-/
import NetRegistry.Proofs.Address.Word

namespace NetRegistry

set_option autoImplicit false

namespace Range

variable {f : Family} {r : Range f} {p q : Nat}

/-- The range is the block of its first address with the prefix. -/
structure HasPrefix (r : Range f) (p : Nat) : Prop where
  fits : p ≤ f.bits
  aligned : r.first.network p = r.first
  ends : Block.lastOrMisuse ⟨r.first, p⟩ = .ok r.last

theorem hasPrefix_iff_exists :
    r.HasPrefix p ↔ ∃ b : Block f, b.Valid ∧ b.range = r ∧ b.prefixLen = p := by
  constructor
  · rintro ⟨fits, aligned, ends⟩
    rw [Block.lastOrMisuse, if_neg (Nat.not_lt.mpr fits)] at ends
    exact ⟨⟨r.first, p⟩, ⟨fits, aligned⟩, Range.ext rfl (Except.ok.inj ends), rfl⟩
  · rintro ⟨b, valid, rfl, rfl⟩
    exact ⟨valid.fits, valid.aligned, if_neg (Nat.not_lt.mpr valid.fits)⟩

/-- The prefix length of a range is the prefix that it has. -/
theorem prefixLen?_eq_ok_iff_hasPrefix : r.prefixLen? = .ok p ↔ r.HasPrefix p :=
  prefixLen?_eq_ok_iff.trans hasPrefix_iff_exists.symm

theorem HasPrefix.unique (hasP : r.HasPrefix p) (hasQ : r.HasPrefix q) : p = q := by
  have ok := prefixLen?_eq_ok_iff_hasPrefix.mpr hasP
  rw [prefixLen?_eq_ok_iff_hasPrefix.mpr hasQ] at ok
  exact (Except.ok.inj ok).symm

theorem isBlock_iff_hasPrefix : r.isBlock = true ↔ ∃ p, r.HasPrefix p := by
  rw [isBlock_iff_exists]
  constructor
  · rintro ⟨b, valid, range⟩
    exact ⟨b.prefixLen, hasPrefix_iff_exists.mpr ⟨b, valid, range, rfl⟩⟩
  · rintro ⟨p, hasP⟩
    obtain ⟨b, valid, range, -⟩ := hasPrefix_iff_exists.mp hasP
    exact ⟨b, valid, range⟩

theorem prefixLen?_eq_inverted_iff : r.prefixLen? = .error (.inverted r) ↔ r.last < r.first := by
  unfold prefixLen?
  by_cases inverted : r.last < r.first
  · simp [inverted]
  · by_cases isBlock : r.isBlock = true
    · simp [inverted, isBlock]
    · simp [inverted, isBlock]

theorem prefixLen?_eq_unaligned_iff :
    r.prefixLen? = .error (.unaligned r) ↔ r.first ≤ r.last ∧ ¬ ∃ p, r.HasPrefix p := by
  have upright : r.first ≤ r.last ↔ ¬ r.last < r.first := Nat.not_lt.symm
  rw [← isBlock_iff_hasPrefix, upright, prefixLen?]
  by_cases inverted : r.last < r.first
  · simp [inverted]
  · by_cases isBlock : r.isBlock = true
    · simp [inverted, isBlock]
    · simp [inverted, isBlock]

/-- Whoever knows that the range is one block may ask for its prefix length unchecked. -/
theorem prefixLen_eq_ok_iff : r.prefixLen = .ok p ↔ r.prefixLen? = .ok p := by
  unfold prefixLen prefixLen?
  by_cases isBlock : r.isBlock = true
  · have upright : ¬ r.last < r.first := Nat.not_lt.mpr (isBlock_iff.mp isBlock).1
    simp [upright, isBlock]
  · by_cases inverted : r.last < r.first
    · simp [inverted, isBlock]
    · simp [inverted, isBlock]

/-- The block of a range is the accepted block that has the range. -/
theorem toBlock?_eq_ok_iff {b : Block f} :
    r.toBlock? = .ok b ↔ Block.of? b.base b.prefixLen = .ok b ∧ b.range = r := by
  have accepted : Block.of? b.base b.prefixLen = .ok b ↔ b.Valid :=
    Block.of?_eq_ok_iff.trans ⟨And.right, fun valid => ⟨rfl, valid⟩⟩
  have read : r.toBlock? = .ok b ↔ r.prefixLen? = .ok b.prefixLen ∧ r.first = b.base := by
    rw [toBlock?]
    cases r.prefixLen? with
    | error e => simp [Except.map]
    | ok p => simp [Except.map, Block.ext_iff, and_comm]
  rw [accepted, read, prefixLen?_eq_ok_iff]
  constructor
  · rintro ⟨⟨c, valid, rfl, prefixLen⟩, base⟩
    have same : c = b := Block.ext base prefixLen
    subst same
    exact ⟨valid, rfl⟩
  · rintro ⟨valid, rfl⟩
    exact ⟨⟨b, valid, rfl, rfl⟩, rfl⟩

/-- How the range converts to a prefix, to a block and back. -/
structure Conversions (r : Range f) : Prop where
  inverted : r.prefixLen? = .error (.inverted r) ↔ r.last < r.first
  ok : ∀ p, r.prefixLen? = .ok p ↔ r.HasPrefix p
  unique : ∀ p q, r.HasPrefix p → r.HasPrefix q → p = q
  unaligned : r.prefixLen? = .error (.unaligned r) ↔ r.first ≤ r.last ∧ ¬ ∃ p, r.HasPrefix p
  /-- The prefix length comes out of the bits in which the ends differ, and the operation for ranges
  that are one block is only reached with such a range. -/
  masked : r.prefixLenByMask? = .ok r.prefixLen?
  unchecked : ∀ p, r.prefixLen = .ok p ↔ r.prefixLen? = .ok p
  /-- Host bits are cleared and set by masks. -/
  hostBits : ∀ (a : Addr f) (p : Nat),
    a.network p = a &&& ~~~Addr.hostMask f p ∧ a.broadcast p = a ||| Addr.hostMask f p
  isBlock : r.isBlock = true ↔ ∃ b, r.toBlock? = .ok b
  toBlock : ∀ b, r.toBlock? = .ok b ↔ Block.of? b.base b.prefixLen = .ok b ∧ b.range = r

/-- **Ranges and prefixes convert into each other**: the prefix length of a range is the only prefix
that it has, a range without one is refused, and blocks and the ranges that are blocks are the same
in both directions. -/
theorem prefix_conversions (r : Range f) : r.Conversions where
  inverted := prefixLen?_eq_inverted_iff
  ok _ := prefixLen?_eq_ok_iff_hasPrefix
  unique _ _ := HasPrefix.unique
  unaligned := prefixLen?_eq_unaligned_iff
  masked := prefixLenByMask?_eq r
  unchecked _ := prefixLen_eq_ok_iff
  hostBits a p := ⟨a.network_eq_and p, a.broadcast_eq_or p⟩
  isBlock := by
    rw [isBlock_iff_exists]
    constructor
    · rintro ⟨b, valid, range⟩
      exact ⟨b, toBlock?_eq_ok_iff.mpr ⟨Block.of?_eq_ok_iff.mpr ⟨rfl, valid⟩, range⟩⟩
    · rintro ⟨b, read⟩
      obtain ⟨accepted, range⟩ := toBlock?_eq_ok_iff.mp read
      exact ⟨b, (Block.of?_eq_ok_iff.mp accepted).2, range⟩
  toBlock _ := toBlock?_eq_ok_iff

example : (full .v6).toBlock? = .ok ⟨.bottom .v6, 0⟩ := rfl
example : (⟨.top .v6, .top .v6⟩ : Range .v6).toBlock? = .ok ⟨.top .v6, 128⟩ := rfl

end Range

end NetRegistry
