/-
# Proofs.Cover.Block -- ranges and blocks as sets of addresses

A range holds the addresses from its first to its last, a block those whose
network is its base.  For a `Block.Valid` block the two readings agree
(`Block.mem_iff`), and any two blocks that share an address are nested
(`Block.nested`): the shorter prefix holds the longer one.  The ranges that have a
prefix length are those of the valid blocks (`Range.prefixLen?_eq_ok_iff`).
-/
import NetRegistry.Address.Range

namespace NetRegistry

set_option autoImplicit false

variable {f : Family}

instance : Membership (Addr f) (Range f) := ⟨fun r a => r.contains a = true⟩
instance : Membership (Addr f) (Block f) := ⟨fun b a => b.contains a = true⟩

theorem Addr.ext_iff_toNat {a b : Addr f} : a = b ↔ a.toNat = b.toNat :=
  ⟨fun h => h ▸ rfl, Addr.ext⟩

theorem Range.mem_iff {r : Range f} {a : Addr f} : a ∈ r ↔ r.first ≤ a ∧ a ≤ r.last := by
  show r.contains a = true ↔ _
  simp [Range.contains]

namespace Block

/-- Number of addresses that agree with the base above the host bits. -/
def size (b : Block f) : Nat := powTwo (Addr.hostBits f b.prefixLen)

/-- A block as networks are written: the prefix fits the width and no host bit is set. -/
structure Valid (b : Block f) : Prop where
  fits : b.prefixLen ≤ f.bits
  aligned : b.base.network b.prefixLen = b.base

theorem size_pos (b : Block f) : 0 < b.size := powTwo_pos _

theorem size_of_hostBits (base : Addr f) {k : Nat} (fits : k ≤ f.bits) :
    size ⟨base, f.bits - k⟩ = powTwo k := by
  show powTwo (f.bits - (f.bits - k)) = _
  rw [Nat.sub_sub_self fits]

theorem mem_iff_div {b : Block f} {a : Addr f} :
    a ∈ b ↔ a.toNat / b.size * b.size = b.base.toNat := by
  show (a.network b.prefixLen == b.base) = true ↔ _
  rw [beq_iff_eq, Addr.ext_iff_toNat]
  rfl

/-- The checked constructor accepts exactly the valid blocks. -/
theorem of?_eq_ok_iff {base : Addr f} {p : Nat} {b : Block f} :
    Block.of? base p = .ok b ↔ b = ⟨base, p⟩ ∧ b.Valid := by
  unfold Block.of? Block.last?
  by_cases long : f.bits < p
  · rw [if_pos long]
    constructor
    · intro h; cases h
    · rintro ⟨rfl, valid⟩
      exact absurd valid.fits (Nat.not_le.mpr long)
  · rw [if_neg long]
    show (if base.network p = base then Except.ok (⟨base, p⟩ : Block f)
      else .error (RangeError.unaligned ⟨base, base.broadcast p⟩)) = .ok b ↔ _
    by_cases aligned : base.network p = base
    · rw [if_pos aligned]
      constructor
      · intro h
        cases h
        exact ⟨rfl, Nat.not_lt.mp long, aligned⟩
      · rintro ⟨rfl, -⟩
        rfl
    · rw [if_neg aligned]
      constructor
      · intro h; cases h
      · rintro ⟨rfl, valid⟩
        exact absurd valid.aligned aligned

theorem valid_iff {b : Block f} :
    b.Valid ↔ b.prefixLen ≤ f.bits ∧ b.size ∣ b.base.toNat := by
  have aligned : b.base.network b.prefixLen = b.base ↔ b.size ∣ b.base.toNat := by
    rw [Addr.ext_iff_toNat]
    show b.base.toNat / b.size * b.size = b.base.toNat ↔ _
    exact ⟨fun h => ⟨_, by rw [Nat.mul_comm]; exact h.symm⟩, Nat.div_mul_cancel⟩
  exact ⟨fun v => ⟨v.fits, aligned.mp v.aligned⟩, fun h => ⟨h.1, aligned.mpr h.2⟩⟩

namespace Valid

variable {b : Block f}

theorem size_dvd (valid : b.Valid) : b.size ∣ b.base.toNat := (valid_iff.mp valid).2

theorem toNat_last (valid : b.Valid) : b.last.toNat + 1 = b.base.toNat + b.size := by
  have pos := b.size_pos
  have whole : b.base.toNat / b.size * b.size = b.base.toNat := Nat.div_mul_cancel valid.size_dvd
  show b.base.toNat / b.size * b.size + (b.size - 1) + 1 = _
  omega

theorem base_le_last (valid : b.Valid) : b.base ≤ b.last := by
  have pos := b.size_pos
  have last := valid.toNat_last
  rw [Addr.le_def]
  omega

/-- The addresses of a valid block are those from its base to its last address. -/
theorem mem_iff (valid : b.Valid) {a : Addr f} : a ∈ b ↔ b.base ≤ a ∧ a ≤ b.last := by
  have pos := b.size_pos
  have last := valid.toNat_last
  obtain ⟨q, whole⟩ := valid.size_dvd
  rw [mem_iff_div, Addr.le_def, Addr.le_def]
  constructor
  · intro network
    have split := Nat.div_add_mod a.toNat b.size
    have small := Nat.mod_lt a.toNat pos
    rw [Nat.mul_comm] at split
    omega
  · rintro ⟨low, high⟩
    have quotient : a.toNat / b.size = q := by
      rw [Nat.div_eq_iff pos]
      rw [Nat.mul_comm] at whole
      omega
    rw [quotient, whole, Nat.mul_comm]

theorem mem_range_iff (valid : b.Valid) {a : Addr f} : a ∈ b.range ↔ a ∈ b :=
  Range.mem_iff.trans valid.mem_iff.symm

theorem base_mem (valid : b.Valid) : b.base ∈ b :=
  valid.mem_iff.mpr ⟨Nat.le_refl _, valid.base_le_last⟩

theorem last_mem (valid : b.Valid) : b.last ∈ b :=
  valid.mem_iff.mpr ⟨valid.base_le_last, Nat.le_refl _⟩

end Valid

/-- Of two blocks that share an address, the one with the shorter prefix holds the other. -/
theorem mem_of_prefixLen_le {b c : Block f} {a x : Addr f} (shorter : c.prefixLen ≤ b.prefixLen)
    (inB : a ∈ b) (inC : a ∈ c) (member : x ∈ b) : x ∈ c := by
  rw [mem_iff_div] at *
  obtain ⟨k, grown⟩ : ∃ k, c.size = b.size * k := by
    refine ⟨powTwo (Addr.hostBits f c.prefixLen - Addr.hostBits f b.prefixLen), ?_⟩
    have more : Addr.hostBits f b.prefixLen ≤ Addr.hostBits f c.prefixLen :=
      Nat.sub_le_sub_left shorter _
    rw [size, size, ← powTwo_add, Nat.add_sub_cancel' more]
  have same : x.toNat / b.size = a.toNat / b.size :=
    Nat.eq_of_mul_eq_mul_right b.size_pos (member.trans inB.symm)
  rw [grown, ← Nat.div_div_eq_div_mul] at inC ⊢
  rw [same]
  exact inC

/-- Two blocks that share an address are nested. -/
theorem nested {b c : Block f} {a : Addr f} (inB : a ∈ b) (inC : a ∈ c) :
    (∀ x ∈ b, x ∈ c) ∨ (∀ x ∈ c, x ∈ b) := by
  rcases Nat.le_total c.prefixLen b.prefixLen with shorter | shorter
  · exact Or.inl fun x member => mem_of_prefixLen_le shorter inB inC member
  · exact Or.inr fun x member => mem_of_prefixLen_le shorter inC inB member

end Block

/-! ## Ranges that are one block -/

theorem Range.length_eq {r : Range f} (ordered : r.first ≤ r.last) :
    r.length = r.last.toNat - r.first.toNat + 1 := by
  rw [Range.length, Range.span, Addr.toNat_distance ordered]

theorem Range.log2_length_le {r : Range f} (ordered : r.first ≤ r.last) :
    r.length.log2 ≤ f.bits := by
  have length := Range.length_eq ordered
  have top := r.last.isLt
  have small : r.length < powTwo (f.bits + 1) := by
    rw [powTwo_succ]
    omega
  exact Nat.le_of_lt_succ ((Nat.log2_lt (by omega)).mpr small)

theorem Range.isBlock_iff {r : Range f} :
    r.isBlock = true ↔
      r.first ≤ r.last ∧ powTwo r.length.log2 = r.length ∧ r.length ∣ r.first.toNat := by
  rw [Range.isBlock, Bool.and_eq_true, Bool.and_eq_true, decide_eq_true_eq, beq_iff_eq, beq_iff_eq,
    and_assoc, Nat.dvd_iff_mod_eq_zero]

namespace Block

variable {b : Block f}

theorem hostBits_le (b : Block f) : Addr.hostBits f b.prefixLen ≤ f.bits := Nat.sub_le _ _

theorem Valid.length_range (valid : b.Valid) : b.range.length = b.size := by
  have last := valid.toNat_last
  have pos := b.size_pos
  rw [Range.length_eq valid.base_le_last]
  simp only [range]
  omega

theorem Valid.log2_length_range (valid : b.Valid) :
    b.range.length.log2 = f.bits - b.prefixLen := by
  rw [valid.length_range]
  exact Nat.log2_two_pow

theorem Valid.isBlock_range (valid : b.Valid) : b.range.isBlock = true := by
  refine Range.isBlock_iff.mpr ⟨valid.base_le_last, ?_, ?_⟩
  · rw [valid.log2_length_range, valid.length_range]
    rfl
  · rw [valid.length_range]
    exact valid.size_dvd

theorem Valid.prefixLen?_range (valid : b.Valid) : b.range.prefixLen? = .ok b.prefixLen := by
  have fits := valid.fits
  have upright : ¬ b.range.last < b.range.first := Nat.not_lt.mpr valid.base_le_last
  rw [Range.prefixLen?, if_neg upright, if_pos valid.isBlock_range, Range.blockPrefix,
    valid.log2_length_range]
  congr 1
  omega

end Block

/-- As many addresses as a power of two, the first of them aligned to it, are the range of a valid
block. -/
theorem Range.valid_of_aligned {r : Range f} {k : Nat} (fits : k ≤ f.bits)
    (aligned : powTwo k ∣ r.first.toNat) (count : r.last.toNat + 1 = r.first.toNat + powTwo k) :
    Block.Valid ⟨r.first, f.bits - k⟩ ∧ Block.range ⟨r.first, f.bits - k⟩ = r := by
  have size := Block.size_of_hostBits r.first fits
  have valid : Block.Valid ⟨r.first, f.bits - k⟩ :=
    Block.valid_iff.mpr ⟨Nat.sub_le _ _, by rw [size]; exact aligned⟩
  have last := valid.toNat_last
  rw [size, ← count] at last
  exact ⟨valid, Range.ext rfl (Addr.ext (Nat.succ.inj last))⟩

/-- A range that is a block is the range of a valid one. -/
theorem Range.exists_block {r : Range f} (isBlock : r.isBlock = true) :
    ∃ b : Block f, b.Valid ∧ b.range = r ∧ b.prefixLen = r.blockPrefix := by
  obtain ⟨ordered, power, aligned⟩ := Range.isBlock_iff.mp isBlock
  have length := Range.length_eq ordered
  have count : r.last.toNat + 1 = r.first.toNat + powTwo r.length.log2 := by
    rw [Addr.le_def] at ordered
    omega
  obtain ⟨valid, range⟩ :=
    Range.valid_of_aligned (Range.log2_length_le ordered) (by rwa [power]) count
  exact ⟨_, valid, range, rfl⟩

theorem Range.prefixLen?_eq_ok_iff {r : Range f} {p : Nat} :
    r.prefixLen? = .ok p ↔ ∃ b : Block f, b.Valid ∧ b.range = r ∧ b.prefixLen = p := by
  constructor
  · intro ok
    unfold Range.prefixLen? at ok
    split at ok
    · cases ok
    · split at ok
      · rename_i isBlock
        cases ok
        exact Range.exists_block isBlock
      · cases ok
  · rintro ⟨b, valid, rfl, rfl⟩
    exact valid.prefixLen?_range

end NetRegistry
