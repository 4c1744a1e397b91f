/-
# Proofs.Cover.Tiling -- greedy tiling gives the canonical cover of a range

A step of a tiling takes the largest aligned block at the next address that fits
into what is left (`Tiling.greedy`).  The invariant that makes every block taken
maximal in the whole range is `Tiling.Fresh`: a valid block within the range
that holds the next address starts there.  It holds at the first address, and a
step keeps it, because a block that straddled the boundary would, by nesting,
hold the block just taken and so have been a larger choice at the same place.
-/
import NetRegistry.Cover.Decompose
import NetRegistry.Proofs.Cover.Canonical

namespace NetRegistry

set_option autoImplicit false

variable {f : Family}

/-! ## Alignment -/

theorem powTwo_succ_dvd_iff {k n : Nat} : powTwo (k + 1) ∣ n ↔ n % 2 = 0 ∧ powTwo k ∣ n / 2 := by
  rw [powTwo_succ]
  constructor
  · rintro ⟨c, rfl⟩
    have half : powTwo k * 2 * c = 2 * (powTwo k * c) := by
      rw [Nat.mul_assoc, Nat.mul_left_comm]
    rw [half, Nat.mul_mod_right, Nat.mul_div_cancel_left _ (by decide)]
    exact ⟨rfl, Nat.dvd_mul_right _ _⟩
  · rintro ⟨even, c, half⟩
    refine ⟨c, ?_⟩
    rw [Nat.mul_right_comm, ← half]
    omega

theorem Addr.le_trailingZerosUpTo_iff {w k n : Nat} (h : k ≤ w) :
    k ≤ Addr.trailingZerosUpTo w n ↔ powTwo k ∣ n := by
  induction w generalizing k n with
  | zero =>
    obtain rfl := Nat.le_zero.mp h
    simp [powTwo_zero]
  | succ w ih =>
    cases k with
    | zero => simp [powTwo_zero]
    | succ k =>
      rw [powTwo_succ_dvd_iff, Addr.trailingZerosUpTo]
      by_cases even : n % 2 = 0
      · rw [if_pos even, Nat.add_le_add_iff_right, ih (Nat.le_of_succ_le_succ h)]
        exact ⟨fun half => ⟨even, half⟩, And.right⟩
      · rw [if_neg even]
        exact ⟨fun impossible => absurd impossible (Nat.not_succ_le_zero k),
          fun both => absurd both.1 even⟩

theorem Addr.trailingZerosUpTo_le (w n : Nat) : Addr.trailingZerosUpTo w n ≤ w := by
  induction w generalizing n with
  | zero => exact Nat.le_refl _
  | succ w ih =>
    rw [Addr.trailingZerosUpTo]
    split
    · exact Nat.succ_le_succ (ih _)
    · exact Nat.zero_le _

namespace Tiling

variable {t u : Tiling f}

/-! ## One step -/

theorem le_exponent_iff {k : Nat} (ordered : t.next ≤ t.last) (fits : k ≤ f.bits) :
    k ≤ t.exponent ↔ powTwo k ∣ t.next.toNat ∧ t.next.toNat + powTwo k ≤ t.last.toNat + 1 := by
  have length := Range.length_eq (r := ⟨t.next, t.last⟩) ordered
  simp only at length
  rw [Addr.le_def] at ordered
  have log : k ≤ (Range.length ⟨t.next, t.last⟩).log2 ↔
      powTwo k ≤ (Range.length ⟨t.next, t.last⟩) :=
    Nat.le_log2 (by rw [length]; exact Nat.succ_ne_zero _)
  rw [exponent, Nat.le_min, Addr.trailingZeros, Addr.le_trailingZerosUpTo_iff fits, log, length]
  constructor
  · rintro ⟨aligned, short⟩
    exact ⟨aligned, by omega⟩
  · rintro ⟨aligned, short⟩
    exact ⟨aligned, by omega⟩

theorem exponent_le_bits (t : Tiling f) : t.exponent ≤ f.bits :=
  Nat.le_trans (Nat.min_le_left _ _) (Addr.trailingZerosUpTo_le _ _)

theorem block_size (t : Tiling f) : t.block.size = powTwo t.exponent :=
  Block.size_of_hostBits t.next t.exponent_le_bits

theorem block_valid (ordered : t.next ≤ t.last) : t.block.Valid := by
  refine Block.valid_iff.mpr ⟨Nat.sub_le _ _, ?_⟩
  rw [block_size]
  exact ((le_exponent_iff ordered t.exponent_le_bits).mp (Nat.le_refl _)).1

theorem block_last_le (ordered : t.next ≤ t.last) : t.block.last ≤ t.last := by
  have fits := ((le_exponent_iff ordered t.exponent_le_bits).mp (Nat.le_refl _)).2
  have last := (block_valid ordered).toNat_last
  rw [block_size] at last
  have base : t.block.base = t.next := rfl
  rw [Addr.le_def]
  rw [base] at last
  omega

/-- The step takes the largest valid block at the next address that ends within the range. -/
theorem greedy (ordered : t.next ≤ t.last) {c : Block f} (valid : c.Valid) (base : c.base = t.next)
    (ends : c.last ≤ t.last) : ∀ x ∈ c, x ∈ t.block := by
  have pos := c.size_pos
  have last := valid.toNat_last
  have aligned := valid.size_dvd
  rw [base] at last aligned
  rw [Addr.le_def] at ends
  have smaller : Addr.hostBits f c.prefixLen ≤ t.exponent :=
    (le_exponent_iff ordered c.hostBits_le).mpr ⟨aligned, by
      show t.next.toNat + c.size ≤ _
      omega⟩
  have shorter : t.block.prefixLen ≤ c.prefixLen := by
    have fits := valid.fits
    show f.bits - t.exponent ≤ c.prefixLen
    rw [Addr.hostBits] at smaller
    omega
  have meets : t.block.base ∈ c := by
    show t.next ∈ c
    rw [← base]
    exact valid.base_mem
  intro x member
  exact Block.mem_of_prefixLen_le shorter meets (block_valid ordered).base_mem member

theorem last_of_rest?_none (ordered : t.next ≤ t.last) (done : t.rest? = none) :
    t.block.last = t.last := by
  have le := block_last_le ordered
  by_cases before : t.block.last < t.last
  · rw [rest?, if_pos before, Option.map_eq_none_iff, Addr.next?, Addr.ofNat?] at done
    have room := t.last.isLt
    rw [Addr.lt_def] at before
    rw [dif_pos (by omega)] at done
    cases done
  · rw [Addr.lt_def] at before
    rw [Addr.le_def] at le
    exact Addr.ext (by omega)

/-- What is left starts one past the block taken. -/
theorem next_of_rest? (more : t.rest? = some u) :
    u.next.toNat = t.block.last.toNat + 1 ∧ u.next ≤ u.last ∧ u.last = t.last := by
  obtain ⟨-, ordered, same⟩ := lt_of_rest? more
  refine ⟨?_, ordered, same⟩
  unfold rest? at more
  split at more
  · obtain ⟨a, next, rfl⟩ := Option.map_eq_some_iff.mp more
    rw [Addr.next?, Addr.ofNat?] at next
    split at next
    · cases next; rfl
    · cases next
  · cases more

/-! ## Maximality -/

/-- A valid block within the range from `start` that holds the next address starts there. -/
def Fresh (start : Addr f) (t : Tiling f) : Prop :=
  ∀ c : Block f, c.Valid → start ≤ c.base → c.last ≤ t.last → t.next ∈ c → c.base = t.next

theorem fresh_start (first last : Addr f) : Fresh first ⟨first, last⟩ := by
  intro c valid start _ member
  exact Addr.ext (Nat.le_antisymm (valid.mem_iff.mp member).1 start)

/-- A valid block within the range that meets the block taken lies in it. -/
theorem absorbs {start : Addr f} (ordered : t.next ≤ t.last) (fresh : Fresh start t)
    {c : Block f} (valid : c.Valid) (starts : start ≤ c.base) (ends : c.last ≤ t.last)
    {a : Addr f} (inBlock : a ∈ t.block) (inC : a ∈ c) : ∀ x ∈ c, x ∈ t.block := by
  rcases Block.nested inC inBlock with within | around
  · exact within
  · have member : t.next ∈ c := around t.next (block_valid ordered).base_mem
    exact greedy ordered valid (fresh c valid starts ends member) ends

theorem fresh_rest {start : Addr f} (ordered : t.next ≤ t.last) (fresh : Fresh start t)
    (more : t.rest? = some u) : Fresh start u := by
  obtain ⟨next, -, last⟩ := next_of_rest? more
  intro c valid starts ends member
  rw [last] at ends
  have span := valid.mem_iff.mp member
  simp only [Addr.le_def] at span
  by_cases base : c.base.toNat = u.next.toNat
  · exact Addr.ext base
  · -- a block that starts earlier holds the last address taken, hence lies in the block taken
    have straddles : t.block.last ∈ c := by
      rw [valid.mem_iff, Addr.le_def, Addr.le_def]
      omega
    have inBlock := absorbs ordered fresh valid starts ends (block_valid ordered).last_mem
      straddles u.next member
    have high := ((block_valid ordered).mem_iff.mp inBlock).2
    rw [Addr.le_def] at high
    omega

/-! ## All steps -/

theorem blocks_of_none (done : t.rest? = none) : t.blocks = [t.block] := by
  rw [blocks]
  split
  · rfl
  · rename_i more
    rw [done] at more
    cases more

theorem blocks_of_some (more : t.rest? = some u) : t.blocks = t.block :: u.blocks := by
  rw [blocks]
  split
  · rename_i done
    rw [more] at done
    cases done
  · rename_i v more'
    rw [more] at more'
    cases more'
    rfl

/-- The blocks taken tile what is left. -/
theorem blocks_disjointCover (ordered : t.next ≤ t.last) :
    DisjointCover (fun a => t.next ≤ a ∧ a ≤ t.last) t.blocks := by
  induction t using blocks.induct with
  | case1 t done =>
    rw [blocks_of_none done]
    have valid := block_valid ordered
    refine ⟨by simpa using valid, List.pairwise_singleton _ _, fun a => ?_⟩
    simp only [List.mem_singleton, exists_eq_left]
    rw [valid.mem_iff, last_of_rest?_none ordered done]
    rfl
  | case2 t u more ih =>
    rw [blocks_of_some more]
    obtain ⟨next, orderedU, last⟩ := next_of_rest? more
    have valid := block_valid ordered
    have later := ih orderedU
    refine ⟨?_, ?_, fun a => ?_⟩
    · intro b member
      rcases List.mem_cons.mp member with rfl | member
      · exact valid
      · exact later.valid b member
    · refine List.pairwise_cons.mpr ⟨fun b member => ?_, later.ascending⟩
      have low := ((later.exact b.base).mp ⟨b, member, (later.valid b member).base_mem⟩).1
      rw [Addr.le_def] at low
      rw [Addr.lt_def]
      omega
    · simp only [List.mem_cons, exists_eq_or_imp]
      rw [later.exact a, valid.mem_iff, last]
      have low := valid.base_le_last
      have high := block_last_le ordered
      have base : t.block.base = t.next := rfl
      simp only [Addr.le_def, base] at *
      omega

/-- Every block taken is maximal in the range. -/
theorem blocks_maximal {start : Addr f} (ordered : t.next ≤ t.last) (starts : start ≤ t.next)
    (fresh : Fresh start t) :
    ∀ b ∈ t.blocks, b.MaximalIn fun a => a ∈ (⟨start, t.last⟩ : Range f) := by
  have taken : ∀ t : Tiling f, t.next ≤ t.last → start ≤ t.next → Fresh start t →
      t.block.MaximalIn fun a => a ∈ (⟨start, t.last⟩ : Range f) := by
    intro t ordered starts fresh
    refine ⟨fun a inBlock => ?_, fun c valid within a inBlock inC => ?_⟩
    · have span := (block_valid ordered).mem_iff.mp inBlock
      exact Range.mem_iff.mpr
        ⟨Nat.le_trans starts span.1, Nat.le_trans span.2 (block_last_le ordered)⟩
    · exact absorbs ordered fresh valid (Range.mem_iff.mp (within _ valid.base_mem)).1
        (Range.mem_iff.mp (within _ valid.last_mem)).2 inBlock inC
  induction t using blocks.induct with
  | case1 t done =>
    rw [blocks_of_none done]
    simpa using taken t ordered starts fresh
  | case2 t u more ih =>
    rw [blocks_of_some more]
    obtain ⟨next, orderedU, last⟩ := next_of_rest? more
    have up : start ≤ u.next := by
      have low := (block_valid ordered).base_le_last
      have base : t.block.base = t.next := rfl
      simp only [Addr.le_def, base] at *
      omega
    intro b member
    rcases List.mem_cons.mp member with rfl | member
    · exact taken t ordered starts fresh
    · rw [← last]
      exact ih orderedU up (fresh_rest ordered fresh more) b member

end Tiling

/-- **The blocks of a range are its canonical cover.** -/
theorem Range.blocks_canonicalCover {r : Range f} (ordered : r.first ≤ r.last) :
    CanonicalCover (fun a => a ∈ r) r.blocks := by
  have upright : ¬ r.last < r.first := Nat.not_lt.mpr ordered
  rw [Range.blocks, if_neg upright]
  have tiled := Tiling.blocks_disjointCover (t := ⟨r.first, r.last⟩) ordered
  exact ⟨tiled.congr fun a => Range.mem_iff.symm,
    Tiling.blocks_maximal ordered (Nat.le_refl _) (Tiling.fresh_start _ _)⟩

end NetRegistry
