/-
# Proofs.Cover.Shape -- the prefix lengths of a tiling

The blocks of a range first grow and then shrink.  While a tiling climbs, the
alignment of the next address governs its steps, and a step at least doubles the
alignment; once it tapers (`Tiling.Tapering`), the number of addresses left does, and
a step leaves fewer than the block that it takes.

* `Tiling.Tapering.rest`: a tiling that tapers goes on tapering, with smaller blocks.
* `Tiling.rest_of_climbing`: one that climbs takes a larger block next, or tapers from
  a block that is at least as large.
* `Tiling.lengths_valley`: so the prefix lengths make a `Valley`, in which two places of
  the same lowest height are neighbours (`Valley.between_eq_nil`).
* `Tiling.Tapering.length_le`, `Tiling.length_le_of_climbing`: each slope passes a
  prefix length at most once, and a climb leaves out the two shortest.

**Main theorem** `Range.blocks_shape`.
-/
import NetRegistry.Proofs.Cover.Steps

namespace NetRegistry

set_option autoImplicit false

variable {f : Family}

/-! ## Valleys -/

/-- Numbers that first fall and then rise. -/
def Valley (l : List Nat) : Prop :=
  ∃ down up, l = down ++ up ∧ down.Pairwise (· > ·) ∧ up.Pairwise (· < ·)

namespace Valley

variable {l : List Nat}

/-- Each slope passes a number at most once. -/
theorem count_le (valley : Valley l) (n : Nat) : l.count n ≤ 2 := by
  obtain ⟨down, up, rfl, falls, rises⟩ := valley
  have falling : down.count n ≤ 1 := List.nodup_iff_count.mp (falls.imp Nat.ne_of_gt) n
  have rising : up.count n ≤ 1 := List.nodup_iff_count.mp (rises.imp Nat.ne_of_lt) n
  rw [List.count_append]
  omega

/-- A number between two others is below one of them. -/
theorem lt_or_lt (valley : Valley l) {a m b : Nat} (within : [a, m, b].Sublist l) :
    m < a ∨ m < b := by
  obtain ⟨down, up, rfl, falls, rises⟩ := valley
  obtain ⟨first, second, split, onFall, onRise⟩ := List.sublist_append_iff.mp within
  have fallen := falls.sublist onFall
  have risen := rises.sublist onRise
  rcases first with _ | ⟨x, _ | ⟨y, first⟩⟩
  · obtain rfl : [a, m, b] = second := split
    exact Or.inr (by simp at risen; omega)
  · obtain ⟨rfl, rfl⟩ : a = x ∧ [m, b] = second := by simpa using split
    exact Or.inr (by simpa using risen)
  · obtain ⟨rfl, rfl, -⟩ : a = x ∧ m = y ∧ [b] = first ++ second := by simpa using split
    exact Or.inl ((List.pairwise_cons.mp fallen).1 m List.mem_cons_self)

/-- Two places of the same lowest height are neighbours. -/
theorem between_eq_nil (valley : Valley l) {n : Nat} {before between after : List Nat}
    (split : l = before ++ n :: (between ++ n :: after)) (lowest : ∀ m ∈ l, n ≤ m) :
    between = [] := by
  cases between with
  | nil => rfl
  | cons m rest =>
    have low : n ≤ m := lowest m (by simp [split])
    have later : [n].Sublist (rest ++ n :: after) := by simp
    have within : [n, m, n].Sublist l := by
      rw [split]
      exact ((later.cons_cons m).cons_cons n).trans (List.sublist_append_right before _)
    rcases valley.lt_or_lt within with below | below <;> omega

end Valley

/-! ## Powers of two -/

theorem powTwo_dvd_powTwo {k m : Nat} (h : k ≤ m) : powTwo k ∣ powTwo m := Nat.pow_dvd_pow 2 h

theorem powTwo_log2_le {n : Nat} (pos : 0 < n) : powTwo n.log2 ≤ n :=
  Nat.log2_self_le (Nat.ne_of_gt pos)

theorem lt_powTwo_log2_succ (n : Nat) : n < powTwo (n.log2 + 1) := Nat.lt_log2_self

/-- An odd multiple of a power of two is raised to an even one by adding the power. -/
theorem powTwo_succ_dvd_add {k n : Nat} (aligned : powTwo k ∣ n) (odd : ¬ powTwo (k + 1) ∣ n) :
    powTwo (k + 1) ∣ n + powTwo k := by
  obtain ⟨q, rfl⟩ := aligned
  rw [powTwo_succ] at odd ⊢
  have notEven : ¬ 2 ∣ q := fun even => odd (Nat.mul_dvd_mul_left _ even)
  rw [← Nat.mul_succ]
  exact Nat.mul_dvd_mul_left _ (by omega)

namespace Tiling

variable {t u : Tiling f}

/-! ## Steps up and steps down -/

/-- Number of addresses left. -/
def remaining (t : Tiling f) : Nat := Range.length ⟨t.next, t.last⟩

/-- What is left governs the next step: the largest block that fits is aligned. -/
def Tapering (t : Tiling f) : Prop := powTwo t.remaining.log2 ∣ t.next.toNat

theorem next_add_remaining (ordered : t.next ≤ t.last) :
    t.next.toNat + t.remaining = t.last.toNat + 1 := by
  rw [remaining, Range.length_eq ordered]
  rw [Addr.le_def] at ordered
  show _ + (t.last.toNat - t.next.toNat + 1) = _
  omega

theorem remaining_pos (t : Tiling f) : 0 < t.remaining := Nat.succ_pos _

theorem log2_remaining_le (ordered : t.next ≤ t.last) : t.remaining.log2 ≤ f.bits :=
  Range.log2_length_le ordered

/-- The block that a step takes is aligned and fits. -/
theorem exponent_spec (ordered : t.next ≤ t.last) :
    powTwo t.exponent ∣ t.next.toNat ∧ powTwo t.exponent ≤ t.remaining := by
  have left := next_add_remaining ordered
  obtain ⟨aligned, fits⟩ := (le_exponent_iff ordered t.exponent_le_bits).mp (Nat.le_refl _)
  exact ⟨aligned, by omega⟩

theorem le_exponent_of_dvd (ordered : t.next ≤ t.last) {k : Nat} (aligned : powTwo k ∣ t.next.toNat)
    (fits : powTwo k ≤ t.remaining) : k ≤ t.exponent := by
  have left := next_add_remaining ordered
  have short : k ≤ t.remaining.log2 := (Nat.le_log2 (Nat.ne_of_gt t.remaining_pos)).mpr fits
  exact (le_exponent_iff ordered (Nat.le_trans short (log2_remaining_le ordered))).mpr
    ⟨aligned, by omega⟩

theorem Tapering.exponent_eq (tapering : t.Tapering) (ordered : t.next ≤ t.last) :
    t.exponent = t.remaining.log2 :=
  Nat.le_antisymm (Nat.min_le_right _ _)
    (le_exponent_of_dvd ordered tapering (powTwo_log2_le t.remaining_pos))

/-- While a tiling climbs, a block twice as large would fit. -/
theorem powTwo_succ_le_of_climbing (ordered : t.next ≤ t.last) (climbing : ¬ t.Tapering) :
    powTwo (t.exponent + 1) ≤ t.remaining := by
  have short : t.exponent ≤ t.remaining.log2 := Nat.min_le_right _ _
  have apart : t.exponent ≠ t.remaining.log2 := fun same =>
    climbing (show powTwo t.remaining.log2 ∣ _ from same ▸ (exponent_spec ordered).1)
  exact Nat.le_trans (powTwo_le (by omega)) (powTwo_log2_le t.remaining_pos)

/-- What a step leaves. -/
theorem rest_spec (ordered : t.next ≤ t.last) (more : t.rest? = some u) :
    u.next ≤ u.last ∧ u.next.toNat = t.next.toNat + powTwo t.exponent ∧
      u.remaining + powTwo t.exponent = t.remaining := by
  obtain ⟨next, orderedU, last⟩ := next_of_rest? more
  have size := (block_valid ordered).toNat_last
  have base : t.block.base = t.next := rfl
  have left := next_add_remaining ordered
  have leftU := next_add_remaining orderedU
  rw [block_size, base] at size
  rw [last] at leftU
  exact ⟨orderedU, by omega, by omega⟩

/-- A tiling that tapers goes on tapering, with smaller blocks. -/
theorem Tapering.rest (tapering : t.Tapering) (ordered : t.next ≤ t.last)
    (more : t.rest? = some u) : u.Tapering ∧ u.exponent < t.exponent := by
  obtain ⟨orderedU, next, left⟩ := rest_spec ordered more
  have few := lt_powTwo_log2_succ t.remaining
  have exponent := tapering.exponent_eq ordered
  rw [← exponent, powTwo_succ] at few
  have smaller : u.remaining.log2 < t.exponent :=
    (Nat.log2_lt (Nat.ne_of_gt u.remaining_pos)).mpr (show _ < powTwo _ by omega)
  have divides := powTwo_dvd_powTwo (Nat.le_of_lt smaller)
  have taperingU : u.Tapering := by
    rw [Tapering, next]
    exact Nat.dvd_add (Nat.dvd_trans divides (exponent_spec ordered).1) divides
  exact ⟨taperingU, by rw [taperingU.exponent_eq orderedU]; exact smaller⟩

/-- A tiling that climbs takes a larger block next, or tapers from one at least as large. -/
theorem rest_of_climbing (ordered : t.next ≤ t.last) (climbing : ¬ t.Tapering)
    (more : t.rest? = some u) :
    t.exponent ≤ u.exponent ∧ (¬ u.Tapering → t.exponent < u.exponent) := by
  obtain ⟨orderedU, next, left⟩ := rest_spec ordered more
  have aligned := (exponent_spec ordered).1
  have double := powTwo_succ_le_of_climbing ordered climbing
  have notLess : t.exponent ≤ u.exponent := by
    rw [powTwo_succ] at double
    refine le_exponent_of_dvd orderedU ?_ (by omega)
    rw [next]
    exact Nat.dvd_add aligned (Nat.dvd_refl _)
  refine ⟨notLess, fun climbingU => ?_⟩
  -- the block taken was as large as its alignment, so the next address is aligned to its double
  have odd : ¬ powTwo (t.exponent + 1) ∣ t.next.toNat := fun even =>
    Nat.not_succ_le_self _ (le_exponent_of_dvd ordered even double)
  refine le_exponent_of_dvd orderedU ?_ ?_
  · rw [next]
    exact powTwo_succ_dvd_add aligned odd
  · exact Nat.le_trans (powTwo_le (Nat.succ_le_succ notLess))
      (powTwo_succ_le_of_climbing orderedU climbingU)

/-! ## Prefix lengths -/

theorem prefixLen_lt_of_exponent_lt (smaller : u.exponent < t.exponent) :
    t.block.prefixLen < u.block.prefixLen := by
  have fits := t.exponent_le_bits
  show f.bits - t.exponent < f.bits - u.exponent
  omega

theorem Tapering.lengths_rise (tapering : t.Tapering) (ordered : t.next ≤ t.last) :
    (t.blocks.map Block.prefixLen).Pairwise (· < ·) := by
  rw [← List.isChain_iff_pairwise, List.isChain_map]
  refine blocks_isChain (P := Tapering) (fun t u ordered tapering more => ?_) ordered tapering
  obtain ⟨taperingU, smaller⟩ := tapering.rest ordered more
  exact ⟨prefixLen_lt_of_exponent_lt smaller, taperingU⟩

/-- A climb falls from the prefix length of its first block. -/
theorem lengths_of_climbing (ordered : t.next ≤ t.last) (climbing : ¬ t.Tapering) :
    ∃ down up, t.blocks.map Block.prefixLen = t.block.prefixLen :: (down ++ up) ∧
      (t.block.prefixLen :: down).IsChain (· > ·) ∧ up.Pairwise (· < ·) := by
  induction t using blocks.induct with
  | case1 t done =>
    rw [blocks_of_none done]
    exact ⟨[], [], rfl, .singleton _, .nil⟩
  | case2 t u more ih =>
    obtain ⟨orderedU, -, -⟩ := rest_spec ordered more
    rw [blocks_of_some more, List.map_cons]
    by_cases tapering : u.Tapering
    · exact ⟨[], _, rfl, .singleton _, tapering.lengths_rise orderedU⟩
    · have larger := (rest_of_climbing ordered climbing more).2 tapering
      obtain ⟨down, up, split, falls, rises⟩ := ih orderedU tapering
      refine ⟨u.block.prefixLen :: down, up, by rw [split]; rfl, ?_, rises⟩
      exact .cons_cons (prefixLen_lt_of_exponent_lt larger) falls

/-- The prefix lengths first fall and then rise. -/
theorem lengths_valley (ordered : t.next ≤ t.last) : Valley (t.blocks.map Block.prefixLen) := by
  by_cases tapering : t.Tapering
  · exact ⟨[], _, rfl, .nil, tapering.lengths_rise ordered⟩
  · obtain ⟨down, up, split, falls, rises⟩ := lengths_of_climbing ordered tapering
    exact ⟨_ :: down, up, split, List.isChain_iff_pairwise.mp falls, rises⟩

/-! ## Number of blocks -/

theorem Tapering.length_le (tapering : t.Tapering) (ordered : t.next ≤ t.last) :
    t.blocks.length ≤ t.exponent + 1 := by
  induction t using blocks.induct with
  | case1 t done =>
    rw [blocks_of_none done]
    exact Nat.succ_le_succ (Nat.zero_le _)
  | case2 t u more ih =>
    obtain ⟨orderedU, -, -⟩ := rest_spec ordered more
    obtain ⟨taperingU, smaller⟩ := tapering.rest ordered more
    have later := ih taperingU orderedU
    rw [blocks_of_some more, List.length_cons]
    omega

/-- Above the lowest address the two shortest prefixes are not both passed: a block of half the space
is the last one there. -/
theorem Tapering.length_lt_bits (tapering : t.Tapering) (ordered : t.next ≤ t.last)
    (above : 0 < t.next.toNat) : t.blocks.length < f.bits := by
  have several : 1 < f.bits := by cases f <;> decide
  have length := tapering.length_le ordered
  by_cases small : t.exponent + 1 < f.bits
  · omega
  · obtain ⟨aligned, fits⟩ := exponent_spec ordered
    have low := Nat.le_of_dvd above aligned
    have left := next_add_remaining ordered
    have size := (block_valid ordered).toNat_last
    have base : t.block.base = t.next := rfl
    have within := block_last_le ordered
    have top := t.last.isLt
    have half : powTwo f.bits ≤ powTwo t.exponent * 2 := by
      rw [← powTwo_succ]
      exact powTwo_le (by omega)
    rw [block_size, base] at size
    rw [Addr.le_def] at within
    have final : t.block.last = t.last := Addr.ext (by omega)
    rw [blocks_of_block_last final]
    exact several

/-- A climb stays clear of the two shortest prefixes, and does not start at the lowest address. -/
theorem climbing_spec (ordered : t.next ≤ t.last) (climbing : ¬ t.Tapering) :
    0 < t.next.toNat ∧ t.exponent + 2 ≤ f.bits := by
  have above : 0 < t.next.toNat :=
    Nat.pos_of_ne_zero fun zero => climbing (show powTwo _ ∣ _ from zero ▸ Nat.dvd_zero _)
  have low := Nat.le_of_dvd above (exponent_spec ordered).1
  have pos := powTwo_pos t.exponent
  have double := powTwo_succ_le_of_climbing ordered climbing
  have left := next_add_remaining ordered
  have top := t.last.isLt
  refine ⟨above, Nat.lt_of_not_le fun large => ?_⟩
  have whole : powTwo f.bits ≤ powTwo (t.exponent + 1) := powTwo_le large
  omega

theorem length_le_of_climbing (ordered : t.next ≤ t.last) (climbing : ¬ t.Tapering) :
    t.blocks.length + t.exponent + 2 ≤ 2 * f.bits := by
  induction t using blocks.induct with
  | case1 t done =>
    have clear := (climbing_spec ordered climbing).2
    rw [blocks_of_none done, List.length_singleton]
    omega
  | case2 t u more ih =>
    obtain ⟨above, clear⟩ := climbing_spec ordered climbing
    obtain ⟨orderedU, next, -⟩ := rest_spec ordered more
    rw [blocks_of_some more, List.length_cons]
    by_cases tapering : u.Tapering
    · have later := tapering.length_lt_bits orderedU (by omega)
      omega
    · have larger := (rest_of_climbing ordered climbing more).2 tapering
      have later := ih orderedU tapering
      omega

theorem length_blocks_le (ordered : t.next ≤ t.last) : t.blocks.length ≤ 2 * f.bits - 2 := by
  have several : 2 < f.bits := by cases f <;> decide
  by_cases tapering : t.Tapering
  · have length := tapering.length_le ordered
    have fits := t.exponent_le_bits
    omega
  · have length := length_le_of_climbing ordered tapering
    omega

end Tiling

/-! ## All blocks of a range -/

namespace Range

variable {r : Range f}

/-- How the prefix lengths of the blocks of a range follow each other, and how many there are. -/
structure Shape (r : Range f) : Prop where
  valley : Valley (r.blocks.map Block.prefixLen)
  twice : ∀ p, (r.blocks.map Block.prefixLen).count p ≤ 2
  /-- Two blocks with the shortest prefix are neighbours. -/
  neighbours : ∀ p before between after,
    r.blocks.map Block.prefixLen = before ++ p :: (between ++ p :: after) →
      (∀ q ∈ r.blocks.map Block.prefixLen, p ≤ q) → between = []
  short : r.blocks.length ≤ 2 * f.bits - 2

/-- **The prefix lengths of the blocks of a range** strictly fall and then strictly rise, the shortest
occurs at most twice, in neighbouring blocks, and the blocks number at most twice the width less two. -/
theorem blocks_shape (ordered : r.first ≤ r.last) : r.Shape := by
  have valley : Valley (r.blocks.map Block.prefixLen) := by
    rw [blocks_eq ordered]
    exact Tiling.lengths_valley ordered
  refine ⟨valley, valley.count_le, fun _ _ _ _ => valley.between_eq_nil, ?_⟩
  rw [blocks_eq ordered]
  exact Tiling.length_blocks_le ordered

/-- All addresses but the lowest and the highest take the largest number of blocks. -/
theorem blocks_shape_withoutEnds :
    Addr.one .v4 ≤ Addr.wrap .v4 4294967294 ∧ Shape ⟨.one .v4, .wrap .v4 4294967294⟩ ∧
      (Range.blocks ⟨.one .v4, .wrap .v4 4294967294⟩).length = 2 * Family.bits .v4 - 2 :=
  ⟨by decide, blocks_shape (by decide), by decide +kernel⟩

end Range

end NetRegistry
