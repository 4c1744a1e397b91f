/-
# Cover.Decompose -- the blocks of a range

A range that is not inverted is tiled from its first address: each step takes
the largest block that is aligned at the current position and fits into what is
left (`Tiling.step`).  The block at a position `p` with `n` addresses left has
`powTwo e` addresses, where `e` is the smaller of the number of trailing zeros of `p`
and the logarithm of `n`.  A step either ends at the last address of the range
or moves strictly upwards, so the tiling ends.
-/
import NetRegistry.Address.Range

namespace NetRegistry

set_option autoImplicit false

/-- What is left of a range that is being tiled. -/
structure Tiling (f : Family) where
  next : Addr f
  last : Addr f
deriving DecidableEq

namespace Tiling

variable {f : Family}

/-- Logarithm of the length of the block that the next step takes. -/
def exponent (t : Tiling f) : Nat :=
  min t.next.trailingZeros (Range.length ⟨t.next, t.last⟩).log2

/-- The block that the next step takes. -/
def block (t : Tiling f) : Block f := ⟨t.next, f.bits - t.exponent⟩

/-- What is left after the next step. -/
def rest? (t : Tiling f) : Option (Tiling f) :=
  if t.block.last < t.last then t.block.last.next?.map (⟨·, t.last⟩) else none

/-- A step leaves less: it moves upwards and stays below the end. -/
theorem lt_of_rest? {t u : Tiling f} (h : t.rest? = some u) :
    t.next < u.next ∧ u.next ≤ u.last ∧ u.last = t.last := by
  unfold rest? at h
  split at h
  · rename_i hlt
    obtain ⟨a, ha, rfl⟩ := Option.map_eq_some_iff.mp h
    simp only [Addr.next?, Addr.ofNat?] at ha
    split at ha
    · obtain rfl := Option.some.inj ha
      have hle := Addr.le_broadcast t.block.base t.block.prefixLen
      exact ⟨Nat.lt_succ_of_le hle, hlt, rfl⟩
    · cases ha
  · cases h

/-- The blocks that the remaining steps take. -/
def blocks (t : Tiling f) : List (Block f) :=
  match _h : t.rest? with
  | none => [t.block]
  | some u => t.block :: u.blocks
termination_by t.last.toNat + 1 - t.next.toNat
decreasing_by
  obtain ⟨h1, h2, h3⟩ := lt_of_rest? _h
  simp only [Addr.le_def, Addr.lt_def, h3] at h1 h2
  rw [h3]
  omega

end Tiling

namespace Range

variable {f : Family}

/-- The fewest blocks that tile the range, in ascending order; none for an inverted range. -/
def blocks (r : Range f) : List (Block f) :=
  if r.last < r.first then [] else Tiling.blocks ⟨r.first, r.last⟩

/-- The blocks of a range that the caller knows not to be inverted. -/
def decompose (r : Range f) : Except Misuse (List (Block f)) :=
  if r.last < r.first then .error (.inverted r.first.toNat r.last.toNat) else .ok r.blocks

end Range

end NetRegistry
