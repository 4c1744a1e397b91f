/-
# Proofs.Cover.Minimal -- the minimal cover is minimal

For ranges that are not inverted and ascend by their first address,
`minimalCover` is the canonical cover of their addresses
(`minimalCover_canonicalCover`).  So no run is inverted, the unchecked tiling is
never misused (`minimalCoverOrMisuse_eq_ok`), and no list of valid blocks with
the same addresses is shorter.

A set of addresses has one list of maximal runs, so the cover does not depend on
how the set is split into ranges (`minimalCover_congr`), and its blocks are ranges
that give it again.

**Main theorems** `minimalCover_minimal` and `minimalCover_determined`.
-/
import NetRegistry.Cover.Minimal
import NetRegistry.Proofs.Cover.Tiling

namespace NetRegistry

set_option autoImplicit false

variable {f : Family} {ranges : List (Range f)}

/-- The minimal cover of sorted ranges is the canonical cover of their addresses. -/
theorem minimalCover_canonicalCover (ordered : ∀ r ∈ ranges, r.first ≤ r.last)
    (sorted : ranges.Pairwise fun r s => r.first ≤ s.first) :
    CanonicalCover (fun a => ∃ r ∈ ranges, a ∈ r) (minimalCover ranges) := by
  have runs := coalesce_maximalRuns ordered sorted
  exact .flatMap runs fun r member => Range.blocks_canonicalCover (runs.ordered r member)

theorem mapM_decompose {runs : List (Range f)} (ordered : ∀ r ∈ runs, r.first ≤ r.last) :
    runs.mapM Range.decompose = .ok (runs.map Range.blocks) := by
  induction runs with
  | nil => rfl
  | cons r rest ih =>
    have upright : ¬ r.last < r.first := Nat.not_lt.mpr (ordered r List.mem_cons_self)
    have later := ih fun s member => ordered s (List.mem_cons_of_mem _ member)
    rw [List.mapM_cons, later, Range.decompose, if_neg upright]
    rfl

theorem minimalCoverOrMisuse_eq_ok (ordered : ∀ r ∈ ranges, r.first ≤ r.last)
    (sorted : ranges.Pairwise fun r s => r.first ≤ s.first) :
    minimalCoverOrMisuse ranges = .ok (minimalCover ranges) := by
  have runs := coalesce_maximalRuns ordered sorted
  rw [minimalCoverOrMisuse, mapM_decompose runs.ordered, minimalCover, List.flatMap]
  rfl

/-- **The minimal cover of sorted ranges**: strictly ascending disjoint valid blocks that hold
exactly the addresses of the ranges, and as few as any list of valid blocks that does. -/
theorem minimalCover_minimal (ordered : ∀ r ∈ ranges, r.first ≤ r.last)
    (sorted : ranges.Pairwise fun r s => r.first ≤ s.first) :
    minimalCoverOrMisuse ranges = .ok (minimalCover ranges) ∧
      MinimalCover (fun a => ∃ r ∈ ranges, a ∈ r) (minimalCover ranges) :=
  ⟨minimalCoverOrMisuse_eq_ok ordered sorted, (minimalCover_canonicalCover ordered sorted).minimal⟩

/-- Ranges at both ends of the space, two of them overlapping and one given twice. -/
def edgeRanges : List (Range .v4) :=
  [⟨.bottom .v4, .wrap .v4 6⟩, ⟨.bottom .v4, .wrap .v4 2⟩, ⟨.wrap .v4 5, .wrap .v4 9⟩,
    ⟨.wrap .v4 5, .wrap .v4 9⟩, ⟨.wrap .v4 4294967293, .top .v4⟩]

theorem minimalCover_minimal_edgeRanges :
    ((∀ r ∈ edgeRanges, r.first ≤ r.last) ∧
      edgeRanges.Pairwise fun r s => r.first ≤ s.first) ∧
    minimalCoverOrMisuse edgeRanges = .ok (minimalCover edgeRanges) ∧
      MinimalCover (fun a => ∃ r ∈ edgeRanges, a ∈ r) (minimalCover edgeRanges) :=
  ⟨⟨by decide, by decide⟩, minimalCover_minimal (by decide) (by decide)⟩

/-! ## One cover for one set of addresses -/

/-- Ranges that are not inverted, sorted by their first address. -/
structure Ascending (ranges : List (Range f)) : Prop where
  ordered : ∀ r ∈ ranges, r.first ≤ r.last
  sorted : ranges.Pairwise fun r s => r.first ≤ s.first

/-- The ranges of both lists hold the same addresses. -/
def SameAddresses (left right : List (Range f)) : Prop :=
  ∀ a, (∃ r ∈ left, a ∈ r) ↔ ∃ r ∈ right, a ∈ r

theorem minimalCover_congr {other : List (Range f)} (input : Ascending ranges)
    (input' : Ascending other) (same : SameAddresses other ranges) :
    minimalCover other = minimalCover ranges := by
  have runs := coalesce_maximalRuns input.ordered input.sorted
  have runs' := (coalesce_maximalRuns input'.ordered input'.sorted).congr same
  have runsEq : coalesce other = coalesce ranges := runs'.unique runs
  rw [minimalCover, minimalCover, runsEq]

/-- The blocks of a disjoint cover are ascending ranges. -/
theorem DisjointCover.ascending_ranges {covered : Addr f → Prop} {blocks : List (Block f)}
    (cover : DisjointCover covered blocks) : Ascending (blocks.map Block.range) := by
  constructor
  · intro r member
    obtain ⟨b, memberB, rfl⟩ := List.mem_map.mp member
    exact (cover.valid b memberB).base_le_last
  · rw [List.pairwise_map]
    refine cover.ascending.imp_of_mem fun {b c} memberB _ before => ?_
    have low := (cover.valid b memberB).base_le_last
    rw [Addr.lt_def] at before
    rw [Addr.le_def] at low
    show b.base.toNat ≤ c.base.toNat
    omega

theorem DisjointCover.exists_mem_range_iff {covered : Addr f → Prop} {blocks : List (Block f)}
    (cover : DisjointCover covered blocks) (a : Addr f) :
    (∃ r ∈ blocks.map Block.range, a ∈ r) ↔ covered a := by
  rw [← cover.exact a]
  constructor
  · rintro ⟨r, member, inside⟩
    obtain ⟨b, memberB, rfl⟩ := List.mem_map.mp member
    exact ⟨b, memberB, (cover.valid b memberB).mem_range_iff.mp inside⟩
  · rintro ⟨b, memberB, inside⟩
    exact ⟨b.range, List.mem_map_of_mem memberB, (cover.valid b memberB).mem_range_iff.mpr inside⟩

/-- A range that is covered already adds no address. -/
theorem sameAddresses_insert {before after : List (Range f)} {r : Range f}
    (covered : ∀ a ∈ r, ∃ s ∈ before ++ after, a ∈ s) :
    SameAddresses (before ++ r :: after) (before ++ after) := by
  intro a
  constructor
  · rintro ⟨s, member, inside⟩
    by_cases new : s = r
    · subst new
      exact covered a inside
    · refine ⟨s, ?_, inside⟩
      simpa [new] using member
  · rintro ⟨s, member, inside⟩
    refine ⟨s, ?_, inside⟩
    rw [List.mem_append] at member ⊢
    exact member.imp_right (List.mem_cons_of_mem r)

/-- **The covered addresses determine the minimal cover**: however sorted ranges split, overlap or
repeat them, the blocks are the same.  So the ranges of the blocks give the blocks again, and a
range that is covered already changes nothing where it is put. -/
theorem minimalCover_determined (input : Ascending ranges) :
    minimalCoverOrMisuse ranges = .ok (minimalCover ranges) ∧
      (∀ other : List (Range f), Ascending other → SameAddresses other ranges →
        minimalCoverOrMisuse other = .ok (minimalCover ranges)) ∧
      minimalCoverOrMisuse ((minimalCover ranges).map Block.range) = .ok (minimalCover ranges) ∧
      ∀ (before after : List (Range f)) (r : Range f), ranges = before ++ after →
        Ascending (before ++ r :: after) → (∀ a ∈ r, ∃ s ∈ ranges, a ∈ s) →
        minimalCoverOrMisuse (before ++ r :: after) = .ok (minimalCover ranges) := by
  have alike : ∀ other : List (Range f), Ascending other → SameAddresses other ranges →
      minimalCoverOrMisuse other = .ok (minimalCover ranges) := by
    intro other input' same
    rw [minimalCoverOrMisuse_eq_ok input'.ordered input'.sorted, minimalCover_congr input input' same]
  have cover := (minimalCover_canonicalCover input.ordered input.sorted).toDisjointCover
  refine ⟨alike ranges input fun a => Iff.rfl, alike, ?_, ?_⟩
  · exact alike _ cover.ascending_ranges cover.exists_mem_range_iff
  · rintro before after r rfl input' covered
    exact alike _ input' (sameAddresses_insert covered)

/-- The addresses of `edgeRanges`, split in another way. -/
def edgePieces : List (Range .v4) :=
  [⟨.bottom .v4, .wrap .v4 0⟩, ⟨.wrap .v4 1, .wrap .v4 9⟩, ⟨.wrap .v4 4294967293, .wrap .v4 4294967294⟩,
    ⟨.wrap .v4 4294967294, .top .v4⟩]

theorem minimalCover_determined_edgeRanges :
    Ascending edgeRanges ∧ Ascending edgePieces ∧ SameAddresses edgePieces edgeRanges ∧
      minimalCoverOrMisuse edgePieces = .ok (minimalCover edgeRanges) ∧
      minimalCoverOrMisuse ((minimalCover edgeRanges).map Block.range) =
        .ok (minimalCover edgeRanges) := by
  have input : Ascending edgeRanges := ⟨by decide, by decide⟩
  have pieces : Ascending edgePieces := ⟨by decide, by decide⟩
  have same : SameAddresses edgePieces edgeRanges := by
    intro a
    have below : a.toNat < 4294967296 := a.isLt
    simp [edgePieces, edgeRanges, Range.mem_iff, Addr.le_def, Addr.wrap, Addr.bottom, Addr.top,
      Family.bits, powTwo]
    omega
  obtain ⟨-, alike, again, -⟩ := minimalCover_determined input
  exact ⟨input, pieces, same, alike edgePieces pieces same, again⟩

end NetRegistry
