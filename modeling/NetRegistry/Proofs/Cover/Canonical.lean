/-
# Proofs.Cover.Canonical -- the maximal blocks of a set of addresses

A block is maximal in a set of addresses (`Block.MaximalIn`) when it lies in the
set and holds every block of the set that it meets.  Disjoint maximal blocks
that exhaust a set are its canonical cover, and no cover has fewer blocks: each
maximal block holds a block of any other cover, and no block lies in two
(`CanonicalCover.minimal`).

The canonical covers of the maximal runs of a set, one after the other, are the
canonical cover of the set (`CanonicalCover.flatMap`), since a block that lies
in the set stays in one run.
-/
import NetRegistry.Proofs.Cover.Runs

namespace NetRegistry

set_option autoImplicit false

variable {f : Family}

/-- Valid blocks in ascending order, no two overlapping, that hold exactly the covered
addresses. -/
structure DisjointCover (covered : Addr f → Prop) (blocks : List (Block f)) : Prop where
  valid : ∀ b ∈ blocks, b.Valid
  ascending : blocks.Pairwise fun b c => b.last < c.base
  exact : ∀ a, (∃ b ∈ blocks, a ∈ b) ↔ covered a

/-- A disjoint cover that has no more blocks than any list of valid blocks that holds exactly the
same addresses, overlapping or not. -/
structure MinimalCover (covered : Addr f → Prop) (blocks : List (Block f)) : Prop
    extends DisjointCover covered blocks where
  fewest : ∀ other : List (Block f), (∀ b ∈ other, b.Valid) →
    (∀ a, (∃ b ∈ other, a ∈ b) ↔ covered a) → blocks.length ≤ other.length

/-- The block lies in the set and holds every valid block in the set that it shares an address
with. -/
structure Block.MaximalIn (covered : Addr f → Prop) (b : Block f) : Prop where
  inside : ∀ a ∈ b, covered a
  absorbs : ∀ c : Block f, c.Valid → (∀ a ∈ c, covered a) → ∀ a ∈ b, a ∈ c → ∀ x ∈ c, x ∈ b

/-- A disjoint cover by maximal blocks. -/
structure CanonicalCover (covered : Addr f → Prop) (blocks : List (Block f)) : Prop
    extends DisjointCover covered blocks where
  maximal : ∀ b ∈ blocks, b.MaximalIn covered

namespace DisjointCover

variable {covered : Addr f → Prop} {blocks : List (Block f)}

theorem congr {covered' : Addr f → Prop} (h : DisjointCover covered blocks)
    (same : ∀ a, covered a ↔ covered' a) : DisjointCover covered' blocks :=
  ⟨h.valid, h.ascending, fun a => (h.exact a).trans (same a)⟩

/-- Blocks of a disjoint cover that share an address are one block. -/
theorem eq_of_mem (h : DisjointCover covered blocks) {b c : Block f} {a : Addr f}
    (memberB : b ∈ blocks) (memberC : c ∈ blocks) (inB : a ∈ b) (inC : a ∈ c) : b = c := by
  rw [(h.valid b memberB).mem_iff] at inB
  rw [(h.valid c memberC).mem_iff] at inC
  simp only [Addr.le_def] at inB inC
  rcases eq_or_related_of_mem h.ascending memberB memberC with same | before | before
  · exact same
  · rw [Addr.lt_def] at before; omega
  · rw [Addr.lt_def] at before; omega

theorem bases_nodup (h : DisjointCover covered blocks) : (blocks.map (·.base)).Nodup := by
  rw [List.Nodup, List.pairwise_map]
  refine h.ascending.imp_of_mem fun {b c} memberB _ before same => ?_
  have low := (h.valid b memberB).base_le_last
  rw [Addr.lt_def, ← same] at before
  rw [Addr.le_def] at low
  omega

end DisjointCover

theorem MinimalCover.congr {covered covered' : Addr f → Prop} {blocks : List (Block f)}
    (h : MinimalCover covered blocks) (same : ∀ a, covered a ↔ covered' a) :
    MinimalCover covered' blocks :=
  ⟨h.toDisjointCover.congr same, fun other valid exact =>
    h.fewest other valid fun a => (exact a).trans (same a).symm⟩

namespace CanonicalCover

variable {covered : Addr f → Prop} {blocks : List (Block f)}

/-- **No cover has fewer blocks than the canonical one.** -/
theorem minimal (h : CanonicalCover covered blocks) : MinimalCover covered blocks := by
  refine ⟨h.toDisjointCover, fun other validOther exactOther => ?_⟩
  -- each block is sent to a block of the other cover that holds its base
  have held : ∀ b ∈ blocks, ∃ c ∈ other, b.base ∈ c := fun b member =>
    (exactOther b.base).mpr ((h.maximal b member).inside b.base (h.valid b member).base_mem)
  let image : Block f → Block f := fun b => (other.find? fun c => c.contains b.base).getD b
  have found : ∀ b ∈ blocks, image b ∈ other ∧ b.base ∈ image b := by
    intro b member
    obtain ⟨c, memberC, inC⟩ := held b member
    obtain ⟨d, first⟩ := Option.isSome_iff_exists.mp
      (List.find?_isSome.mpr ⟨c, memberC, inC⟩ : (other.find? fun c => c.contains b.base).isSome)
    have picked : image b = d := by simp [image, first]
    rw [picked]
    exact ⟨List.mem_of_find?_eq_some first,
      List.find?_some (p := fun c : Block f => c.contains b.base) first⟩
  have within : ∀ b ∈ blocks, ∀ x ∈ image b, x ∈ b := fun b member =>
    (h.maximal b member).absorbs (image b) (validOther _ (found b member).1)
      (fun a inImage => (exactOther a).mp ⟨_, (found b member).1, inImage⟩)
      b.base (h.valid b member).base_mem (found b member).2
  -- two blocks with one image would share the base of the image
  have distinct : (blocks.map image).Nodup := by
    rw [List.Nodup, List.pairwise_map]
    refine h.ascending.imp_of_mem fun {b c} memberB memberC before same => ?_
    have inC : b.base ∈ c := within c memberC _ (same ▸ (found b memberB).2)
    have equal := h.eq_of_mem memberB memberC (h.valid b memberB).base_mem inC
    have low := (h.valid b memberB).base_le_last
    rw [← equal, Addr.lt_def] at before
    rw [Addr.le_def] at low
    omega
  have subset : blocks.map image ⊆ other := by
    intro c member
    obtain ⟨b, memberB, rfl⟩ := List.mem_map.mp member
    exact (found b memberB).1
  simpa using distinct.length_le_of_subset subset

/-- Canonical covers of the maximal runs of a set make up the canonical cover of the set. -/
theorem flatMap {runs : List (Range f)} (h : MaximalRuns covered runs)
    {cover : Range f → List (Block f)}
    (each : ∀ r ∈ runs, CanonicalCover (fun a => a ∈ r) (cover r)) :
    CanonicalCover covered (runs.flatMap cover) := by
  refine ⟨⟨?_, ?_, ?_⟩, ?_⟩
  · intro b member
    obtain ⟨r, memberR, memberB⟩ := List.mem_flatMap.mp member
    exact (each r memberR).valid b memberB
  · rw [List.pairwise_flatMap]
    refine ⟨fun r member => (each r member).ascending, ?_⟩
    refine h.apart.imp_of_mem fun {r s} memberR memberS gap b memberB c memberC => ?_
    have lastIn := ((each r memberR).exact b.last).mp
      ⟨b, memberB, ((each r memberR).valid b memberB).last_mem⟩
    have baseIn := ((each s memberS).exact c.base).mp
      ⟨c, memberC, ((each s memberS).valid c memberC).base_mem⟩
    rw [Range.mem_iff, Addr.le_def, Addr.le_def] at lastIn baseIn
    rw [Addr.lt_def]
    omega
  · intro a
    rw [← h.exact a]
    constructor
    · rintro ⟨b, member, inB⟩
      obtain ⟨r, memberR, memberB⟩ := List.mem_flatMap.mp member
      exact ⟨r, memberR, ((each r memberR).exact a).mp ⟨b, memberB, inB⟩⟩
    · rintro ⟨r, memberR, inR⟩
      obtain ⟨b, memberB, inB⟩ := ((each r memberR).exact a).mpr inR
      exact ⟨b, List.mem_flatMap.mpr ⟨r, memberR, memberB⟩, inB⟩
  · intro b member
    obtain ⟨r, memberR, memberB⟩ := List.mem_flatMap.mp member
    have maximal := (each r memberR).maximal b memberB
    refine ⟨fun a inB => (h.exact a).mp ⟨r, memberR, maximal.inside a inB⟩, ?_⟩
    intro c validC insideC a inB inC
    -- the block meets the run, so it cannot leave it
    have span := validC.mem_iff.mp inC
    have kept := h.interval_within memberR
      (fun x low high => insideC x (validC.mem_iff.mpr ⟨low, high⟩))
      span.1 span.2 (maximal.inside a inB)
    refine maximal.absorbs c validC (fun x inX => ?_) a inB inC
    have spanX := validC.mem_iff.mp inX
    exact Range.mem_iff.mpr ⟨Nat.le_trans kept.1 spanX.1, Nat.le_trans spanX.2 kept.2⟩

end CanonicalCover

end NetRegistry
