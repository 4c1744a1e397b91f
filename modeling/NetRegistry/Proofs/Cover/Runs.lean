/-
# Proofs.Cover.Runs -- the maximal runs of a set of addresses

`MaximalRuns covered runs` says that the ranges in `runs` are the maximal
contiguous runs of the addresses that satisfy `covered`: none is inverted, they
ascend, an address outside lies between any two, and together they hold exactly
the covered addresses.  A set has one such list (`MaximalRuns.unique`), and an
interval of covered addresses never leaves the run that it meets
(`MaximalRuns.interval_within`).

Ranges sorted by their first address coalesce into their maximal runs
(`coalesce_maximalRuns`).
-/
import NetRegistry.Cover.Coalescer
import NetRegistry.Proofs.Cover.Block

namespace NetRegistry

set_option autoImplicit false

variable {f : Family}

/-- Two members of a list with an ordered relation are equal or related one way round. -/
theorem eq_or_related_of_mem {α : Type} {R : α → α → Prop} {l : List α} (related : l.Pairwise R)
    {x y : α} (hx : x ∈ l) (hy : y ∈ l) : x = y ∨ R x y ∨ R y x := by
  let Q : α → α → Prop := fun x y => x = y ∨ R x y ∨ R y x
  have forth : l.Pairwise Q := related.imp fun h => Or.inr (Or.inl h)
  have back : l.Pairwise (flip Q) := related.imp fun h => Or.inr (Or.inr h)
  have same : ∀ x ∈ l, Q x x := fun _ _ => Or.inl rfl
  exact List.Pairwise.forall_of_forall_of_flip same forth back hx hy

/-- The address of a number that some address is at least. -/
def Addr.below (a : Addr f) (n : Nat) (h : n ≤ a.toNat) : Addr f :=
  ⟨n, Nat.lt_of_le_of_lt h a.isLt⟩

/-- The ranges are the maximal contiguous runs of the covered addresses. -/
structure MaximalRuns (covered : Addr f → Prop) (runs : List (Range f)) : Prop where
  ordered : ∀ r ∈ runs, r.first ≤ r.last
  apart : runs.Pairwise fun r s => r.last.toNat + 1 < s.first.toNat
  exact : ∀ a, (∃ r ∈ runs, a ∈ r) ↔ covered a

namespace MaximalRuns

variable {covered : Addr f → Prop} {runs : List (Range f)}

theorem congr {covered' : Addr f → Prop} (h : MaximalRuns covered runs)
    (same : ∀ a, covered a ↔ covered' a) : MaximalRuns covered' runs :=
  ⟨h.ordered, h.apart, fun a => (h.exact a).trans (same a)⟩

/-- An interval of covered addresses that meets a run lies within it. -/
theorem interval_within (h : MaximalRuns covered runs) {r : Range f} (member : r ∈ runs)
    {low high x : Addr f} (inside : ∀ a, low ≤ a → a ≤ high → covered a)
    (lowX : low ≤ x) (xHigh : x ≤ high) (inR : x ∈ r) : r.first ≤ low ∧ high ≤ r.last := by
  rw [Range.mem_iff] at inR
  simp only [Addr.le_def] at *
  constructor
  · -- otherwise the address before the run is covered by another run
    refine Nat.le_of_not_lt fun below => ?_
    let gap := r.first.below (r.first.toNat - 1) (Nat.sub_le _ _)
    have gapIs : gap.toNat = r.first.toNat - 1 := rfl
    obtain ⟨s, memberS, inS⟩ := (h.exact gap).mpr (inside gap (by omega) (by omega))
    rw [Range.mem_iff, Addr.le_def, Addr.le_def] at inS
    rcases eq_or_related_of_mem h.apart member memberS with same | before | before
    · subst same; omega
    · omega
    · omega
  · -- otherwise the address behind the run is covered by another run
    refine Nat.le_of_not_lt fun above => ?_
    let gap := high.below (r.last.toNat + 1) above
    have gapIs : gap.toNat = r.last.toNat + 1 := rfl
    obtain ⟨s, memberS, inS⟩ := (h.exact gap).mpr (inside gap (by omega) (by omega))
    have orderedS := h.ordered s memberS
    rw [Range.mem_iff] at inS
    rw [Addr.le_def] at inS orderedS
    rw [Addr.le_def] at inS
    rcases eq_or_related_of_mem h.apart member memberS with same | before | before
    · subst same; omega
    · omega
    · omega

theorem tail {r : Range f} {rest : List (Range f)} (h : MaximalRuns covered (r :: rest)) :
    MaximalRuns (fun a => covered a ∧ a ∉ r) rest := by
  obtain ⟨headApart, restApart⟩ := List.pairwise_cons.mp h.apart
  refine ⟨fun s member => h.ordered s (List.mem_cons_of_mem _ member), restApart, fun a => ?_⟩
  rw [← h.exact a]
  constructor
  · rintro ⟨s, member, inS⟩
    refine ⟨⟨s, List.mem_cons_of_mem _ member, inS⟩, fun inR => ?_⟩
    have gap := headApart s member
    rw [Range.mem_iff, Addr.le_def, Addr.le_def] at inS inR
    omega
  · rintro ⟨⟨s, member, inS⟩, notR⟩
    rcases List.mem_cons.mp member with rfl | member
    · exact absurd inS notR
    · exact ⟨s, member, inS⟩

/-- A run in front of everything that the later ones cover, with a gap in between. -/
theorem cons {r : Range f} {rest : List (Range f)} (h : MaximalRuns covered rest)
    (ordered : r.first ≤ r.last) (gap : ∀ a, covered a → r.last.toNat + 1 < a.toNat) :
    MaximalRuns (fun a => a ∈ r ∨ covered a) (r :: rest) := by
  refine ⟨?_, ?_, fun a => ?_⟩
  · intro s member
    rcases List.mem_cons.mp member with rfl | member
    · exact ordered
    · exact h.ordered s member
  · refine List.pairwise_cons.mpr ⟨fun s member => ?_, h.apart⟩
    have start : s.first ∈ s := Range.mem_iff.mpr ⟨Nat.le_refl _, h.ordered s member⟩
    exact gap s.first ((h.exact s.first).mp ⟨s, member, start⟩)
  · simp only [List.mem_cons, exists_eq_or_imp]
    rw [h.exact a]

/-- Every run starts at or above the first one. -/
theorem first_le {r : Range f} {rest : List (Range f)} (h : MaximalRuns covered (r :: rest))
    {a : Addr f} (inside : covered a) : r.first ≤ a := by
  obtain ⟨s, member, inS⟩ := (h.exact a).mpr inside
  have orderedR := h.ordered r List.mem_cons_self
  rw [Range.mem_iff, Addr.le_def, Addr.le_def] at inS
  rw [Addr.le_def] at orderedR ⊢
  rcases List.mem_cons.mp member with rfl | member
  · exact inS.1
  · have gap := (List.pairwise_cons.mp h.apart).1 s member
    omega

/-- The covered addresses determine their maximal runs. -/
theorem unique {runs' : List (Range f)} (h : MaximalRuns covered runs)
    (h' : MaximalRuns covered runs') : runs = runs' := by
  induction runs generalizing covered runs' with
  | nil =>
    cases runs' with
    | nil => rfl
    | cons s rest' =>
      have orderedS := h'.ordered s List.mem_cons_self
      have start : covered s.first := (h'.exact s.first).mp
        ⟨s, List.mem_cons_self, Range.mem_iff.mpr ⟨Nat.le_refl _, orderedS⟩⟩
      obtain ⟨r, member, -⟩ := (h.exact s.first).mpr start
      cases member
  | cons r rest ih =>
    have orderedR := h.ordered r List.mem_cons_self
    have inR : r.first ∈ r := Range.mem_iff.mpr ⟨Nat.le_refl _, orderedR⟩
    have allR : ∀ a, r.first ≤ a → a ≤ r.last → covered a := fun a low high =>
      (h.exact a).mp ⟨r, List.mem_cons_self, Range.mem_iff.mpr ⟨low, high⟩⟩
    cases runs' with
    | nil =>
      obtain ⟨s, member, -⟩ := (h'.exact r.first).mpr (allR _ (Nat.le_refl _) orderedR)
      cases member
    | cons s rest' =>
      have orderedS := h'.ordered s List.mem_cons_self
      have allS : ∀ a, s.first ≤ a → a ≤ s.last → covered a := fun a low high =>
        (h'.exact a).mp ⟨s, List.mem_cons_self, Range.mem_iff.mpr ⟨low, high⟩⟩
      have firstEq : r.first = s.first := Addr.ext (Nat.le_antisymm
        (h.first_le (allS _ (Nat.le_refl _) orderedS))
        (h'.first_le (allR _ (Nat.le_refl _) orderedR)))
      have inS : r.first ∈ s := by
        rw [firstEq]
        exact Range.mem_iff.mpr ⟨Nat.le_refl _, orderedS⟩
      have lastLe := (h'.interval_within List.mem_cons_self allR (Nat.le_refl _) orderedR inS).2
      have lastGe := (h.interval_within List.mem_cons_self allS (firstEq ▸ Nat.le_refl _)
        (firstEq ▸ orderedS) inR).2
      have same : r = s := Range.ext firstEq (Addr.ext (Nat.le_antisymm lastLe lastGe))
      subst same
      rw [ih h.tail h'.tail]

end MaximalRuns

/-! ## Coalescing sorted ranges -/

namespace Coalescer

/-- Widening a run by a range that touches it adds the addresses of the range. -/
theorem mem_widened {run r : Range f} {a : Addr f} (touching : touches run r = true)
    (above : run.first ≤ r.first) :
    a ∈ (⟨run.first, run.last.highest r.last⟩ : Range f) ↔ a ∈ run ∨ a ∈ r := by
  simp only [Range.mem_iff, Addr.le_def, Addr.toNat_highest]
  simp only [touches, decide_eq_true_eq] at touching
  rw [Addr.le_def] at above
  omega

/-- A range that touches the run in progress widens it, and nothing comes out. -/
theorem runs_touching {run r : Range f} (touching : touches run r = true) (rest : List (Range f)) :
    runs ⟨some run⟩ (r :: rest) = runs ⟨some ⟨run.first, run.last.highest r.last⟩⟩ rest := by
  simp [runs, push, touching]

/-- Any other range closes it. -/
theorem runs_apart {run r : Range f} (apart : ¬ touches run r = true) (rest : List (Range f)) :
    runs ⟨some run⟩ (r :: rest) = run :: runs ⟨some r⟩ rest := by
  simp [runs, push, apart]

/-- Feeding sorted ranges to a run in progress gives the maximal runs of the run and the ranges. -/
theorem runs_maximalRuns {run : Range f} {ranges : List (Range f)} (orderedRun : run.first ≤ run.last)
    (ordered : ∀ r ∈ ranges, r.first ≤ r.last)
    (sorted : (run :: ranges).Pairwise fun r s => r.first ≤ s.first) :
    MaximalRuns (fun a => a ∈ run ∨ ∃ r ∈ ranges, a ∈ r) (runs ⟨some run⟩ ranges) := by
  induction ranges generalizing run with
  | nil => exact ⟨by simpa [runs, finish] using orderedRun, by simp [runs, finish],
      by simp [runs, finish]⟩
  | cons r rest ih =>
    obtain ⟨above, sortedRest⟩ := List.pairwise_cons.mp sorted
    have orderedR := ordered r List.mem_cons_self
    have orderedRest : ∀ s ∈ rest, s.first ≤ s.last := fun s member =>
      ordered s (List.mem_cons_of_mem _ member)
    have aboveR := above r List.mem_cons_self
    by_cases touching : touches run r = true
    · -- the run grows and nothing comes out
      let grown : Range f := ⟨run.first, run.last.highest r.last⟩
      have orderedGrown : grown.first ≤ grown.last := by
        simp only [Addr.le_def, grown, Addr.toNat_highest] at orderedRun ⊢
        omega
      have sortedGrown : (grown :: rest).Pairwise fun r s => r.first ≤ s.first :=
        List.pairwise_cons.mpr ⟨fun s member => above s (List.mem_cons_of_mem _ member),
          (List.pairwise_cons.mp sortedRest).2⟩
      rw [runs_touching touching]
      refine (ih orderedGrown orderedRest sortedGrown).congr fun a => ?_
      rw [show a ∈ grown ↔ a ∈ run ∨ a ∈ r from mem_widened touching aboveR]
      simp [or_assoc]
    · -- the run is closed, and everything later starts above the address behind it
      have later := ih orderedR orderedRest sortedRest
      have behind : run.last.toNat + 1 < r.first.toNat := by
        simpa [touches] using touching
      rw [runs_apart touching]
      simp only [List.mem_cons, exists_eq_or_imp]
      refine later.cons orderedRun fun a inside => ?_
      have low : r.first ≤ a := by
        rcases inside with inR | ⟨t, member, inT⟩
        · exact (Range.mem_iff.mp inR).1
        · exact Nat.le_trans ((List.pairwise_cons.mp sortedRest).1 t member)
            (Range.mem_iff.mp inT).1
      rw [Addr.le_def] at low
      omega

/-- Whatever the order of the ranges, no run is inverted. -/
theorem runs_ordered {c : Coalescer f} {ranges : List (Range f)}
    (orderedRun : ∀ run ∈ c.run, run.first ≤ run.last) (ordered : ∀ r ∈ ranges, r.first ≤ r.last) :
    ∀ run ∈ c.runs ranges, run.first ≤ run.last := by
  induction ranges generalizing c with
  | nil =>
    intro run member
    exact orderedRun run (Option.mem_toList.mp member)
  | cons r rest ih =>
    have orderedR := ordered r List.mem_cons_self
    have orderedRest := fun s member => ordered s (List.mem_cons_of_mem r member)
    obtain ⟨_ | held⟩ := c
    · exact ih (fun run same => Option.some.inj same ▸ orderedR) orderedRest
    · have orderedHeld := orderedRun held rfl
      by_cases touching : touches held r = true
      · rw [runs_touching touching]
        refine ih (fun run same => ?_) orderedRest
        obtain rfl := Option.some.inj same
        simp only [Addr.le_def, Addr.toNat_highest] at orderedHeld ⊢
        omega
      · rw [runs_apart touching]
        intro run member
        rcases List.mem_cons.mp member with rfl | later
        · exact orderedHeld
        · exact ih (fun run same => Option.some.inj same ▸ orderedR) orderedRest run later

end Coalescer

/-- Sorted ranges coalesce into their maximal runs. -/
theorem coalesce_maximalRuns {ranges : List (Range f)} (ordered : ∀ r ∈ ranges, r.first ≤ r.last)
    (sorted : ranges.Pairwise fun r s => r.first ≤ s.first) :
    MaximalRuns (fun a => ∃ r ∈ ranges, a ∈ r) (coalesce ranges) := by
  cases ranges with
  | nil => exact ⟨by simp [coalesce, Coalescer.runs, Coalescer.finish, Coalescer.empty],
      by simp [coalesce, Coalescer.runs, Coalescer.finish, Coalescer.empty],
      by simp [coalesce, Coalescer.runs, Coalescer.finish, Coalescer.empty]⟩
  | cons r rest =>
    have first : coalesce (r :: rest) = Coalescer.runs ⟨some r⟩ rest := by
      simp [coalesce, Coalescer.runs, Coalescer.push, Coalescer.empty]
    rw [first]
    refine (Coalescer.runs_maximalRuns (ordered r List.mem_cons_self)
      (fun s member => ordered s (List.mem_cons_of_mem _ member)) sorted).congr fun a => ?_
    simp

end NetRegistry
