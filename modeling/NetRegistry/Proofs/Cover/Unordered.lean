/-
# Proofs.Cover.Unordered -- coalescing ranges in any order

A coalescer does not check that ranges come in ascending order.  A range that
starts below the run in progress touches it, however far below, and then only
widens it at its end: what the range holds below the run is lost.  An address is
therefore *saved* when some range holds it that comes while no run in progress
starts above the address (`Coalescer.Saves`).

* `Coalescer.mem_runs_iff`: the runs hold the addresses of the run in progress and
  those that are saved, and no others.
* `Coalescer.first_le_of_mem_runs`: no later run starts below the one in progress.
* `Coalescer.runs_maximalRuns_saves`: whatever the order, the runs are the maximal
  runs of the addresses that they hold.

**Main theorem** `coalesce_anyhow`.
-/
import NetRegistry.Proofs.Cover.Stream

namespace NetRegistry

set_option autoImplicit false

open Fallible (Yields)

variable {f : Family}

namespace Coalescer

variable {c : Coalescer f} {held r : Range f} {ranges rest : List (Range f)} {a : Addr f}

/-- The coalescer after ranges were fed to it. -/
def fed (c : Coalescer f) : List (Range f) → Coalescer f
  | [] => c
  | r :: rest => (c.push r).1.fed rest

/-- Feed ranges one after the other, whatever runs they close. -/
def feedOnWords (ranges : List (Range f)) : Fallible (Coalescer f) Overflow Unit :=
  Fallible.each (fun r => do let _ ← pushOnWords r) ranges

theorem run_feedOnWords (c : Coalescer f) (ranges : List (Range f)) :
    (feedOnWords ranges).run c = (.ok (), c.fed ranges) := by
  induction ranges generalizing c with
  | nil => rfl
  | cons r rest ih =>
    have first : (do let _ ← pushOnWords r).run c = (.ok (), (c.push r).1) := by
      rw [Fallible.run_bind, run_pushOnWords]
      rfl
    rw [feedOnWords, Fallible.each, Fallible.run_bind, first]
    exact ih (c.push r).1

/-- Some range holds the address that comes while no run in progress starts above it. -/
def Saves (c : Coalescer f) (ranges : List (Range f)) (a : Addr f) : Prop :=
  ∃ before r after, ranges = before ++ r :: after ∧ a ∈ r ∧
    ∀ run ∈ (c.fed before).run, run.first ≤ a

theorem not_saves_nil : ¬ c.Saves [] a := by
  rintro ⟨before, r, after, split, -⟩
  cases before <;> cases split

theorem saves_cons : c.Saves (r :: rest) a ↔
    (a ∈ r ∧ ∀ run ∈ c.run, run.first ≤ a) ∨ (c.push r).1.Saves rest a := by
  constructor
  · rintro ⟨before, s, after, split, inS, started⟩
    cases before with
    | nil =>
      obtain ⟨rfl, rfl⟩ := List.cons.inj split
      exact Or.inl ⟨inS, started⟩
    | cons first before =>
      obtain ⟨rfl, rfl⟩ := List.cons.inj split
      exact Or.inr ⟨before, s, after, rfl, inS, started⟩
  · rintro (⟨inR, started⟩ | ⟨before, s, after, rfl, inS, started⟩)
    · exact ⟨[], r, rest, rfl, inR, started⟩
    · exact ⟨r :: before, s, after, rfl, inS, started⟩

/-- What is saved belongs to some range. -/
theorem Saves.mem (saved : c.Saves ranges a) : ∃ r ∈ ranges, a ∈ r := by
  obtain ⟨before, r, after, rfl, inR, -⟩ := saved
  exact ⟨r, List.mem_append_right before List.mem_cons_self, inR⟩

/-! ## One step -/

/-- A run that is widened by a range that touches it gains what the range holds from its own start
on, wherever the range starts. -/
theorem mem_widened_iff (touching : touches held r = true) :
    a ∈ (⟨held.first, held.last.highest r.last⟩ : Range f) ↔
      a ∈ held ∨ (a ∈ r ∧ held.first ≤ a) := by
  simp only [touches, decide_eq_true_eq] at touching
  simp only [Range.mem_iff, Addr.le_def, Addr.toNat_highest]
  omega

theorem ordered_widened (ordered : held.first ≤ held.last) :
    (⟨held.first, held.last.highest r.last⟩ : Range f).first ≤ held.last.highest r.last := by
  simp only [Addr.le_def, Addr.toNat_highest] at ordered ⊢
  omega

theorem behind_of_apart (apart : ¬ touches held r = true) : held.last.toNat + 1 < r.first.toNat := by
  simpa [touches] using apart

/-- The range that closes a run lies above all of it. -/
theorem first_le_of_apart (apart : ¬ touches held r = true) (ordered : held.first ≤ held.last)
    (inR : a ∈ r) : held.first ≤ a := by
  have behind := behind_of_apart apart
  rw [Range.mem_iff] at inR
  simp only [Addr.le_def] at *
  omega

theorem push_touching (touching : touches held r = true) :
    (push ⟨some held⟩ r).1 = ⟨some ⟨held.first, held.last.highest r.last⟩⟩ := by
  simp [push, touching]

theorem push_apart (apart : ¬ touches held r = true) : (push ⟨some held⟩ r).1 = ⟨some r⟩ := by
  simp [push, apart]

/-! ## All steps -/

/-- Nothing else is in the runs than the run in progress and what is saved. -/
theorem mem_runs_iff (orderedRun : ∀ run ∈ c.run, run.first ≤ run.last)
    (ordered : ∀ r ∈ ranges, r.first ≤ r.last) :
    (∃ run ∈ c.runs ranges, a ∈ run) ↔ (∃ run ∈ c.run, a ∈ run) ∨ c.Saves ranges a := by
  induction ranges generalizing c with
  | nil => simp [runs, finish, not_saves_nil]
  | cons r rest ih =>
    have orderedR := ordered r List.mem_cons_self
    have orderedRest := fun s member => ordered s (List.mem_cons_of_mem r member)
    have fromR := ih (c := ⟨some r⟩) (fun run same => Option.some.inj same ▸ orderedR) orderedRest
    simp only [Option.mem_some_iff, exists_eq_left'] at fromR
    obtain ⟨_ | held⟩ := c
    · rw [saves_cons]
      simpa [runs, push] using fromR
    · have orderedHeld := orderedRun held rfl
      by_cases touching : touches held r = true
      · have fromGrown := ih (c := ⟨some ⟨held.first, held.last.highest r.last⟩⟩)
          (fun run same => Option.some.inj same ▸ ordered_widened orderedHeld) orderedRest
        simp only [Option.mem_some_iff, exists_eq_left', mem_widened_iff touching]
          at fromGrown
        rw [runs_touching touching, fromGrown, saves_cons, push_touching touching]
        simp [or_assoc]
      · rw [runs_apart touching, saves_cons, push_apart touching]
        have above : a ∈ r → held.first ≤ a := first_le_of_apart touching orderedHeld
        simp only [List.mem_cons, exists_eq_or_imp, fromR, Option.mem_some_iff, exists_eq_left',
          forall_eq', and_iff_left_of_imp above]

/-- No later run starts below the one in progress. -/
theorem first_le_of_mem_runs (orderedHeld : held.first ≤ held.last)
    (ordered : ∀ r ∈ ranges, r.first ≤ r.last) :
    ∀ run ∈ runs ⟨some held⟩ ranges, held.first ≤ run.first := by
  induction ranges generalizing held with
  | nil =>
    intro run member
    obtain rfl : held = run := Option.some.inj (Option.mem_toList.mp member)
    exact Nat.le_refl _
  | cons r rest ih =>
    have orderedR := ordered r List.mem_cons_self
    have orderedRest := fun s member => ordered s (List.mem_cons_of_mem r member)
    by_cases touching : touches held r = true
    · rw [runs_touching touching]
      exact ih (ordered_widened orderedHeld) orderedRest
    · rw [runs_apart touching]
      intro run member
      rcases List.mem_cons.mp member with rfl | later
      · exact Nat.le_refl _
      · have start : r.first ∈ r := Range.mem_iff.mpr ⟨Nat.le_refl _, orderedR⟩
        exact Nat.le_trans (first_le_of_apart touching orderedHeld start)
          (ih orderedR orderedRest run later)

/-- A run is closed only by a range that starts behind the address that follows it. -/
theorem runs_pairwise (orderedRun : ∀ run ∈ c.run, run.first ≤ run.last)
    (ordered : ∀ r ∈ ranges, r.first ≤ r.last) :
    (c.runs ranges).Pairwise fun r s => r.last.toNat + 1 < s.first.toNat := by
  induction ranges generalizing c with
  | nil => cases h : c.run <;> simp [runs, finish, h]
  | cons r rest ih =>
    have orderedR := ordered r List.mem_cons_self
    have orderedRest := fun s member => ordered s (List.mem_cons_of_mem r member)
    have fromR := ih (c := ⟨some r⟩) (fun run same => Option.some.inj same ▸ orderedR) orderedRest
    obtain ⟨_ | held⟩ := c
    · exact fromR
    · have orderedHeld := orderedRun held rfl
      by_cases touching : touches held r = true
      · rw [runs_touching touching]
        exact ih (fun run same => Option.some.inj same ▸ ordered_widened orderedHeld) orderedRest
      · rw [runs_apart touching]
        refine List.pairwise_cons.mpr ⟨fun run later => ?_, fromR⟩
        exact Nat.lt_of_lt_of_le (behind_of_apart touching)
          (first_le_of_mem_runs orderedR orderedRest run later)

/-- Whatever the order of the ranges, the runs are the maximal runs of what is saved. -/
theorem runs_maximalRuns_saves (ordered : ∀ r ∈ ranges, r.first ≤ r.last) :
    MaximalRuns ((empty f).Saves ranges) (coalesce ranges) := by
  have noRun : ∀ run ∈ (empty f).run, run.first ≤ run.last := fun run held => nomatch held
  refine ⟨runs_ordered noRun ordered, runs_pairwise noRun ordered, fun a => ?_⟩
  have held : ¬ ∃ run ∈ (empty f).run, a ∈ run := fun ⟨run, held, _⟩ => nomatch held
  rw [coalesce, mem_runs_iff noRun ordered, or_iff_right held]

end Coalescer

open Coalescer

/-- What coalescing makes of ranges in any order. -/
structure CoalescedAnyhow (ranges : List (Range f)) : Prop where
  maximal : MaximalRuns ((Coalescer.empty f).Saves ranges) (coalesce ranges)
  /-- Behind each run but the last lies an address that no run holds. -/
  gaps : (coalesce ranges).Pairwise fun r s =>
    ∃ a, r.last < a ∧ a < s.first ∧ ∀ run ∈ coalesce ranges, a ∉ run
  within : ∀ run ∈ coalesce ranges, ∀ a ∈ run, ∃ r ∈ ranges, a ∈ r
  /-- An address of a range is lost only to a run that had started above it when the range came. -/
  lost : ∀ before r after, ranges = before ++ r :: after → ∀ a ∈ r,
    (∀ run ∈ coalesce ranges, a ∉ run) →
    ∃ c run, (feedOnWords before).run (.empty f) = (.ok (), c) ∧ c.run = some run ∧ a < run.first
  pulled : Yields RunCursor.next (RunCursor.start ranges) (coalesce ranges)
  pushed : (session ranges).run (.empty f) = (.ok (coalesce ranges), .empty f)

/-- **Coalescing never invents addresses, whatever the order of the ranges.**  The runs are not
inverted and ascend with a gap between any two; they hold exactly the addresses of ranges that came
while no run in progress started above the address. -/
theorem coalesce_anyhow {ranges : List (Range f)} (ordered : ∀ r ∈ ranges, r.first ≤ r.last) :
    CoalescedAnyhow ranges := by
  have maximal := runs_maximalRuns_saves ordered
  refine ⟨maximal, ?_, ?_, ?_, RunCursor.yields_runs ranges (.empty f), run_session (.empty f) ranges⟩
  · refine maximal.gaps.imp fun {r s} ⟨a, above, below, free⟩ => ⟨a, above, below, ?_⟩
    exact fun run member inRun => free ((maximal.exact a).mp ⟨run, member, inRun⟩)
  · exact fun run member a inRun => ((maximal.exact a).mp ⟨run, member, inRun⟩).mem
  · intro before r after split a inR missing
    have notSaved : ¬ (Coalescer.empty f).Saves ranges a := fun saved =>
      let ⟨run, member, inRun⟩ := (maximal.exact a).mpr saved
      missing run member inRun
    have started : ¬ ∀ run ∈ ((Coalescer.empty f).fed before).run, run.first ≤ a := fun all =>
      notSaved ⟨before, r, after, split, inR, all⟩
    cases inProgress : ((Coalescer.empty f).fed before).run with
    | none => exact absurd (fun run held => nomatch inProgress ▸ held) started
    | some run =>
      refine ⟨_, run, run_feedOnWords _ before, inProgress, Nat.lt_of_not_le fun low => ?_⟩
      refine started fun other held => ?_
      rw [inProgress] at held
      exact Option.some.inj held ▸ low

/-- Ranges out of order: some start below the run in progress and end inside or behind it, the third
to last makes it reach the top of the space, and what comes then is lost or absorbed. -/
def strayRanges : List (Range .v4) :=
  [⟨.wrap .v4 4, .wrap .v4 6⟩, ⟨.wrap .v4 20, .wrap .v4 29⟩, ⟨.wrap .v4 10, .wrap .v4 32⟩,
    ⟨.wrap .v4 1, .wrap .v4 5⟩, ⟨.wrap .v4 33, .top .v4⟩, ⟨.wrap .v4 8, .wrap .v4 9⟩,
    ⟨.wrap .v4 7, .wrap .v4 40⟩]

theorem coalesce_anyhow_strayRanges :
    (∀ r ∈ strayRanges, r.first ≤ r.last) ∧ CoalescedAnyhow strayRanges ∧
    coalesce strayRanges = [⟨.wrap .v4 4, .wrap .v4 6⟩, ⟨.wrap .v4 20, .top .v4⟩] :=
  ⟨by decide, coalesce_anyhow (by decide), by decide⟩

end NetRegistry
