/-
# Proofs.Cover.Stream -- coalescing ranges as they come

`coalesce` says which runs come out of a sequence of ranges.  Here the runs are
taken from a coalescer in the two ways in which it is used, by feeding every range
and closing the last run (`Coalescer.session`) and by asking for one run after the
other (`RunCursor.next`), with the address behind a run computed on words.

* `Coalescer.run_pushOnWords`: feeding a range never wraps around, a run that ends at
  the top of the space included, and does what `Coalescer.push` says.
* `Coalescer.run_session`, `RunCursor.yields_runs`: both ways give the same runs.
* `MaximalRuns.gaps`: behind every run there is an address that is not covered.

**Main theorem** `coalesce_yields_maximalRuns`.
-/
import NetRegistry.Proofs.Address.Word
import NetRegistry.Proofs.Cover.Minimal
import NetRegistry.Proofs.Fallible

namespace NetRegistry

set_option autoImplicit false

open Fallible (Yields)

variable {f : Family}

/-- Between two maximal runs lies an address that is not covered. -/
theorem MaximalRuns.gaps {covered : Addr f → Prop} {runs : List (Range f)}
    (h : MaximalRuns covered runs) :
    runs.Pairwise fun r s => ∃ a, r.last < a ∧ a < s.first ∧ ¬ covered a := by
  refine h.apart.imp_of_mem fun {r s} memberR _ gap => ?_
  let behind : Addr f := s.first.below (r.last.toNat + 1) (Nat.le_of_lt gap)
  have behindIs : behind.toNat = r.last.toNat + 1 := rfl
  refine ⟨behind, Nat.lt_succ_self _, gap, fun inside => ?_⟩
  obtain ⟨t, memberT, inT⟩ := (h.exact behind).mpr inside
  have orderedR := h.ordered r memberR
  rw [Range.mem_iff, Addr.le_def, Addr.le_def] at inT
  rw [Addr.le_def] at orderedR
  rcases eq_or_related_of_mem h.apart memberR memberT with same | before | before
  · subst same; omega
  · omega
  · omega

namespace Coalescer

/-! ## Feeding ranges -/

/-- Whether a range overlaps the run or starts right after it, by the address behind the run; a run
that ends at the top is touched by everything. -/
def touchesOnWords (run r : Range f) : Except Overflow Bool :=
  run.last.successor.map fun
    | some behind => decide (r.first ≤ behind)
    | none => true

/-- Feed a range; the run that it closes, if it closes one, comes out. -/
def pushOnWords (r : Range f) : Fallible (Coalescer f) Overflow (Option (Range f)) := do
  let c ← Fallible.get
  match c.run with
  | none =>
      Fallible.modify fun _ => ⟨some r⟩
      return none
  | some run =>
      if ← Fallible.ofExcept (touchesOnWords run r) then
        Fallible.modify fun _ => ⟨some ⟨run.first, run.last.highest r.last⟩⟩
        return none
      else
        Fallible.modify fun _ => ⟨some r⟩
        return some run

/-- Close the run in progress. -/
def flush : Fallible (Coalescer f) Overflow (Option (Range f)) := do
  let c ← Fallible.get
  Fallible.modify fun c => c.finish.1
  return c.finish.2

/-- Feed the ranges one after the other and close the last run; the runs come out. -/
def session : List (Range f) → Fallible (Coalescer f) Overflow (List (Range f))
  | [] => do
      let closed ← flush
      return closed.toList
  | r :: rest => do
      let closed ← pushOnWords r
      let later ← session rest
      return closed.toList ++ later

theorem touchesOnWords_eq (run r : Range f) : touchesOnWords run r = .ok (touches run r) := by
  have low := r.first.isLt
  rw [touchesOnWords, Addr.successor_eq, touches, Addr.next?, Addr.ofNat?]
  by_cases fits : run.last.toNat + 1 < powTwo f.bits
  · rw [dif_pos fits]
    rfl
  · -- the run ends at the top, which no range starts above
    have touching : r.first.toNat ≤ run.last.toNat + 1 := by omega
    rw [dif_neg fits, decide_eq_true touching]
    rfl

theorem run_pushOnWords (c : Coalescer f) (r : Range f) :
    (pushOnWords r).run c = (.ok (c.push r).2, (c.push r).1) := by
  rw [pushOnWords, Fallible.run_get_bind]
  obtain ⟨_ | run⟩ := c
  · rfl
  · dsimp only
    rw [touchesOnWords_eq, Fallible.run_ok_bind, push]
    dsimp only
    by_cases touching : touches run r = true
    · rw [if_pos touching, if_pos touching]
      rfl
    · rw [if_neg touching, if_neg touching]
      rfl

theorem run_flush (c : Coalescer f) : flush.run c = (.ok c.run, .empty f) := rfl

/-- A session closes the runs of the ranges and leaves nothing behind. -/
theorem run_session (c : Coalescer f) (ranges : List (Range f)) :
    (session ranges).run c = (.ok (c.runs ranges), .empty f) := by
  induction ranges generalizing c with
  | nil => rfl
  | cons r rest ih =>
    rw [session, Fallible.run_bind, run_pushOnWords]
    dsimp only
    rw [Fallible.run_bind, ih]
    rfl

end Coalescer

/-! ## Asking for runs -/

/-- An iteration over the runs of ranges. -/
structure RunCursor (f : Family) where
  /-- The ranges that are still to be fed. -/
  pending : List (Range f)
  coalescer : Coalescer f
  done : Bool

namespace RunCursor

def start (ranges : List (Range f)) : RunCursor f := ⟨ranges, .empty f, false⟩

/-- Feed ranges until one of them closes a run; when there are no more, close the last one. -/
def feed : List (Range f) → Coalescer f → Except Overflow (Option (Range f)) × RunCursor f
  | [], c => (.ok c.finish.2, ⟨[], c.finish.1, true⟩)
  | r :: rest, c =>
      match (Coalescer.pushOnWords r).run c with
      | (.ok none, c) => feed rest c
      | (.ok (some run), c) => (.ok (some run), ⟨rest, c, false⟩)
      | (.error e, c) => (.error e, ⟨rest, c, false⟩)

/-- The next run, if there is one. -/
def next : Fallible (RunCursor f) Overflow (Option (Range f)) := fun s =>
  if s.done then (.ok none, s) else feed s.pending s.coalescer

theorem run_next (ranges : List (Range f)) (c : Coalescer f) :
    next.run ⟨ranges, c, false⟩ = feed ranges c := rfl

theorem run_next_done (ranges : List (Range f)) (c : Coalescer f) :
    next.run ⟨ranges, c, true⟩ = (.ok none, ⟨ranges, c, true⟩) := rfl

theorem feed_cons (r : Range f) (rest : List (Range f)) (c : Coalescer f) :
    feed (r :: rest) c =
      match (c.push r).2 with
      | none => feed rest (c.push r).1
      | some run => (.ok (some run), ⟨rest, (c.push r).1, false⟩) := by
  rw [feed, Coalescer.run_pushOnWords]
  cases (c.push r).2 <;> rfl

/-- The runs come out one after the other, whatever run was in progress. -/
theorem yields_runs (ranges : List (Range f)) (c : Coalescer f) :
    Yields next ⟨ranges, c, false⟩ (c.runs ranges) := by
  induction ranges generalizing c with
  | nil =>
    obtain ⟨_ | run⟩ := c
    · exact .ended (run_next _ _) (run_next_done _ _)
    · exact .item (run_next _ _) (.ended (run_next_done _ _) (run_next_done _ _))
  | cons r rest ih =>
    have fed := (run_next (r :: rest) c).trans (feed_cons r rest c)
    rw [Coalescer.runs]
    cases closed : (c.push r).2 with
    | none =>
      rw [closed] at fed
      exact (ih (c.push r).1).of_run_eq fed
    | some run =>
      rw [closed] at fed
      exact .item fed (ih (c.push r).1)

end RunCursor

/-! ## Sorted ranges -/

/-- What coalescing makes of ranges. -/
structure Coalesced (ranges : List (Range f)) : Prop where
  maximal : MaximalRuns (fun a => ∃ r ∈ ranges, a ∈ r) (coalesce ranges)
  gaps : (coalesce ranges).Pairwise fun r s =>
    ∃ a, r.last < a ∧ a < s.first ∧ ¬ ∃ t ∈ ranges, a ∈ t
  pulled : Yields RunCursor.next (RunCursor.start ranges) (coalesce ranges)
  pushed : (Coalescer.session ranges).run (.empty f) = (.ok (coalesce ranges), .empty f)
  /-- Whatever a coalescer was fed, once it is finished it is a new one. -/
  renewed : ∀ c : Coalescer f, Coalescer.flush.run c = (.ok c.run, .empty f)

/-- **Sorted ranges coalesce into their maximal runs**, fed one after the other or asked for one after
the other: ascending runs with uncovered addresses between them that hold the addresses of the ranges,
computed without a sum that wraps around. -/
theorem coalesce_yields_maximalRuns {ranges : List (Range f)}
    (ordered : ∀ r ∈ ranges, r.first ≤ r.last)
    (sorted : ranges.Pairwise fun r s => r.first ≤ s.first) : Coalesced ranges where
  maximal := coalesce_maximalRuns ordered sorted
  gaps := (coalesce_maximalRuns ordered sorted).gaps
  pulled := RunCursor.yields_runs ranges (.empty f)
  pushed := Coalescer.run_session (.empty f) ranges
  renewed := Coalescer.run_flush

/-- The last run of `edgeRanges` ends at the top of the space. -/
theorem coalesce_yields_maximalRuns_edgeRanges :
    ((∀ r ∈ edgeRanges, r.first ≤ r.last) ∧
      edgeRanges.Pairwise fun r s => r.first ≤ s.first) ∧
    Coalesced edgeRanges ∧
    coalesce edgeRanges =
      [⟨.bottom .v4, .wrap .v4 9⟩, ⟨.wrap .v4 4294967293, .top .v4⟩] :=
  ⟨⟨by decide, by decide⟩, coalesce_yields_maximalRuns (by decide) (by decide), by decide⟩

end NetRegistry
