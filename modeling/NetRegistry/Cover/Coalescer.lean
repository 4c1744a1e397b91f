/-
# Cover.Coalescer -- merging overlapping and adjacent ranges

A `Coalescer` holds the *run* in progress.  A range that starts at most one past
the end of the run extends it; any other range closes the run and starts a new
one.  Fed with ranges in ascending order of their first address it gives the
maximal runs of the covered addresses; the order is not checked.
-/
import NetRegistry.Address.Range

namespace NetRegistry

set_option autoImplicit false

/-- The run in progress, if any. -/
structure Coalescer (f : Family) where
  run : Option (Range f)
deriving DecidableEq

namespace Coalescer

variable {f : Family}

/-- No run in progress. -/
def empty (f : Family) : Coalescer f := ⟨none⟩

/-- Whether a range overlaps the run or starts right after it. -/
def touches (run r : Range f) : Bool := r.first.toNat ≤ run.last.toNat + 1

/-- Feed a range; the run that it closes, if it closes one, comes out. -/
def push (c : Coalescer f) (r : Range f) : Coalescer f × Option (Range f) :=
  match c.run with
  | none => (⟨some r⟩, none)
  | some run =>
      if touches run r then (⟨some ⟨run.first, run.last.highest r.last⟩⟩, none)
      else (⟨some r⟩, some run)

def finish (c : Coalescer f) : Coalescer f × Option (Range f) := (empty f, c.run)

/-- The runs that come out when the ranges are fed and the last run is closed. -/
def runs (c : Coalescer f) : List (Range f) → List (Range f)
  | [] => c.finish.2.toList
  | r :: rest => (c.push r).2.toList ++ (c.push r).1.runs rest

end Coalescer

/-- The runs of a sequence of ranges. -/
def coalesce {f : Family} (ranges : List (Range f)) : List (Range f) :=
  (Coalescer.empty f).runs ranges

end NetRegistry
