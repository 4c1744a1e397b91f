/-
# Cover.Minimal -- the fewest blocks that cover a sequence of ranges

Coalescing gives the maximal runs of the covered addresses, and no block crosses
from one run into another; so the blocks of the runs, one run after the other,
are the fewest that cover exactly those addresses.
-/
import NetRegistry.Cover.Coalescer
import NetRegistry.Cover.Decompose

namespace NetRegistry

set_option autoImplicit false

variable {f : Family}

/-- The minimal cover of ranges in ascending order of their first address. -/
def minimalCover (ranges : List (Range f)) : List (Block f) :=
  (coalesce ranges).flatMap Range.blocks

/-- The minimal cover of ranges of which the caller knows that no run is inverted. -/
def minimalCoverOrMisuse (ranges : List (Range f)) : Except Misuse (List (Block f)) :=
  ((coalesce ranges).mapM Range.decompose).map List.flatten

end NetRegistry
