/-
# Cover.Writer -- handing the minimal cover to a sink

A `CoverWriter` takes ranges one at a time and hands the blocks of each run to a
sink as soon as the run is closed, counting runs and accepted blocks.  When the
sink refuses a block the rest of that run is dropped; the writer can go on with
later ranges, and never returns to the run that failed.
-/
import NetRegistry.Fallible
import NetRegistry.Cover.Minimal

namespace NetRegistry

set_option autoImplicit false

/-- Runs closed and blocks accepted. -/
structure CoverCounts where
  runs : Nat
  blocks : Nat
deriving DecidableEq

/-- A writer between two ranges. -/
structure CoverWriter (f : Family) where
  coalescer : Coalescer f
  counts : CoverCounts

namespace CoverWriter

variable {f : Family} {σ ε : Type}

/-- A writer that has been fed nothing. -/
def empty (f : Family) : CoverWriter f := ⟨.empty f, ⟨0, 0⟩⟩

def count (g : CoverCounts → CoverCounts) : Fallible (CoverWriter f × σ) ε Unit :=
  .modify fun (w, s) => ({ w with counts := g w.counts }, s)

/-- Hand one block to the sink and count it once it is accepted. -/
def writeBlock (sink : Block f → Fallible σ ε Unit) (b : Block f) :
    Fallible (CoverWriter f × σ) ε Unit := do
  Fallible.onSecond (sink b)
  count fun c => { c with blocks := c.blocks + 1 }

/-- Count a run and hand its blocks to the sink. -/
def writeRun (sink : Block f → Fallible σ ε Unit) (run : Range f) :
    Fallible (CoverWriter f × σ) ε Unit := do
  count fun c => { c with runs := c.runs + 1 }
  Fallible.each (writeBlock sink) run.blocks

/-- Write the run that a step of the coalescer closed, if it closed one. -/
def writeClosed (sink : Block f → Fallible σ ε Unit) :
    Option (Range f) → Fallible (CoverWriter f × σ) ε Unit
  | none => pure ()
  | some run => writeRun sink run

def push (sink : Block f → Fallible σ ε Unit) (r : Range f) :
    Fallible (CoverWriter f × σ) ε Unit := do
  let (w, _) ← Fallible.get
  let (c, closed) := w.coalescer.push r
  Fallible.modify fun (w, s) => ({ w with coalescer := c }, s)
  writeClosed sink closed

/-- Close the last run; the counts come out. -/
def finish (sink : Block f → Fallible σ ε Unit) :
    Fallible (CoverWriter f × σ) ε CoverCounts := do
  let (w, _) ← Fallible.get
  let (c, closed) := w.coalescer.finish
  Fallible.modify fun (w, s) => ({ w with coalescer := c }, s)
  writeClosed sink closed
  let (w, _) ← Fallible.get
  return w.counts

end CoverWriter

end NetRegistry
