/-
# Log -- what a run reports beside its answer

A log line has a level and a text.  Operations give their lines beside their
result, oldest first; whoever runs them chooses a level and sees the lines of
that level and of the more severe ones.
-/

namespace NetRegistry

set_option autoImplicit false

/-- How much a log line matters. -/
inductive Level where
  | error
  | warn
  | info
  | debug
deriving DecidableEq

namespace Level

/-- Rank by severity, the most severe first. -/
def rank : Level → Nat
  | .error => 0
  | .warn => 1
  | .info => 2
  | .debug => 3

/-- The word that stands before a line of this level. -/
def name : Level → String
  | .error => "ERROR"
  | .warn => "WARN"
  | .info => "INFO"
  | .debug => "DEBUG"

/-- The level of a given name. -/
def ofName? (s : String) : Option Level :=
  [Level.error, .warn, .info, .debug].find? (·.name == s)

end Level

structure LogLine where
  level : Level
  text : String
deriving DecidableEq

namespace LogLine

def shown (l : LogLine) : String := l.level.name ++ " " ++ l.text

/-- The lines that matter at least as much as `level`. -/
def atLeast (level : Level) (lines : List LogLine) : List LogLine :=
  lines.filter (·.level.rank ≤ level.rank)

end LogLine

end NetRegistry
