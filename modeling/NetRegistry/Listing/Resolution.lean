/-
# Listing.Resolution -- the order in which lists are built

A list is built after the lists that it includes.  Each definition starts with a
*pending* count, one for each of its includes, and is *ready* when the count is
zero.  Ready definitions are placed first come, first served; placing one lowers
the count of those that include it, and the ones that become ready by that join
the queue in declaration order.  An include of an unknown name is never
satisfied.  What is never placed follows at the end in declaration order, and
its names are the *unresolved* ones.

Definitions are handled by their position, since names may repeat.
-/
import NetRegistry.Listing.Definition
import NetRegistry.Log

namespace NetRegistry

set_option autoImplicit false

/-- What ordering has to say about a list. -/
inductive ResolutionNote where
  | unknownInclude (list target : String)
  | unknownExclude (list target : String)
  | unresolved (list : String)
deriving DecidableEq

/-- The log line of a note. -/
def ResolutionNote.line : ResolutionNote → LogLine
  | .unknownInclude list target =>
      ⟨.warn, s!"list {list} includes unknown list {target}, ignoring the reference"⟩
  | .unknownExclude list target =>
      ⟨.warn, s!"list {list} excludes unknown list {target}, ignoring the reference"⟩
  | .unresolved list =>
      ⟨.warn, s!"list {list} has cyclic or unresolvable includes, building it best-effort"⟩

/-- Definitions in build order. -/
structure Resolution where
  order : List Definition
  /-- Names of the lists that could not be placed after all of their includes. -/
  unresolved : List String
  notes : List ResolutionNote
deriving DecidableEq

namespace Resolution

/-- Positions of the definitions that the includes of `d` refer to. -/
def targets (defs : List Definition) (d : Definition) : List Nat :=
  d.includes.filterMap (Definition.lastIndex? defs)

/-- For each position, the positions that it includes. -/
abbrev Edges : Type := List (List Nat)

def edges (defs : List Definition) : Edges := defs.map (targets defs)

/-- Positions that become less pending when position `i` is placed, once for each include of it,
in declaration order. -/
def dependents (edges : Edges) (i : Nat) : List Nat :=
  edges.zipIdx.flatMap fun (targets, j) => List.replicate (targets.count i) j

/-- The pending counts before anything is placed. -/
def initialPending (defs : List Definition) : List Nat := defs.map (·.includes.length)

/-- Lower the pending count of each position; the positions whose count reaches zero come out. -/
def release : List Nat → List Nat → List Nat × List Nat
  | [], pending => ([], pending)
  | j :: rest, pending =>
      let left := pending.getD j 0 - 1
      let (released, after) := release rest (pending.set j left)
      (if left = 0 then j :: released else released, after)

structure Progress where
  ready : List Nat
  pending : List Nat
  placed : List Nat
deriving DecidableEq

/-- Place the first ready position, if there is one. -/
def step (edges : Edges) (s : Progress) : Progress :=
  match s.ready with
  | [] => s
  | i :: ready =>
      let (released, pending) := release (dependents edges i) s.pending
      ⟨ready ++ released, pending, s.placed ++ [i]⟩

def steps (edges : Edges) : Nat → Progress → Progress
  | 0, s => s
  | n + 1, s => steps edges n (step edges s)

/-- Nothing is placed and the definitions without includes are ready. -/
def start (defs : List Definition) : Progress :=
  let pending := initialPending defs
  ⟨(List.range defs.length).filter fun i => pending.getD i 0 == 0, pending, []⟩

/-- Positions in the order in which they are placed; there is one step for each definition. -/
def placed (defs : List Definition) : List Nat :=
  (steps (edges defs) defs.length (start defs)).placed

/-- Positions other than those placed. -/
def leftOver (defs : List Definition) (placed : List Nat) : List Nat :=
  (List.range defs.length).filter fun i => !placed.contains i

/-- Notes on the references of a definition to unknown lists. -/
def referenceNotes (defs : List Definition) (d : Definition) : List ResolutionNote :=
  let unknown := fun name => (Definition.last? defs name).isNone
  (d.includes.filter unknown).map (.unknownInclude d.name) ++
    (d.excludes.filter unknown).map (.unknownExclude d.name)

end Resolution

/-- Order definitions so that each follows those that it includes, as far as that is possible. -/
def resolve (defs : List Definition) : Resolution :=
  let placed := Resolution.placed defs
  let leftOver := (Resolution.leftOver defs placed).filterMap (defs[·]?)
  { order := placed.filterMap (defs[·]?) ++ leftOver
    unresolved := leftOver.map (·.name)
    notes := defs.flatMap (Resolution.referenceNotes defs) ++
      leftOver.map fun d => .unresolved d.name }

end NetRegistry
