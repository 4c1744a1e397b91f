/-
# Listing.Expansion -- from definitions to one condition

The members of a list are those that it selects directly or that a list it
includes has, less those that a list it excludes has.  Expanding a list writes
this as one predicate, with the lists it refers to expanded in place.  The names
being expanded form the *path*; a reference to a name on the path, or to an
unknown name, is skipped with a note.  A list that selects nothing has no
predicate, and its excludes are not looked at.

Every step down adds a declared name to the path that was not on it, so the
number of declared names off the path bounds the depth.
-/
import NetRegistry.Listing.Definition
import NetRegistry.Listing.Predicate
import NetRegistry.Log

namespace NetRegistry

set_option autoImplicit false

/-- How a list refers to another. -/
inductive Relation where
  | includes
  | excludes
deriving DecidableEq

/-- The verb of the relation. -/
def Relation.verb : Relation → String
  | .includes => "include"
  | .excludes => "exclude"

/-- What expanding a list has to say about one of its references. -/
inductive ExpansionNote where
  | unknown (list : String) (relation : Relation) (target : String)
  | onPath (list : String) (relation : Relation) (target : String) (path : List String)
  | selectsNothing (list : String) (relation : Relation) (target : String)
deriving DecidableEq

/-- The log line of a note. -/
def ExpansionNote.line : ExpansionNote → LogLine
  | .unknown list rel target =>
      ⟨.warn, s!"list {list}: {rel.verb} of unknown list {target} skipped"⟩
  | .onPath list rel target path =>
      let shown := " -> ".intercalate path
      ⟨.warn, s!"list {list}: {rel.verb} of {target} skipped, it is already being expanded " ++
        s!"({shown})"⟩
  | .selectsNothing list rel target =>
      ⟨.debug, s!"list {list}: {rel.verb}d list {target} selects nothing"⟩

namespace Definition

/-- The patterns of filters as conditions, in field order. -/
def likes (p : Filters) : List Predicate :=
  Field.all.flatMap fun f => (p.patterns f).map (.like f)

/-- For each field with patterns, the condition that one of them matches. -/
def wantedTerms (p : Filters) : List Predicate :=
  (Field.all.filter fun f => !(p.patterns f).isEmpty).map fun f =>
    .any ((p.patterns f).map (.like f))

/-- What the list selects by itself. -/
def direct? (d : Definition) : Option Predicate :=
  if d.selectsDirectly then
    some (.all (d.registrar.toList.map .registrar ++ wantedTerms d.wanted ++
      if d.hasIgnored then [.not (.any (likes d.ignored))] else []))
  else none

/-- Join what a list adds and what it removes; nothing is left of a list that adds nothing. -/
def combine? (added removed : List Predicate) : Option Predicate :=
  if added.isEmpty then none
  else if removed.isEmpty then some (.any added)
  else some (.and [.any added, .not (.any removed)])

/-- Number of declared definitions whose names are not on the path. -/
def offPath (defs : List Definition) (path : List String) : Nat :=
  defs.countP fun d => !path.contains d.name

theorem last?_eq_some {defs : List Definition} {name : String} {d : Definition}
    (h : last? defs name = some d) : d ∈ defs ∧ d.name = name := by
  unfold last? at h
  exact ⟨List.mem_reverse.mp (List.mem_of_find?_eq_some h), by simpa using List.find?_some h⟩

/-- Stepping down to a name off the path leaves fewer names off it. -/
theorem offPath_lt {defs : List Definition} {path : List String} {d : Definition}
    (hd : d ∈ defs) (hp : ¬ path.contains d.name = true) :
    offPath defs (path ++ [d.name]) < offPath defs path := by
  unfold offPath
  obtain ⟨before, after, rfl⟩ := List.append_of_mem hd
  have smaller : ∀ l : List Definition,
      l.countP (fun e => !(path ++ [d.name]).contains e.name) ≤
        l.countP fun e => !path.contains e.name := fun l =>
    List.countP_mono_left fun e _ h => by
      simp only [List.contains_append, Bool.not_or, Bool.and_eq_true] at h
      exact h.1
  have h1 := smaller before
  have h2 := smaller after
  have gone : (!(path ++ [d.name]).contains d.name) = false := by simp
  have there : (!path.contains d.name) = true := by simpa using hp
  simp only [List.countP_append, List.countP_cons, gone, there]
  simp only [Bool.false_eq_true, if_false, if_true]
  omega

mutual

/-- The condition of membership in `d`, with what was noted on the way. -/
def expand (defs : List Definition) (path : List String) (d : Definition) :
    Option Predicate × List ExpansionNote :=
  let (added, notes) := expandRefs defs path d.name .includes d.includes
  let added := d.direct?.toList ++ added
  if added.isEmpty then (none, notes)
  else
    let (removed, moreNotes) := expandRefs defs path d.name .excludes d.excludes
    (combine? added removed, notes ++ moreNotes)
termination_by (offPath defs path, 2, 0)

/-- The conditions of the lists that `list` refers to, less the references that are skipped. -/
def expandRefs (defs : List Definition) (path : List String) (list : String) (rel : Relation) :
    List String → List Predicate × List ExpansionNote
  | [] => ([], [])
  | target :: rest =>
      let (found, notes) := expandRef defs path list rel target
      let (later, moreNotes) := expandRefs defs path list rel rest
      (found.toList ++ later, notes ++ moreNotes)
termination_by refs => (offPath defs path, 1, refs.length)

/-- The condition of the list that one reference means, unless the reference is skipped. -/
def expandRef (defs : List Definition) (path : List String) (list : String) (rel : Relation)
    (target : String) : Option Predicate × List ExpansionNote :=
  match _h : last? defs target with
  | none => (none, [.unknown list rel target])
  | some t =>
      if _hp : path.contains t.name then (none, [.onPath list rel target path])
      else
        match expand defs (path ++ [t.name]) t with
        | (none, notes) => (none, notes ++ [.selectsNothing list rel target])
        | (some p, notes) => (some p, notes)
termination_by (offPath defs path, 0, 0)
decreasing_by exact Prod.Lex.left _ _ (offPath_lt (last?_eq_some _h).1 _hp)

end

/-- The condition of membership in the named list, if it selects anything. -/
def compile (defs : List Definition) (name : String) : Option Predicate × List ExpansionNote :=
  match last? defs name with
  | none => (none, [])
  | some d => expand defs [d.name] d

end Definition

end NetRegistry
