/-
# Listing.Predicate -- conditions on netblocks

A predicate is a Boolean combination of pattern matches and registrar tests.  A
conjunction of nothing holds and a disjunction of nothing does not.  It has a
text for people (`Predicate.text`) and a meaning on a netblock with its
registrar and organization (`Predicate.holds`), in which a missing organization
reads as empty text and the handle falls back to the one that the netblock
itself refers to.
-/
import NetRegistry.Listing.Field

namespace NetRegistry

set_option autoImplicit false

inductive Predicate where
  /-- The field matches the pattern. -/
  | like (field : Field) (pattern : String)
  /-- The netblock belongs to the named registrar. -/
  | registrar (name : String)
  | and (terms : List Predicate)
  | or (terms : List Predicate)
  | not (inner : Predicate)
deriving Inhabited

/-- What a predicate sees of a netblock: its own texts, its registrar's name, and the columns of
its organization, absent when it has none. -/
structure Candidate where
  registrar : String
  orgHandle : Option String
  orgName : Option String
  orgDescr : Option String
  /-- The handle that the netblock itself refers to. -/
  reference : Option String
  netname : String
  descr : String
deriving DecidableEq

/-- The text that patterns of a field are matched against. -/
def Candidate.attribute (c : Candidate) : Field → String
  | .orgHandle => (c.orgHandle <|> c.reference).getD ""
  | .orgName => c.orgName.getD ""
  | .orgDescr => c.orgDescr.getD ""
  | .netname => c.netname
  | .descr => c.descr

namespace Predicate

/-- Conjunction; a single term stands for itself. -/
def all : List Predicate → Predicate
  | [p] => p
  | terms => .and terms

/-- Disjunction; a single term stands for itself. -/
def any : List Predicate → Predicate
  | [p] => p
  | terms => .or terms

mutual

/-- Number of pattern matches and registrar tests. -/
def leafCount : Predicate → Nat
  | .like _ _ => 1
  | .registrar _ => 1
  | .and terms => leafCountAll terms
  | .or terms => leafCountAll terms
  | .not inner => inner.leafCount

/-- Number of leaves of several predicates. -/
def leafCountAll : List Predicate → Nat
  | [] => 0
  | p :: rest => p.leafCount + leafCountAll rest

end

mutual

/-- Whether the condition holds of a candidate, given what matching a pattern means. -/
def holds (matches? : (pattern text : String) → Bool) (c : Candidate) : Predicate → Bool
  | .like field pattern => matches? pattern (c.attribute field)
  | .registrar name => c.registrar == name
  | .and terms => holdsAll matches? c terms
  | .or terms => holdsAny matches? c terms
  | .not inner => !inner.holds matches? c

def holdsAll (matches? : (pattern text : String) → Bool) (c : Candidate) : List Predicate → Bool
  | [] => true
  | p :: rest => p.holds matches? c && holdsAll matches? c rest

def holdsAny (matches? : (pattern text : String) → Bool) (c : Candidate) : List Predicate → Bool
  | [] => false
  | p :: rest => p.holds matches? c || holdsAny matches? c rest

end

/-- Whether a term needs parentheses inside a conjunction or disjunction. -/
def isCompound : Predicate → Bool
  | .and _ => true
  | .or _ => true
  | _ => false

/-- Enclose a text in parentheses when asked to. -/
def enclose (yes : Bool) (s : String) : String := if yes then "(" ++ s ++ ")" else s

mutual

def text : Predicate → String
  | .like field pattern => s!"{field.key} LIKE '{pattern}'"
  | .registrar name => s!"registrar = '{name}'"
  | .and terms => " AND ".intercalate (textTerms terms)
  | .or terms => " OR ".intercalate (textTerms terms)
  | .not inner => "NOT (" ++ inner.text ++ ")"

/-- The texts of the terms of a conjunction or disjunction. -/
def textTerms : List Predicate → List String
  | [] => []
  | p :: rest => enclose p.isCompound p.text :: textTerms rest

end

theorem holdsAll_eq_all (m : String → String → Bool) (c : Candidate) (terms : List Predicate) :
    holdsAll m c terms = terms.all (·.holds m c) := by
  induction terms with
  | nil => rfl
  | cons p rest ih => simp [holdsAll, ih]

theorem holdsAny_eq_any (m : String → String → Bool) (c : Candidate) (terms : List Predicate) :
    holdsAny m c terms = terms.any (·.holds m c) := by
  induction terms with
  | nil => rfl
  | cons p rest ih => simp [holdsAny, ih]

/-- The shorthand for a conjunction has its meaning. -/
theorem holds_all (m : String → String → Bool) (c : Candidate) (terms : List Predicate) :
    (all terms).holds m c = terms.all (·.holds m c) := by
  unfold all
  split
  · simp
  · simp [holds, holdsAll_eq_all]

/-- The shorthand for a disjunction has its meaning. -/
theorem holds_any (m : String → String → Bool) (c : Candidate) (terms : List Predicate) :
    (any terms).holds m c = terms.any (·.holds m c) := by
  unfold any
  split
  · simp
  · simp [holds, holdsAny_eq_any]

end Predicate

end NetRegistry
