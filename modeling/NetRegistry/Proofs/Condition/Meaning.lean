/-
# Proofs.Condition.Meaning -- what a condition says of a row

A row is what a predicate sees of a netblock, with null in the columns of an
organization that is not there.  A condition has a value on it that may be null,
and truth has three values: OR is the greater of two and AND the lesser, with the
unknown between no and yes, and NOT turns the order round.  Where the value of an
expression would take a conversion between texts and numbers it is left open
(`none`), so that nothing below can rest on one.

What LIKE accepts is a parameter throughout.
-/
import NetRegistry.Proofs.Condition.Grammar
import NetRegistry.Store.Clause

namespace NetRegistry

set_option autoImplicit false

namespace Condition

inductive Scalar where
  | null
  | integer (n : Nat)
  | text (s : String)
deriving DecidableEq

inductive Truth where
  | no
  | unknown
  | yes
deriving DecidableEq

namespace Truth

def ofBool (b : Bool) : Truth := if b then .yes else .no

def not : Truth → Truth
  | .no => .yes
  | .unknown => .unknown
  | .yes => .no

def and : Truth → Truth → Truth
  | .no, _ => .no
  | _, .no => .no
  | .yes, .yes => .yes
  | _, _ => .unknown

def or : Truth → Truth → Truth
  | .yes, _ => .yes
  | _, .yes => .yes
  | .no, .no => .no
  | _, _ => .unknown

/-- The value that stands for the truth. -/
def scalar : Truth → Scalar
  | .no => .integer 0
  | .unknown => .null
  | .yes => .integer 1

@[simp] theorem not_ofBool (b : Bool) : (ofBool b).not = ofBool (!b) := by cases b <;> rfl

@[simp] theorem and_ofBool (a b : Bool) : (ofBool a).and (ofBool b) = ofBool (a && b) := by
  cases a <;> cases b <;> rfl

@[simp] theorem or_ofBool (a b : Bool) : (ofBool a).or (ofBool b) = ofBool (a || b) := by
  cases a <;> cases b <;> rfl

end Truth

namespace Scalar

/-- A text or null. -/
def ofText? : Option String → Scalar
  | none => .null
  | some s => .text s

/-- What the value says as a condition. -/
def truth? : Scalar → Option Truth
  | .null => some .unknown
  | .integer n => some (.ofBool (n != 0))
  | .text _ => none

@[simp] theorem truth?_scalar (b : Truth) : b.scalar.truth? = some b := by cases b <;> rfl

end Scalar

/-- The value of two operands, given what matching a pattern means. -/
def Operator.apply (matches? : (pattern text : String) → Bool) :
    Operator → Scalar → Scalar → Option Scalar
  | .comma, first, rest => some (if first = .null then rest else first)
  | .or, l, r => do return ((← l.truth?).or (← r.truth?)).scalar
  | .and, l, r => do return ((← l.truth?).and (← r.truth?)).scalar
  | .like, .text s, .text pattern => some (Truth.ofBool (matches? pattern s)).scalar
  | .equal, .text s, .text s' => some (Truth.ofBool (s == s')).scalar
  | .equal, .integer n, .integer n' => some (Truth.ofBool (n == n')).scalar
  | .like, .null, _ => some .null
  | .like, _, .null => some .null
  | .equal, .null, _ => some .null
  | .equal, _, .null => some .null
  | _, _, _ => none

end Condition

open Condition

/-- The value in a column of the row that a predicate sees. -/
def Candidate.column (c : Candidate) (table name : String) : Option Scalar :=
  match table, name with
  | "org", "handle" => some (.ofText? c.orgHandle)
  | "org", "name" => some (.ofText? c.orgName)
  | "org", "descr" => some (.ofText? c.orgDescr)
  | "ip", "org_id_str" => some (.ofText? c.reference)
  | "ip", "netname" => some (.text c.netname)
  | "ip", "descr" => some (.text c.descr)
  | "reg", "name" => some (.text c.registrar)
  | _, _ => none

namespace Condition

variable (matches? : (pattern text : String) → Bool) (c : Candidate)

/-- The value of an expression, with the texts bound to the placeholders in their order. -/
def Expr.eval (params : List String) : Expr → Option Scalar
  | .placeholder number => params[number]?.map .text
  | .integer n => some (.integer n)
  | .text s => some (.text s)
  | .column table name => c.column table name
  | .not inner => do return (← (← inner.eval params).truth?).not.scalar
  | .binary op left right => do op.apply matches? (← left.eval params) (← right.eval params)

end Condition

/-- What a clause says of a row: its text is read, one text is bound to each placeholder, and the
expression is evaluated. -/
def Clause.truth? (matches? : (pattern text : String) → Bool) (c : Candidate) (clause : Clause) :
    Option Truth := do
  let scanned ← scan clause.sql
  let e ← parse? scanned.tokens.reverse
  if scanned.marks = clause.params.length then
    (← e.eval matches? c clause.params).truth?
  else none

end NetRegistry
