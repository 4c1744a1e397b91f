/-
# Store.Clause -- a predicate as the condition of a query

The condition is text with a placeholder `?` for every pattern and name, which
are bound apart, in the order of the placeholders.  The text speaks of a netblock
`ip`, its registrar `reg` and its organization `org`, whose columns are null when
there is none; a null reads as empty text, so that negation keeps such rows.
Rendering appends to what a clause already holds.
-/
import NetRegistry.Listing.Predicate

namespace NetRegistry

set_option autoImplicit false

/-- The text of a condition and the texts bound to its placeholders. -/
structure Clause where
  sql : String
  params : List String
deriving DecidableEq

namespace Clause

/-- Nothing has been written. -/
def empty : Clause := ⟨"", []⟩

def write (text : String) (c : Clause) : Clause := { c with sql := c.sql ++ text }

def bind (param : String) (c : Clause) : Clause := { c with params := c.params ++ [param] }

end Clause

def Field.column : Field → String
  | .orgHandle => "COALESCE(org.handle, ip.org_id_str, '')"
  | .orgName => "COALESCE(org.name, '')"
  | .orgDescr => "COALESCE(org.descr, '')"
  | .netname => "ip.netname"
  | .descr => "ip.descr"

namespace Predicate

mutual

/-- Append the condition of a predicate to a clause. -/
def render : Predicate → Clause → Clause
  | .like field pattern, c => ((c.write field.column).write " LIKE ?").bind pattern
  | .registrar name, c => (c.write "reg.name = ?").bind name
  | .and [], c => c.write "1"
  | .and (p :: rest), c => (renderRest " AND " rest (p.render (c.write "("))).write ")"
  | .or [], c => c.write "0"
  | .or (p :: rest), c => (renderRest " OR " rest (p.render (c.write "("))).write ")"
  | .not inner, c => (inner.render (c.write "NOT (")).write ")"

/-- Append further terms, each behind the operator. -/
def renderRest (op : String) : List Predicate → Clause → Clause
  | [], c => c
  | p :: rest, c => renderRest op rest (p.render (c.write op))

end

def clause (p : Predicate) : Clause := p.render .empty

end Predicate

end NetRegistry
