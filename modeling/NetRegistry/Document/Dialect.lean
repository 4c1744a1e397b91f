/-
# Document.Dialect -- what a reader asks of a document

Definitions and configurations are written in two formats.  A `Dialect` says, for
one format, how a node reads as text, as an optional text, as a flag, as a list,
as a mapping and as a record with named parts; `none` means that the node does
not fit.  In both formats a record may leave out parts that have a default, has
no part twice and none that is not known.

JSON values are taken as they are: nothing is converted, null stands only for an
absent optional text, and a record may also be a list of its parts in order.
-/
import NetRegistry.Document.Json

namespace NetRegistry

set_option autoImplicit false

/-- How nodes of a format read. -/
class Dialect (N : Type) where
  text? : N → Option String
  optionalText? : N → Option (Option String)
  flag? : N → Option Bool
  items? : N → Option (List N)
  /-- The entries of a mapping in order, by the text of their keys. -/
  entries? : N → Option (List (String × N))
  /-- The parts of a record whose parts have the given names. -/
  parts? : (names : List String) → N → Option (List (String × N))

namespace Json

/-- Order of object members by key. -/
def sortMembers (members : List (String × Json)) : List (String × Json) :=
  members.mergeSort fun m n => m.1 ≤ n.1

instance : Dialect Json where
  text?
    | .string s => some s
    | _ => none
  optionalText?
    | .null => some none
    | .string s => some (some s)
    | _ => none
  flag?
    | .bool b => some b
    | _ => none
  items?
    | .array items => some items
    | _ => none
  entries?
    | .object members => some (sortMembers members)
    | _ => none
  parts? names
    | .object members => some members
    | .array items => if items.length ≤ names.length then some (names.zip items) else none
    | _ => none

end Json

namespace Dialect

variable {N : Type} [Dialect N] {α : Type}

/-- The parts of a record, refused when one is unknown or there twice. -/
def record? (names : List String) (n : N) : Option (List (String × N)) := do
  let parts ← parts? names n
  let keys := parts.map (·.1)
  if keys.all names.contains && keys.Nodup then some parts else none

/-- A part of a record that has to be there. -/
def required? (read : N → Option α) (name : String) (parts : List (String × N)) : Option α :=
  (parts.lookup name).bind read

/-- A part of a record that has a default. -/
def withDefault? (default : α) (read : N → Option α) (name : String)
    (parts : List (String × N)) : Option α :=
  match parts.lookup name with
  | none => some default
  | some n => read n

/-- Read every member of a list. -/
def all? (read : N → Option α) : List N → Option (List α)
  | [] => some []
  | n :: rest => do
      let a ← read n
      let later ← all? read rest
      return a :: later

def list? (read : N → Option α) (n : N) : Option (List α) := (items? n).bind (all? read)

end Dialect

end NetRegistry
