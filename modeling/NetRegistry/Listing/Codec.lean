/-
# Listing.Codec -- definitions as documents

A definition is a record with a name and up to five optional parts.  Filters are
a mapping from field keys to lists of patterns; when a field occurs twice, under
its key and its short key, the later entry counts.  Writing leaves out what is
empty, and reading gives it back.
-/
import NetRegistry.Document.Dialect
import NetRegistry.Listing.Definition

namespace NetRegistry

set_option autoImplicit false

variable {N : Type} [Dialect N]

/-- Read the name of a field, as a text or as an object whose one key has no value. -/
def Field.ofJson? : Json → Option Field
  | .string s => ofKey? s
  | .object [(key, .null)] => ofKey? key
  | _ => none

namespace Filters

/-- Read entries of a mapping, the later ones replacing the earlier ones. -/
def readEntries? (p : Filters) : List (String × N) → Option Filters
  | [] => some p
  | (key, n) :: rest => do
      let f ← Field.ofKey? key
      let patterns ← Dialect.list? Dialect.text? n
      readEntries? (p.set f (some patterns)) rest

def read? (n : N) : Option Filters := (Dialect.entries? n).bind (readEntries? .empty)

def toJson (p : Filters) : Json :=
  .object (p.entries.map fun (f, patterns) => (f.key, .array (patterns.map .string)))

end Filters

namespace Definition

/-- Names of the parts of a definition, in order. -/
def partNames : List String := ["name", "registrar", "match", "ignore", "include", "exclude"]

def read? (n : N) : Option Definition := do
  let parts ← Dialect.record? partNames n
  let name ← Dialect.required? Dialect.text? "name" parts
  let registrar ← Dialect.withDefault? none Dialect.optionalText? "registrar" parts
  let wanted ← Dialect.withDefault? .empty Filters.read? "match" parts
  let ignored ← Dialect.withDefault? .empty Filters.read? "ignore" parts
  let includes ← Dialect.withDefault? [] (Dialect.list? Dialect.text?) "include" parts
  let excludes ← Dialect.withDefault? [] (Dialect.list? Dialect.text?) "exclude" parts
  return ⟨name, registrar, wanted, ignored, includes, excludes⟩

/-- A part that is left out when empty. -/
def partUnless (empty : Bool) (name : String) (value : Json) : List (String × Json) :=
  if empty then [] else [(name, value)]

def toJson (d : Definition) : Json :=
  .object <|
    [("name", .string d.name)] ++
    partUnless d.registrar.isNone "registrar" (.optional d.registrar) ++
    partUnless d.wanted.isEmpty "match" d.wanted.toJson ++
    partUnless d.ignored.isEmpty "ignore" d.ignored.toJson ++
    partUnless d.includes.isEmpty "include" (.array (d.includes.map .string)) ++
    partUnless d.excludes.isEmpty "exclude" (.array (d.excludes.map .string))

end Definition

end NetRegistry
