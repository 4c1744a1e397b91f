/-
# Listing.Definition -- a list as configured

A list names the netblocks that it wants by a registrar and by patterns on
fields, names those that it ignores by patterns, and refers to other lists whose
members it adds or removes.  A field may be present with no pattern at all,
which constrains nothing but is kept.  Names may repeat in a sequence of
definitions; a reference then means the last one (`Definition.last?`).
-/
import NetRegistry.Listing.Field

namespace NetRegistry

set_option autoImplicit false

/-- The patterns of each field; `none` where the field is not mentioned. -/
abbrev Filters := PerField (Option (List String))

namespace Filters

/-- No field is mentioned. -/
def empty : Filters := .const none

def patterns (p : Filters) (f : Field) : List String := (p.get f).getD []

/-- The fields mentioned, in field order, with their patterns. -/
def entries (p : Filters) : List (Field × List String) :=
  Field.all.filterMap fun f => (p.get f).map (f, ·)

/-- Add a pattern of a field behind the ones it has. -/
def add (p : Filters) (f : Field) (pattern : String) : Filters :=
  p.set f (some (p.patterns f ++ [pattern]))

/-- Whether any field has a pattern. -/
def hasPatterns (p : Filters) : Bool := Field.all.any fun f => !(p.patterns f).isEmpty

def isEmpty (p : Filters) : Bool := Field.all.all fun f => (p.get f).isNone

end Filters

structure Definition where
  name : String
  /-- Only netblocks of this registrar are selected directly. -/
  registrar : Option String
  /-- Every field with patterns has to match one of them. -/
  wanted : Filters
  /-- No pattern of any field may match. -/
  ignored : Filters
  /-- Lists whose members are added. -/
  includes : List String
  /-- Lists whose members are removed. -/
  excludes : List String
deriving DecidableEq

namespace Definition

/-- A list that selects nothing. -/
def named (name : String) : Definition := ⟨name, none, .empty, .empty, [], []⟩

/-- Add a pattern that is wanted. -/
def wanting (d : Definition) (f : Field) (pattern : String) : Definition :=
  { d with wanted := d.wanted.add f pattern }

/-- Add a pattern that is ignored. -/
def ignoring (d : Definition) (f : Field) (pattern : String) : Definition :=
  { d with ignored := d.ignored.add f pattern }

/-- Add the members of another list. -/
def including (d : Definition) (list : String) : Definition :=
  { d with includes := d.includes ++ [list] }

/-- Remove the members of another list. -/
def excluding (d : Definition) (list : String) : Definition :=
  { d with excludes := d.excludes ++ [list] }

/-- Select from one registrar only. -/
def inRegistrar (d : Definition) (registrar : String) : Definition :=
  { d with registrar := some registrar }

/-- Whether the list selects netblocks by itself, without the lists that it includes. -/
def selectsDirectly (d : Definition) : Bool := d.wanted.hasPatterns || d.registrar.isSome

def hasIgnored (d : Definition) : Bool := d.ignored.hasPatterns

/-- The definition that a name refers to: the last one of that name. -/
def last? (defs : List Definition) (name : String) : Option Definition :=
  defs.reverse.find? (·.name == name)

/-- Position of the definition that a name refers to. -/
def lastIndex? (defs : List Definition) (name : String) : Option Nat :=
  (defs.reverse.findIdx? (·.name == name)).map (defs.length - 1 - ·)

end Definition

end NetRegistry
