/-
# Config -- the configuration file

A configuration says where the database is, whether rebuilds read their rows in
one go, and which lists there are.  Reading checks the form; validation then
refuses sets of lists that could not be built unambiguously.  Lists are checked in
order, and each for an empty name, a blank in its name, a name that an earlier list
has, and an empty pattern, in that order; the first fault counts.
-/
import NetRegistry.Document.Yaml.Node
import NetRegistry.Error
import NetRegistry.Listing.Codec
import NetRegistry.Log
import NetRegistry.Store.Session
import NetRegistry.Text.Blank

namespace NetRegistry

set_option autoImplicit false

structure Config where
  /-- The database file. -/
  database : String
  /-- Whether the rows of a rebuild are read before the first is used. -/
  buffered : Bool
  lists : List Definition
deriving DecidableEq

namespace Config

/-- The database file where none is configured. -/
def defaultDatabase : String := "rackradar.db"

/-- The configuration that an empty document gives. -/
def default : Config := ⟨defaultDatabase, false, []⟩

/-- How rebuilds read their rows. -/
def fetchMode (c : Config) : FetchMode := .ofBuffered c.buffered

/-- The first list of a given name. -/
def list? (c : Config) (name : String) : Option Definition := c.lists.find? (·.name == name)

/-- The position of the first list of a given name. -/
def listIndex? (c : Config) (name : String) : Option Nat := c.lists.findIdx? (·.name == name)

/-! ## Reading and writing -/

section Read

variable {N : Type} [Dialect N]

/-- Read the part on the database. -/
def readDatabase? (n : N) : Option String := do
  let parts ← Dialect.record? ["path"] n
  Dialect.withDefault? defaultDatabase Dialect.text? "path" parts

def readRebuild? (n : N) : Option Bool := do
  let parts ← Dialect.record? ["buffer_results"] n
  Dialect.withDefault? false Dialect.flag? "buffer_results" parts

def read? (n : N) : Option Config := do
  let parts ← Dialect.record? ["database", "rebuild", "lists"] n
  let database ← Dialect.withDefault? defaultDatabase readDatabase? "database" parts
  let buffered ← Dialect.withDefault? false readRebuild? "rebuild" parts
  let lists ← Dialect.withDefault? [] (Dialect.list? Definition.read?) "lists" parts
  return ⟨database, buffered, lists⟩

end Read

def toJson (c : Config) : Json :=
  .object [
    ("database", .object [("path", .string c.database)]),
    ("rebuild", .object [("buffer_results", .bool c.buffered)]),
    ("lists", .array (c.lists.map Definition.toJson))]

/-! ## Validation -/

/-- Whether some pattern of the filters is empty. -/
def hasEmptyPattern (p : Filters) : Bool := p.entries.any fun e => e.2.any String.isEmpty

/-- The fault of a list that follows lists of the given names. -/
def fault? (earlier : List String) (d : Definition) : Option ConfigError :=
  if (Text.trim d.name.toList).isEmpty then some .emptyName
  else if d.name.toList.any Text.isBlank then some (.blankInName d.name)
  else if earlier.contains d.name then some (.duplicateList d.name)
  else if hasEmptyPattern d.wanted || hasEmptyPattern d.ignored then some (.emptyPattern d.name)
  else none

/-- The first fault of lists that follow lists of the given names. -/
def firstFault? (earlier : List String) : List Definition → Option ConfigError
  | [] => none
  | d :: rest =>
      match fault? earlier d with
      | some e => some e
      | none => firstFault? (d.name :: earlier) rest

/-- Refuse lists that could not be built unambiguously. -/
def validate (c : Config) : Except Error Unit :=
  match firstFault? [] c.lists with
  | none => .ok ()
  | some e => .error (.config e)

/-- Validate what was read, or give the error of a document that does not fit. -/
def checked (unfit : Error) : Option Config → Except Error Config
  | none => .error unfit
  | some c => do
      c.validate
      return c

def ofYaml (text : String) : Except Error Config :=
  checked .yaml ((Yaml.Node.parse? text).bind read?)

def ofJson (j : Json) : Except Error Config := checked .json (read? j)

/-- Read a configuration from the bytes of a file, which may be missing. -/
def ofFile (content : Option ByteArray) : Except Error Config :=
  match content.bind String.fromUTF8? with
  | none => .error (.file .inaccessible)
  | some text => ofYaml text

end Config

end NetRegistry
