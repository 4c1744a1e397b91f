/-
# Cli.Workspace -- the files that commands work on

A workspace maps places to files and directories; a place is the way to it from the
root, a name for each directory.  Names and paths are sequences of bytes.  Commands
run in one directory, its home, which is always there with the directories above it.

The parts of a path are walked from the root or from home, one directory after the
other (`Workspace.reach?`): a part that is empty or `.` stays where it is, `..` goes
back, any other goes into the directory, and each needs a directory to start from.
So a path that ends in a slash leads to directories only, and one that goes through a
file leads nowhere.
-/
import NetRegistry.Store.Archive
import NetRegistry.Text.Bytes

namespace NetRegistry.Cli

set_option autoImplicit false

open Text (bytesOf)

/-- A file that stands for something else. -/
inductive Device where
  /-- Keeps nothing. -/
  | null
  /-- Has no room. -/
  | full
  /-- The first stream of the command. -/
  | out
  /-- The second stream of the command. -/
  | err
deriving DecidableEq

inductive Entry where
  | file (content : ByteArray)
  /-- A database, and whether it is kept with a write-ahead log. -/
  | database (db : Database) (isLogged : Bool)
  /-- A database that is kept with a log and has no tables yet. -/
  | blank
  | directory
  | device (d : Device)

namespace Entry

/-- What a file holds: a database if it is the text of one. -/
def ofBytes (bytes : ByteArray) : Entry :=
  match (String.fromUTF8? bytes).bind Database.ofArchive? with
  | some db => .database db true
  | none => .file bytes

/-- The bytes to be kept, if the entry keeps any. -/
def bytes? : Entry → Option ByteArray
  | .file content => some content
  | .database db _ => some db.archive.toUTF8
  | .blank => some Database.empty.archive.toUTF8
  | .directory => none
  | .device _ => none

/-- What is read from the entry, if it can be read as a file of text. -/
def content? : Entry → Option ByteArray
  | .file content => some content
  | .database _ _ => none
  | .blank => none
  | .directory => none
  | .device _ => some .empty

/-- Whether the entry is a file without content. -/
def isEmptyFile : Entry → Bool
  | .file content => content.isEmpty
  | _ => false

end Entry

/-! ## Places -/

/-- The names on the way from the root. -/
abbrev Place : Type := List (List UInt8)

namespace Place

/-- The byte between the parts of a path. -/
def slash : UInt8 := 0x2F

/-- Most bytes of a name. -/
def maxName : Nat := 255

/-- Whether a directory may have an entry of that name. -/
def isName (part : List UInt8) : Bool := part.length ≤ maxName && !part.contains 0

/-- Whether a part of a path stays where it is. -/
def isHere (part : List UInt8) : Bool := part.isEmpty || part == bytesOf "."

/-- Whether a part of a path goes back. -/
def isBack (part : List UInt8) : Bool := part == bytesOf ".."

def parts (path : List UInt8) : List (List UInt8) := path.splitOn slash

/-- Go on by one part of a path. -/
def go (p : Place) (part : List UInt8) : Place :=
  if isHere part then p else if isBack part then p.dropLast else p ++ [part]

/-- Number of bytes of the path from the root. -/
def size (p : Place) : Nat := p.foldl (fun n name => n + name.length + 1) 0

/-- The path from the root, if it is a text. -/
def text? (p : Place) : Option String :=
  String.fromUTF8? ⟨(slash :: [slash].intercalate p).toArray⟩

/-- The place of a name that differs in what stands at its end. -/
def beside (suffix : String) (p : Place) : Place :=
  p.dropLast ++ [p.getLastD [] ++ bytesOf suffix]

/-- The name at a place can be one. -/
def isNamed (p : Place) : Bool := isName (p.getLastD [])

/-- Where a path starts, from a home. -/
def start (home : Place) (path : List UInt8) : Place :=
  if path.head? = some slash then [] else home

/-- The places on the way of a path. -/
def visited (home : Place) (path : List UInt8) : List Place :=
  (List.range (parts path).length).map fun n =>
    ((parts path).take (n + 1)).foldl go (start home path)

/-- The place of a text, with slashes between the names. -/
def ofText (text : String) : Place := (parts (bytesOf text)).foldl go []

end Place

/-! ## Files -/

/-- Files and directories by place. -/
structure Workspace where
  home : Place
  entries : List (Place × Entry)

namespace Workspace

/-- The devices, by their names from the root. -/
def devices : List (String × Device) :=
  [("dev/null", .null), ("dev/full", .full), ("dev/stdin", .null), ("dev/stdout", .out),
    ("dev/stderr", .err)]

/-- Nothing but devices, and the directories that are always there. -/
def empty (home : Place) : Workspace where
  home
  entries :=
    (Place.ofText "dev", .directory) ::
      devices.map fun (name, d) => (Place.ofText name, .device d)

variable (w : Workspace)

def entry? (place : Place) : Option Entry :=
  if place.isPrefixOf w.home then some .directory
  else (w.entries.find? (·.1 == place)).map (·.2)

def put (place : Place) (e : Entry) : Workspace :=
  { w with entries := (w.entries.filter (·.1 != place)) ++ [(place, e)] }

/-- Take away what is at a place. -/
def remove (place : Place) : Workspace :=
  { w with entries := w.entries.filter (·.1 != place) }

/-- Whether a directory is at a place. -/
def isDirectory (place : Place) : Bool :=
  match w.entry? place with
  | some .directory => true
  | _ => false

/-- Take away what is at a place, unless it is a directory. -/
def removeAt (place : Place) : Workspace := if w.isDirectory place then w else w.remove place

/-- Walk parts of a path from a place; each needs a directory to start from. -/
def follow? : Place → List (List UInt8) → Option Place
  | place, [] => some place
  | place, part :: rest =>
      if w.isDirectory place && Place.isName part then follow? (place.go part) rest else none

/-- Most bytes of a path, and one more. -/
def maxPath : Nat := 4096

/-- The place that a path leads to; there may be nothing, but there is a directory to hold it. -/
def reach? (path : List UInt8) : Option Place :=
  if path.isEmpty || maxPath ≤ path.length then none
  else w.follow? (.start w.home path) (Place.parts path)

/-- Whether a path leads to something. -/
def leads (path : List UInt8) : Bool := ((w.reach? path).bind w.entry?).isSome

def content? (path : String) : Option ByteArray :=
  (w.reach? (bytesOf path)).bind fun place => (w.entry? place).bind Entry.content?

/-- Take away the file at a path. -/
def removeFile (path : String) : Workspace :=
  match w.reach? (bytesOf path) with
  | some place => w.removeAt place
  | none => w

/-- The place to write a file to. -/
def target? (path : String) : Option Place :=
  (w.reach? (bytesOf path)).filter fun place => !w.isDirectory place

/-- Create a directory where parts lead from a place, unless there is one. -/
def makeDirectory? (start : Place) (parts : List (List UInt8)) : Option Workspace :=
  match w.follow? start parts with
  | none => none
  | some place =>
      match w.entry? place with
      | some .directory => some w
      | some _ => none
      | none => some (w.put place .directory)

/-- Create directories one after the other, up to the first that cannot be. -/
def makeDirectories (w : Workspace) (start : Place) : List (List (List UInt8)) → Bool × Workspace
  | [] => (true, w)
  | parts :: rest =>
      match w.makeDirectory? start parts with
      | none => (false, w)
      | some w => makeDirectories w start rest

/-- What is there now and was not there before, or was something else. -/
def changes (before : Workspace) : List (Place × Entry) :=
  w.entries.filter fun (place, e) => (before.entry? place).map Entry.bytes? != some e.bytes?

/-- The places where something was before and nothing is now. -/
def removals (before : Workspace) : List Place :=
  (before.entries.map (·.1)).filter fun place => (w.entry? place).isNone

end Workspace

end NetRegistry.Cli
