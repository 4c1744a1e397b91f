/-
# Cli.Opening -- databases in files

A database is opened by its name.  The directories above it are created.  The place of
its file is what the parts of the path spell, so a slash at the end does not count
there.  An empty file, or none, is made a new database.

Other files stand beside the file of a database, named after it:

* the journal says what a write was about to change, and is gone after the write; one
  with content is of a write that was cut off, and is taken back when the database is
  opened;
* the log takes what is written before it goes to the file, and has an index; both are
  removed when the database is closed by someone who may write;
* the mark locks a file where files are locked by marks.

A database is kept with a log unless its locator rules that out; one that already is
cannot be opened without.  A frozen file is read as it is, and no other is looked at.
-/
import NetRegistry.Cli.Workspace
import NetRegistry.Store.Locator

namespace NetRegistry.Cli

set_option autoImplicit false

open Text (bytesOf)

/-- How an open database uses a log. -/
inductive LogUse where
  | unused
  /-- The log is removed on closing, with its index if that is a file. -/
  | removed (hasIndex : Bool)
  /-- The log is left on closing, and nothing is written. -/
  | left
deriving DecidableEq

/-- The file of a database, and how it is to be used. -/
structure Site where
  place : Place
  locator : Locator

namespace Site

variable (s : Site)

def journal : Place := s.place.beside "-journal"

def log : Place := s.place.beside "-wal"

/-- Where the index of the log is. -/
def index : Place := s.place.beside "-shm"

def mark : Place := s.place.beside ".lock"

/-- Whether the file is opened for reading. -/
def isForReading : Bool := s.locator.mode == .read

/-- Whether the file is locked by a mark. -/
def isMarked : Bool := s.locator.system == .marked && s.locator.hasLocks && !s.locator.isFrozen

/-- Whether a lock for writing can be had. -/
def mayLock : Bool :=
  !s.isForReading || !s.locator.hasLocks || s.locator.system == .unlocked ||
    s.locator.system == .marked

/-- The files that may be in use. -/
def files : List Place := [s.place, s.journal, s.log, s.index, s.mark]

/-- Take away the log on closing, if that is its use. -/
def leave (use : LogUse) (w : Workspace) : Workspace :=
  match use with
  | .removed true => (w.removeAt s.log).removeAt s.index
  | .removed false => w.removeAt s.log
  | _ => w

end Site

/-- A database that has been opened. -/
structure Opened where
  db : Database
  /-- Where it is kept; one without a site is lost. -/
  site : Option Site
  /-- Whether its tables were made by this opening. -/
  isNew : Bool
  isReadOnly : Bool
  /-- Whether its file says that it is kept with a log. -/
  isLogged : Bool
  log : LogUse
  /-- Whether its file gets what it holds on closing. -/
  isKept : Bool

namespace Opened

/-- A database that is kept nowhere. -/
def transient : Opened := ⟨.empty, none, true, false, false, .unused, false⟩

def ofSite (s : Site) (db : Database) (isNew isLogged : Bool) (log : LogUse) : Opened :=
  let isReadOnly := s.locator.isReadOnly || log == .left
  ⟨db, some s, isNew, isReadOnly, isLogged, log, !isReadOnly⟩

/-- What becomes of an open database when the file at a place is emptied: why it cannot be read any
more, if it cannot, and what is left of it.  Tables that are only in the log outlive the file, and
are lost with the log. -/
def emptied (place : Place) (o : Opened) : Option StorageError × Opened :=
  match o.site with
  | none => (none, o)
  | some s =>
      let isInLog := o.isNew && o.log != .unused
      if place = s.place then
        if isInLog then (none, o)
        else
          let e := if s.locator.isFrozen || o.log != .unused then StorageError.malformed
            else .noSuchTable "list"
          (some e, { o with isKept := false })
      else if place = s.log && isInLog then (none, { o with log := .left, isKept := false })
      else if place = s.mark && s.isMarked then (some .locked, o)
      else (none, o)

/-- Close a database: an open transaction is lost, and the rest is kept in its file. -/
def close (o : Opened) (w : Workspace) : Workspace :=
  match o.site with
  | none => w
  | some s =>
      let w := s.leave o.log w
      if o.isKept then w.put s.place (.database o.db.reopened o.isLogged) else w

end Opened

/-- A step of opening a database. -/
abbrev Opening (α : Type) : Type := Fallible Workspace Error α

namespace Opening

variable {α : Type}

def refuse (e : StorageError) : Opening α := .fail (.storage e)

def look (place : Place) : Opening (Option Entry) := fun w => (.ok (w.entry? place), w)

def put (place : Place) (e : Entry) : Opening Unit := .modify (·.put place e)

def remove (place : Place) : Opening Unit := .modify (·.removeAt place)

end Opening

namespace Entry

/-- Whether a database may be made of the entry. -/
def isVacant : Entry → Bool
  | .file content => content.isEmpty
  | .device _ => true
  | _ => false

/-- The first byte, if the entry can be read; zero where there is none. -/
def firstByte? : Entry → Option UInt8
  | .file content => some (content.toList.headD 0)
  | .database _ _ => some 0x53
  | .blank => some 0x53
  | .directory => none
  | .device _ => some 0

end Entry

namespace Site

open Opening

variable (s : Site)

/-- Set the mark, which must not be there already. -/
def setMark : Opening Unit := do
  if s.isMarked then
    if !s.mark.isNamed then refuse .unreadable
    else if (← look s.mark).isSome then refuse .locked
    else pure ()
  else pure ()

/-- Take back a write that was cut off.  A file without content has nothing to take back. -/
def settleJournal (isVacant : Bool) : Opening Unit := do
  match ← look s.journal with
  | none => pure ()
  | some e =>
      if e.isEmptyFile then pure ()
      else if isVacant then if s.mayLock then remove s.journal else pure ()
      else
        match e.firstByte? with
        | none => refuse .unreadable
        | some b =>
            if b = 0 then pure ()
            else if s.isForReading then refuse .readOnly
            else remove s.journal

/-- The first bytes of the index of a log: the number of its format, which is no text. -/
def indexBytes : ByteArray := ⟨#[0x18, 0xE2, 0x2D, 0x00]⟩

/-- Use a log with an index.  Where the index cannot be written, nothing can. -/
def useIndex : Opening LogUse := do
  match ← look s.index with
  | some .directory => return .left
  | some _ => if s.locator.isIndexFixed then return .left else put s.index (.file indexBytes)
  | none =>
      if s.locator.isIndexFixed then refuse .cannotOpenLog else put s.index (.file indexBytes)
  return if s.isForReading then .left else .removed true

/-- Use a log, which is created if it is missing. -/
def useLog : Opening LogUse := do
  match ← look s.log with
  | some .directory => refuse .cannotOpenLog
  | some _ => pure ()
  | none => put s.log (.file .empty)
  if s.locator.system == .single && !s.isForReading then return .removed false else s.useIndex

/-- Use the log that is there, if one is that has content.  A file without content has no log. -/
def findLog (isVacant : Bool) : Opening LogUse := do
  match ← look s.log with
  | none => return .unused
  | some e =>
      if e.isEmptyFile then return .unused
      else if isVacant then
        match e with
        | .directory => refuse .unreadable
        | _ => do
            remove s.log
            return .unused
      else if s.locator.keepsLog then s.useLog
      else refuse .cannotOpenLog

/-- What has to be done before the file is read; the answer is the use of the log. -/
def settle (isVacant : Bool) : Opening LogUse := do
  if s.locator.isFrozen then return .unused
  else
    s.setMark
    s.settleJournal isVacant
    s.findLog isVacant

/-- Write the file, with a journal that is gone afterwards. -/
def writeFile (e : Entry) : Opening Unit := do
  if s.locator.isReadOnly then refuse .readOnly
  else
    match ← look s.place with
    | some (.device .full) => refuse .noRoom
    | some (.device _) => refuse .unreadable
    | _ =>
        if !s.journal.isNamed then refuse .cannotOpenLog
        else
          match ← look s.journal with
          | some .directory => refuse .cannotOpenLog
          | _ => do
              remove s.journal
              put s.place e

/-- The use of the log of a database that is kept with one. -/
def logOf (found : LogUse) : Opening LogUse := do
  if found != .unused || s.locator.isFrozen then return found
  else if s.locator.keepsLog then s.useLog
  else refuse .cannotOpenLog

/-- Open a database without tables: they are made. -/
def openBlank (found : LogUse) : Opening Opened := do
  let log ← s.logOf found
  let opened := Opened.ofSite s .empty true true log
  if opened.isReadOnly then refuse .readOnly else return opened

/-- Open a database that is kept without a log. -/
def openUnlogged (found : LogUse) (db : Database) : Opening Opened := do
  if found == .unused && s.locator.keepsLog then
    s.writeFile (.database db true)
    return .ofSite s db false true (← s.useLog)
  else return .ofSite s db false false found

def create : Opening Opened := do
  if s.locator.keepsLog then
    s.writeFile .blank
    s.openBlank .unused
  else
    s.writeFile (.database .empty false)
    return .ofSite s .empty true false .unused

/-- Open what is at the place. -/
def openFile (e : Entry) : Opening Opened := do
  let found ← s.settle e.isVacant
  match e with
  | .database db true => return .ofSite s db false true (← s.logOf found)
  | .database db false => s.openUnlogged found db
  | .blank => s.openBlank found
  | .directory => refuse .unreadable
  | .device _ => s.create
  | .file content =>
      if content.isEmpty then s.create
      else do
        Fallible.modify (s.leave found)
        refuse .notADatabase

end Site

namespace Workspace

variable (w : Workspace)

/-- Whether the place behind a name cannot be looked at, because there is no directory to look into
or because the name is none. -/
def isBarred (place : Place) (part : List UInt8) : Bool :=
  match w.entry? place with
  | some .directory => !Place.isName part
  | some _ => true
  | none => false

/-- Go on by parts of a path as they are spelled, over places that can be looked at. -/
def spell? : Place → List (List UInt8) → Option Place
  | place, [] => some place
  | place, part :: rest =>
      if !Place.isHere part && !Place.isBack part && w.isBarred place part then none
      else spell? (place.go part) rest

/-- Most bytes of the path of a database, and of what is written behind it. -/
def maxDatabasePath : Nat := 512

/-- Most bytes of the name of a database in memory, and of what is written behind it. -/
def maxMemoryPath : Nat := 1024

/-- Most bytes that are written behind the name of a database to name a file beside it. -/
def longestSuffix : Nat := 8

/-- The place of the file of a database. -/
def databasePlace? (path : List UInt8) : Option Place :=
  (w.spell? (.start w.home path) (Place.parts path)).filter fun place =>
    place.size + longestSuffix ≤ maxDatabasePath

end Workspace

namespace Opening

/-- The names in a path, and the parts that go back. -/
def namesOf (path : List UInt8) : List (List UInt8) :=
  (Place.parts path).filter fun part => !Place.isHere part

/-- Create the directories above the file of a database. -/
def makeParents (name : String) : Opening Unit := fun w =>
  let path := bytesOf name
  let names := (namesOf path).dropLast
  let above := (List.range names.length).map fun n => names.take (n + 1)
  match w.makeDirectories (.start w.home path) above with
  | (true, w) => (.ok (), w)
  | (false, w) => (.error (.file .inaccessible), w)

/-- Open the file at a place, which is created if it may be. -/
def openAt (name : String) (s : Site) : Opening Opened := do
  match ← look s.place with
  | some (.device .out) => refuse (.cannotOpen name)
  | some (.device .err) => refuse (.cannotOpen name)
  | some .directory =>
      if s.isForReading then s.openFile .directory else refuse (.cannotOpen name)
  | some e => s.openFile e
  | none =>
      if s.locator.mode == .create && s.place.isNamed &&
          (← Fallible.get).isDirectory s.place.dropLast then
        put s.place (.file .empty)
        s.openFile (.file .empty)
      else refuse (.cannotOpen name)

/-- Open the file that a locator leads to. -/
def openSite (name : String) (l : Locator) : Opening Opened := do
  let w ← Fallible.get
  match w.databasePlace? l.path with
  | none => refuse (.cannotOpen name)
  | some place =>
      if l.modelFile.any fun path => !w.leads path then refuse .unreadable
      else openAt name ⟨place, l⟩

/-- Open a database that has no file. -/
def openTransient (name : String) (l : Locator) : Opening Opened :=
  if l.hasFile && Workspace.maxMemoryPath < l.path.length + Workspace.longestSuffix then
    refuse (.cannotOpen name)
  else if l.isReadOnly then refuse .readOnly
  else pure .transient

/-- Open the database of a name. -/
def openDatabase (name : String) : Opening Opened := do
  makeParents name
  let before := name.toList.takeWhile (· != '\x00')
  if before.length < name.length then
    refuse (.zeroInName (String.ofList before).utf8ByteSize)
  else
    let l ← Fallible.ofExcept ((Locator.ofName name).mapError .storage)
    if l.isTransient then openTransient name l else openSite name l

end Opening

end NetRegistry.Cli
