/-
# Store.Session -- the store as its callers drive it

A session is a database together with what a caller can watch: the calls made so
far and the log.  A `FaultPlan` says which calls fail: call number `n` of a
method fails, before it does anything, with the error that the plan has for that
method and that number.  `Session.call` is the one place where a call is recorded
and the plan consulted; everything else is built from it.

A scan reads its rows first and then hands ranges to a sink one at a time.  It
either decodes each row when its turn comes (`stream`) or all of them before the
first is handed out (`buffered`); an inverted range fails in its turn in both.  The
rows of a union are decoded one by one as well, so that the blocks before one that
cannot be have reached the sink.
-/
import NetRegistry.Log
import NetRegistry.Store.Write

namespace NetRegistry

set_option autoImplicit false

/-- How the rows of a scan are read. -/
inductive FetchMode where
  | stream
  | buffered
deriving DecidableEq

namespace FetchMode

def name : FetchMode → String
  | .stream => "Stream"
  | .buffered => "Buffered"

/-- The mode that buffers or does not. -/
def ofBuffered (buffered : Bool) : FetchMode := if buffered then .buffered else .stream

end FetchMode

/-- The calls that a store answers. -/
inductive Method where
  | begin
  | commit
  | rollback
  | ensureList
  | clearList
  | populateMembership
  | scanMembership
  | insertUnionBlock
  | clearCoverage
  | scanNetblocks
  | insertCoverageBlock
deriving DecidableEq

namespace Method

def all : List Method :=
  [.begin, .commit, .rollback, .ensureList, .clearList, .populateMembership, .scanMembership,
    .insertUnionBlock, .clearCoverage, .scanNetblocks, .insertCoverageBlock]

def name : Method → String
  | .begin => "begin"
  | .commit => "commit"
  | .rollback => "rollback"
  | .ensureList => "ensure_list"
  | .clearList => "clear_list"
  | .populateMembership => "populate_membership"
  | .scanMembership => "scan_membership"
  | .insertUnionBlock => "insert_union_block"
  | .clearCoverage => "clear_coverage"
  | .scanNetblocks => "scan_netblocks"
  | .insertCoverageBlock => "insert_coverage_block"

/-- The method of a given name. -/
def ofName? (s : String) : Option Method := all.find? (·.name == s)

/-- Whether the method writes to the tables. -/
def writes : Method → Bool
  | .ensureList | .clearList | .populateMembership | .insertUnionBlock => true
  | .clearCoverage | .insertCoverageBlock => true
  | .begin | .commit | .rollback | .scanMembership | .scanNetblocks => false

end Method

/-- A call with its arguments. -/
inductive Call where
  | begin
  | commit
  | rollback
  | ensureList (name : String)
  | clearList (f : Family) (list : RowId)
  | populateMembership (f : Family) (list : RowId) (p : Predicate)
  | scanMembership (f : Family) (list : RowId) (mode : FetchMode)
  | insertUnionBlock {f : Family} (list : RowId) (b : Block f)
  | clearCoverage (f : Family)
  | scanNetblocks (f : Family)
  | insertCoverageBlock {f : Family} (b : Block f)

namespace Call

def method : Call → Method
  | .begin => .begin
  | .commit => .commit
  | .rollback => .rollback
  | .ensureList _ => .ensureList
  | .clearList _ _ => .clearList
  | .populateMembership _ _ _ => .populateMembership
  | .scanMembership _ _ _ => .scanMembership
  | .insertUnionBlock _ _ => .insertUnionBlock
  | .clearCoverage _ => .clearCoverage
  | .scanNetblocks _ => .scanNetblocks
  | .insertCoverageBlock _ => .insertCoverageBlock

/-- The arguments as a trace shows them. -/
def arguments : Call → String
  | .begin => ""
  | .commit => ""
  | .rollback => ""
  | .ensureList name => name
  | .clearList f list => s!"{f.name} {list}"
  | .populateMembership f list p => s!"{f.name} {list} {p.text}"
  | .scanMembership f list mode => s!"{f.name} {list} {mode.name}"
  | .insertUnionBlock list b => s!"{list} {b.text}"
  | .clearCoverage f => f.name
  | .scanNetblocks f => f.name
  | .insertCoverageBlock b => b.text

/-- The call as a trace shows it. -/
def text (c : Call) : String :=
  if c.arguments.isEmpty then c.method.name else c.method.name ++ " " ++ c.arguments

end Call

/-- What calls fail with, if they do, by method and number of the call, counted from zero. -/
abbrev FaultPlan : Type := Method → Nat → Option Error

namespace FaultPlan

/-- No call fails. -/
def none : FaultPlan := fun _ _ => Option.none

/-- The calls in a list fail. -/
def ofList (faults : List (Method × Nat)) : FaultPlan := fun m n =>
  if faults.contains (m, n) then some (.rejected (.simulated m.name)) else Option.none

/-- Every call that writes fails. -/
def readOnly : FaultPlan := fun m _ => if m.writes then some (.storage .readOnly) else Option.none

end FaultPlan

/-- A database, the calls made on it and the log, both newest first. -/
structure Session where
  db : Database
  calls : List Call
  log : List LogLine

namespace Session

/-- A session on a database in which nothing has happened yet. -/
def on (db : Database) : Session := ⟨db, [], []⟩

/-- Add a line to the log. -/
def noted (s : Session) (line : LogLine) : Session := { s with log := line :: s.log }

/-- Add lines to the log, oldest first. -/
def notedAll (s : Session) (lines : List LogLine) : Session := lines.foldl noted s

/-- Number of calls of a method made so far. -/
def callCount (s : Session) (m : Method) : Nat := s.calls.countP (·.method == m)

variable {α τ ε : Type}

/-- Add a line to the log. -/
def note (line : LogLine) : Fallible Session ε Unit := .modify (·.noted line)

/-- Work on the database, without a call being recorded. -/
def onDatabase (x : Fallible Database StorageError α) : Fallible Session Error α := fun s =>
  let (r, db) := x.run s.db
  (r.mapError .storage, { s with db := db })

/-- Run a statement, without a call being recorded. -/
def exec (stmt : Statement α) : Fallible Session Error α := onDatabase (Database.exec stmt)

/-- Read the tables, without a call being recorded. -/
def query (q : Tables → Except StorageError α) : Fallible Session Error α :=
  onDatabase (Database.query q)

/-- Make a call: record it, then fail if the plan says so, else work on the database. -/
def call (plan : FaultPlan) (c : Call) (x : Fallible Database StorageError α) :
    Fallible Session Error α := fun s =>
  let recorded := { s with calls := c :: s.calls }
  match plan c.method (s.callCount c.method) with
  | some e => (.error e, recorded)
  | none => (onDatabase x).run recorded

variable (plan : FaultPlan)

def begin : Fallible Session Error Unit := call plan .begin Database.begin

def commit : Fallible Session Error Unit := call plan .commit Database.commit

def rollback : Fallible Session Error Unit := call plan .rollback Database.rollback

/-- The id of a list, which is added if need be. -/
def ensureList (name : String) : Fallible Session Error RowId :=
  call plan (.ensureList name) (Database.exec (Write.ensureList name))

/-- Delete the members and the union of a list. -/
def clearList (f : Family) (list : RowId) : Fallible Session Error Unit :=
  call plan (.clearList f list) (Database.exec (Write.clearList f list))

/-- Add the netblocks that satisfy a predicate to a list. -/
def populateMembership (f : Family) (list : RowId) (p : Predicate) : Fallible Session Error Nat :=
  call plan (.populateMembership f list p) (Database.exec (Write.populate f list p))

/-- Add a block to the union of a list. -/
def insertUnionBlock {f : Family} (list : RowId) (b : Block f) : Fallible Session Error Unit :=
  call plan (.insertUnionBlock list b) (Database.exec (Write.insertUnionBlock list b))

def clearCoverage (f : Family) : Fallible Session Error Unit :=
  call plan (.clearCoverage f) (Database.exec (Write.clearCoverage f))

/-- Add a block to the coverage union. -/
def insertCoverageBlock {f : Family} (b : Block f) : Fallible Session Error Unit :=
  call plan (.insertCoverageBlock b) (Database.exec (Write.insertCoverageBlock b))

/-! ## Scans -/

/-- A scanned range, refused when inverted. -/
def checked {f : Family} (r : Range f) : Except Error (Range f) :=
  (Range.of? r.first r.last).mapError .range

/-- Hand decoded ranges to a sink; the answer is their number. -/
def feed {f : Family} (sink : Range f → Fallible τ Error Unit) :
    List (Range f) → Fallible τ Error Nat
  | [] => pure 0
  | r :: rest => do
      sink (← Fallible.ofExcept (checked r))
      let n ← feed sink rest
      return n + 1

/-- Decode each row when its turn comes and hand it to a sink. -/
def stream (f : Family) (sink : Range f → Fallible τ Error Unit) :
    List (Cell × Cell) → Fallible τ Error Nat
  | [] => pure 0
  | row :: rest => do
      let r ← Fallible.ofExcept ((Read.bounds f row).mapError .storage)
      sink (← Fallible.ofExcept (checked r))
      let n ← stream f sink rest
      return n + 1

/-- Decode rows up to the first that cannot be. -/
def decodeAll (f : Family) : List (Cell × Cell) → Except StorageError (List (Range f))
  | [] => .ok []
  | row :: rest => do
      let r ← Read.bounds f row
      return r :: (← decodeAll f rest)

/-- Hand the ranges of rows to a sink. -/
def scanRows (f : Family) (mode : FetchMode) (rows : List (Cell × Cell))
    (sink : Range f → Fallible τ Error Unit) : Fallible τ Error Nat :=
  match mode with
  | .stream => stream f sink rows
  | .buffered => do
      let ranges ← Fallible.ofExcept ((decodeAll f rows).mapError .storage)
      feed sink ranges

/-- Hand the ranges of the members of a list to a sink. -/
def scanMembership (f : Family) (list : RowId) (mode : FetchMode)
    (sink : Range f → Fallible (τ × Session) Error Unit) : Fallible (τ × Session) Error Nat := do
  let rows ← Fallible.onSecond
    (call plan (.scanMembership f list mode) (Database.query fun t => .ok (t.memberRows f list)))
  scanRows f mode rows sink

/-- Hand the ranges of all netblocks to a sink. -/
def scanNetblocks (f : Family) (sink : Range f → Fallible (τ × Session) Error Unit) :
    Fallible (τ × Session) Error Nat := do
  let rows ← Fallible.onSecond
    (call plan (.scanNetblocks f) (Database.query fun t => .ok (t.netblockRows f)))
  scanRows f .stream rows sink

/-- Decode each row of a union when its turn comes and hand it to a sink; the answer is the number
of blocks. -/
def feedBlocks (f : Family) (sink : Block f → Fallible τ Error Unit) :
    List BlockRow → Fallible τ Error Nat
  | [] => pure 0
  | row :: rest => do
      sink (← Fallible.ofExcept ((Read.block f row).mapError .storage))
      let n ← feedBlocks f sink rest
      return n + 1

/-- Hand the union of a list to a sink in address order. -/
def scanUnion (f : Family) (list : RowId)
    (sink : Block f → Fallible (τ × Session) Error Unit) : Fallible (τ × Session) Error Nat := do
  let rows ← Fallible.onSecond (query fun t => .ok (t.unionRows f list))
  feedBlocks f sink rows

end Session

end NetRegistry
