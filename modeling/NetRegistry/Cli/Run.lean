/-
# Cli.Run -- what the commands do

Every command reads the configuration; all but `order` then open the database.
A command prints to two streams, writes to the log and ends with a code: 0 when it
succeeded, 1 when it failed, 2 when the command line does not follow the rules.
What was printed before a failure stays printed, and a failure is told on the
second stream.

An export to a file creates the file, or empties it, before the list is looked up,
and what was written of the list gets into the file even if the rest cannot be read.
If that is the file of the database itself, nothing can be read from it any more.
-/
import NetRegistry.Cli.Arguments
import NetRegistry.Cli.Opening
import NetRegistry.Config
import NetRegistry.Report
import NetRegistry.Service

namespace NetRegistry.Cli

set_option autoImplicit false

open Text (bytesOf quoted)

/-- What a command leaves: its code, what it printed and what it logged. -/
structure Output where
  code : Nat
  out : String
  err : String
  log : List LogLine
deriving DecidableEq

inductive CommandError where
  | error (e : Error)
  /-- Lists were rolled back. -/
  | listsFailed (count : Nat)

def CommandError.text : CommandError → String
  | .error e => e.text
  | .listsFailed n => s!"{n} lists failed to rebuild"

/-- The name and version of the program. -/
def versionText : String := "rrctl 0.1.0"

def usageText : String :=
  "Usage: rrctl [--config FILE] [--json] COMMAND\n" ++
  "Commands:\n" ++
  "  init\n" ++
  "  rebuild [--coverage] [--buffered]\n" ++
  "  order\n" ++
  "  export LIST [--output FILE]\n" ++
  "  lookup ADDRESS [--list NAME]\n" ++
  "  coverage [--rebuild]\n"

/-- The state of a command: the files, the open database, why it cannot be read any more if it
cannot, and what was printed and logged. -/
structure State where
  files : Workspace
  opened : Opened
  loss : Option StorageError
  out : String
  err : String
  log : List LogLine

/-- The state before a command does anything. -/
def State.initial (files : Workspace) (opened : Opened) (log : List LogLine) : State :=
  ⟨files, opened, none, "", "", log⟩

abbrev Act (α : Type) : Type := Fallible State CommandError α

namespace Act

variable {α : Type}

def print (text : String) : Act Unit := .modify fun s => { s with out := s.out ++ text }

/-- Print a line to the first stream. -/
def printLine (text : String) : Act Unit := print (text ++ "\n")

/-- Print a line to the second stream. -/
def warnLine (text : String) : Act Unit := .modify fun s => { s with err := s.err ++ text ++ "\n" }

def note (lines : List LogLine) : Act Unit := .modify fun s => { s with log := s.log ++ lines }

def printJson (j : Json) : Act Unit := printLine j.pretty

/-- The failure of a request on a database without an import. -/
def failure : Failure → CommandError
  | .error e => .error e
  | .misuse _ => .error (.file .inaccessible)
  | .noImport => .error (.file .inaccessible)

/-- Make a request of the open database. -/
def request (r : Request α) : Act α := fun s =>
  match s.loss with
  | some e => (.error (.error (.storage e)), s)
  | none =>
      let (response, service) := Service.handle r ⟨s.opened.db, none⟩
      (response.result.mapError failure,
        { s with opened := { s.opened with db := service.db }, log := s.log ++ response.log })

/-- The calls that fail on the open database. -/
def faults : Act FaultPlan := fun s =>
  (.ok (if s.opened.isReadOnly then .readOnly else .none), s)

/-- Write a text to a device. -/
def writeDevice (text : String) : Device → Act Unit
  | .null => pure ()
  | .full => if text.isEmpty then pure () else .fail (.error (.file .inaccessible))
  | .out => print text
  | .err => .modify fun s => { s with err := s.err ++ text }

/-- Write a text to the file at a place, which replaces what was there. -/
def writeAt (place : Place) (text : String) : Act Unit := fun s =>
  match s.files.entry? place with
  | some (.device d) => (writeDevice text d).run s
  | _ =>
      let (loss, opened) := s.opened.emptied place
      (.ok (), { s with
        files := s.files.put place (.file text.toUTF8), opened, loss := s.loss <|> loss })

/-- Write a text to a file. -/
def writeFile (path text : String) : Act Unit := fun s =>
  match s.files.target? path with
  | some place => (writeAt place text).run s
  | none => (.error (.error (.file .inaccessible)), s)

/-- The id of a list, which has to exist. -/
def listId (name : String) : Act RowId := do
  match ← request (.listByName name) with
  | some id => return id
  | none => .fail (.error (.unknownList name))

end Act

open Act

/-! ## Texts -/

/-- Pad a text on the right to a width in characters. -/
def padRight (width : Nat) (s : String) : String :=
  s ++ String.ofList (List.replicate (width - s.length) ' ')

/-- Pad a text on the left to a width in characters. -/
def padLeft (width : Nat) (s : String) : String :=
  String.ofList (List.replicate (width - s.length) ' ') ++ s

/-- The counts of one family of a list. -/
def familyText (s : FamilyStats) : String :=
  s!"FamilyStats \x7b members: {s.members}, runs: {s.runs}, blocks: {s.blocks} \x7d"

def outcomeText : Outcome → String
  | .committed s =>
      s!"Committed(ListStats \x7b list_id: {s.list}, v4: {familyText s.v4}, " ++
        s!"v6: {familyText s.v6} \x7d)"
  | .rolledBack e => s!"RolledBack \x7b error: {quoted e.text} \x7d"
  | .skipped => "Skipped"

/-- A netblock in three or four lines. -/
def netblockText {f : Family} (n : NetblockInfo f) : String :=
  s!"{n.first.text}-{n.last.text} /{n.prefixLen} ({n.registrar})\n" ++
  s!"  netname: {n.netname}\n" ++
  s!"  descr:   {n.descr}\n" ++
  match n.orgHandle with
  | none => ""
  | some handle =>
      let name := n.orgName.getD ""
      s!"  org:     {handle} {name}\n"

/-- The lines of the build order. -/
def orderLines (unresolved : List String) : (position : Nat) → List String → String
  | _, [] => ""
  | position, name :: rest =>
      let mark := if unresolved.contains name then " (unresolved)" else ""
      padLeft 3 (toString position) ++ ". " ++ name ++ mark ++ "\n" ++
        orderLines unresolved (position + 1) rest

/-! ## Commands -/

/-- Show that the database is ready, and its registrars. -/
def runInit (config : Config) (json : Bool) : Act Unit := do
  let registrars ← request .registrars
  if json then printJson (.array (registrars.map Registrar.toJson))
  else
    printLine s!"Database ready at {quoted config.database}"
    print (String.join (registrars.map fun r =>
      s!"  {r.name} serial {r.serial} (last import {r.lastImport})\n"))

/-- Rebuild every list, and the coverage first when asked to. -/
def rebuildReport (config : Config) (withCoverage : Bool) (mode : FetchMode) :
    Act (Option CoverageStats × Report) := do
  let plan ← faults
  if withCoverage then
    let r ← request (.refresh plan mode config.lists)
    return (r.coverage, r.lists)
  else
    let r ← request (.rebuild plan mode config.lists)
    return (none, r)

/-- Rebuild every list and tell what became of it. -/
def runRebuild (config : Config) (json withCoverage buffered : Bool) : Act Unit := do
  let mode := if buffered then .buffered else config.fetchMode
  let (coverage, report) ← rebuildReport config withCoverage mode
  if json then
    printJson (.object [
      ("coverage", CoverageStats.optionalToJson coverage), ("lists", report.toJson)])
  else
    print (String.join (report.lists.map fun (name, outcome) =>
      padRight 24 name ++ " " ++ outcomeText outcome ++ "\n"))
    printLine (s!"{report.committed} committed, {report.rolledBack} rolled back, " ++
      s!"{report.skipped} skipped")
  if 0 < report.rolledBack then .fail (.listsFailed report.rolledBack) else pure ()

/-- Show the order in which lists are built. -/
def runOrder (config : Config) (json : Bool) : Act Unit := do
  let resolution := resolve config.lists
  note (resolution.notes.map (·.line))
  let names := resolution.order.map (·.name)
  if json then
    printJson (.object [
      ("order", .array (names.map .string)),
      ("unresolved", .array (resolution.unresolved.map .string))])
  else print (orderLines resolution.unresolved 1 names)

/-- The log line of an export. -/
def exportedLine (lines : Nat) : LogLine := ⟨.debug, s!"exported {lines} lines"⟩

/-- Number of bytes that are held back before they are written to a file. -/
def heldBack : Nat := 8192

/-- Write what there is of an export that stopped with an error.  A file that refuses it is noticed
only when more was to be written than is held back. -/
def writeRest (path text : String) (e : Error) : Act Unit := do
  match ← Fallible.attempt (writeFile path text) with
  | .error refused => if heldBack < text.utf8ByteSize then .fail refused else .fail (.error e)
  | .ok () => .fail (.error e)

/-- Write the union of a list to a file or to the first stream. -/
def runExport (list : String) : (output : Option String) → Act Unit
  | none => do
      let exported ← request (.exportList list none)
      print exported.written
      note [exportedLine (← Fallible.ofExcept (exported.result.mapError .error))]
  | some path => do
      writeFile path ""
      let exported ← request (.exportList list none)
      match exported.result with
      | .error e => writeRest path exported.written e
      | .ok lines =>
          writeFile path exported.written
          warnLine s!"Wrote {lines} blocks to {quoted path}"
          note [exportedLine lines]

/-- Tell which block of a list contains an address. -/
def runListLookup (json : Bool) (address : Host) (list : String) : Act Unit := do
  let id ← listId list
  let hit ← request (.unionLookup id address.addr)
  if json then
    printJson (.object [
      ("block", .optional (hit.map Block.text)), ("family", .string address.family.name),
      ("list", .string list)])
  else
    match hit with
    | some block => printLine s!"{address.text} is in {list} via {block.text}"
    | none => printLine s!"{address.text} is not in {list}"

/-- Tell which netblock contains an address. -/
def runLookup (json : Bool) (address : Host) : Act Unit := do
  let hit ← request (.lookup address.addr)
  if json then printJson (NetblockInfo.optionalToJson hit)
  else
    match hit with
    | some n => print (netblockText n)
    | none => printLine s!"{address.text} is not covered by any netblock"

/-- Show the coverage union, rebuilt first when asked to. -/
def runCoverage (json rebuiltFirst : Bool) : Act Unit := do
  if rebuiltFirst then
    let c ← request (.rebuildCoverage (← faults))
    if json then pure ()
    else warnLine s!"Coverage: {c.v4.cover.blocks} v4 blocks, {c.v6.cover.blocks} v6 blocks"
  let v4 ← request (.coverage .v4)
  let v6 ← request (.coverage .v6)
  let blocks := v4.map Block.text ++ v6.map Block.text
  if json then printJson (.array (blocks.map .string))
  else print (String.join (blocks.map (· ++ "\n")))

/-- Whether a command needs the database. -/
def Command.needsDatabase : Command → Bool
  | .order => false
  | _ => true

/-- What a command does with its configuration. -/
def Command.act (config : Config) (json : Bool) : Command → Act Unit
  | .init => runInit config json
  | .rebuild withCoverage buffered => runRebuild config json withCoverage buffered
  | .order => runOrder config json
  | .export list output => runExport list output
  | .lookup address none => runLookup json address
  | .lookup address (some list) => runListLookup json address list
  | .coverage rebuiltFirst => runCoverage json rebuiltFirst

/-- What a command leaves after it ended. -/
def Output.ofRun (s : State) : Except CommandError Unit → Output
  | .ok () => ⟨0, s.out, s.err, s.log⟩
  | .error e => ⟨1, s.out, s.err ++ s!"Error: {e.text}\n", s.log⟩

/-- What is told when a file cannot be written after the command ended. -/
def unwritableText : String := s!"Error: {Error.text (.file .inaccessible)}\n"

/-- Open the database if the command needs it. -/
def openFor (command : Command) (config : Config) : Opening Opened :=
  if command.needsDatabase then Opening.openDatabase config.database else pure .transient

/-- The log line of an open database. -/
def openedLine (config : Config) : LogLine := ⟨.debug, s!"opened database {quoted config.database}"⟩

/-- The files after a command, when the database is closed. -/
def State.closed (s : State) : Workspace := s.opened.close s.files

/-- Run a command whose configuration has been read. -/
def runCommand (config : Config) (json : Bool) (command : Command) (files : Workspace)
    (log : List LogLine) : Output × Workspace :=
  match (openFor command config).run files with
  | (.error e, files) => (.ofRun (.initial files .transient log) (.error (.error e)), files)
  | (.ok opened, files) =>
      let log := if command.needsDatabase then log ++ [openedLine config] else log
      let (result, s) := (command.act config json).run (.initial files opened log)
      (.ofRun s result, s.closed)

/-- The log line of a configuration that was read. -/
def loadedLine (config : Config) (path : String) : LogLine :=
  ⟨.debug, s!"loaded {config.lists.length} lists from {quoted path}"⟩

def run (arguments : List String) (files : Workspace) : Output × Workspace :=
  match Invocation.ofArguments? arguments with
  | none => (⟨2, "", usageText, []⟩, files)
  | some .help => (⟨0, usageText, "", []⟩, files)
  | some .version => (⟨0, versionText ++ "\n", "", []⟩, files)
  | some (.run path json command) =>
      match Config.ofFile (files.content? path) with
      | .error e => (.ofRun (.initial files .transient []) (.error (.error e)), files)
      | .ok config => runCommand config json command files [loadedLine config path]

/-- The places on the way to the file of a database, and of the files beside it. -/
def databasePlaces (home : Place) (name : String) : List Place :=
  let path := bytesOf name
  let located := match Locator.ofName name with
    | .ok l => (Place.visited home l.path) ++ (l.modelFile.map (Place.visited home)).getD [] ++
        (Site.mk ((Place.parts l.path).foldl Place.go (.start home l.path)) l).files
    | .error _ => []
  Place.visited home path ++ located

/-- The places on the way to what a command line names, as far as its files tell: the
configuration, what is exported to, and the database. -/
def places (arguments : List String) (files : Workspace) : List Place :=
  match Invocation.ofArguments? arguments with
  | some (.run path _ command) =>
      let output := match command with
        | .export _ output => output.toList
        | _ => []
      let database := match Config.ofFile (files.content? path) with
        | .ok config =>
            if command.needsDatabase then databasePlaces files.home config.database else []
        | .error _ => []
      ((path :: output).flatMap fun path => Place.visited files.home (bytesOf path)) ++ database
  | _ => []

end NetRegistry.Cli
