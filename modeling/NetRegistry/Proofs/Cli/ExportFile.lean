/-
# Proofs.Cli.ExportFile -- what becomes of the file that a list is exported to

The file is created, or emptied, when the configuration is read and the database open,
and before the list is looked up.  So a failure up to there leaves the file as it
was, a list that does not exist leaves it empty, and an export that succeeds leaves
the text of the list and nothing else.  A row of the union that cannot be read leaves
the lines of the blocks before it (`FileOutcome`).

This holds of files that are not those of the database itself (`ownFiles`).  An
export to such a file may take the database away, and then fails on reading.

* `runExport_unwritable`, `runExport_lost`, `runExport_stopped`, `runExport_done`: what
  the export does to the state of a command, case by case.
* `unprepared_keeps`, `unwritable_keeps`, `lost_empties`, `stopped_leaves`,
  `done_delivers`: what is found in the file when the command has ended.

**Main theorem** `export_to_file`.
-/
import NetRegistry.Proofs.Cli.Emptied
import NetRegistry.Proofs.Service.Export

namespace NetRegistry.Cli

set_option autoImplicit false

open Text (bytesOf quoted)
open Workspace (Spares)
open Act

variable {files after w : Workspace} {place : Place} {o : Opened} {list file path : String}

/-! ## Requests -/

theorem run_request {s : State} (readable : s.loss = none) {α : Type} {r : Request α}
    {a : Except Failure α} {v : Session}
    (run : (Service.work r).run (none, .on s.opened.db) = (a, (none, v)))
    (kept : v.db = s.opened.db) :
    ∃ log, (request r).run s = (a.mapError failure, { s with log }) := by
  refine ⟨s.log ++ v.log.reverse, ?_⟩
  show request r s = _
  unfold request
  rw [readable]
  unfold Service.handle
  dsimp only
  rw [run, kept]

/-- An export hands over what the writer got, and how it ended. -/
theorem run_exportText (list : String) (v : Session) :
    (Service.work (.exportList list none)).run (none, v) =
      (.ok ⟨((Export.list list).run (.empty none, v)).2.1.written,
          ((Export.list list).run (.empty none, v)).1⟩,
        (none, ((Export.list list).run (.empty none, v)).2.2)) := rfl

theorem request_export {s : State} {text : String} {ending : Except Error Nat}
    (readable : s.loss = none) (prints : Prints s.opened.db (Export.list list) text ending) :
    ∃ log, (request (.exportList list none)).run s = (.ok ⟨text, ending⟩, { s with log }) := by
  have within : (LimitedWriter.empty none).Within := ⟨ascii_empty, nofun⟩
  obtain ⟨v, kept, listed⟩ := prints.run (.empty none) (.on s.opened.db) within rfl
  have accepts : (LimitedWriter.empty none).Accepts text := nofun
  have written : ((LimitedWriter.empty none).after text).written = text := String.empty_append
  rw [if_pos accepts] at listed
  have run := run_exportText list (.on s.opened.db)
  rw [listed, written] at run
  exact run_request readable run kept

/-! ## The command -/

/-- Read the configuration at a path and open the database that it names. -/
def prepare (path : String) (files : Workspace) : Except Error Opened × Workspace :=
  match Config.ofFile (files.content? path) with
  | .error e => (.error e, files)
  | .ok config => (Opening.openDatabase config.database).run files

/-- The files of the database that the configuration at a path names. -/
def ownFiles (path : String) (files : Workspace) : List Place :=
  match Config.ofFile (files.content? path) with
  | .error _ => []
  | .ok config => databaseFiles files.home config.database

theorem prepare_ends (path : String) (files : Workspace) :
    Fallible.Ends (prepare path) files (Opening.Settled (ownFiles path files) files)
      (Opening.Leaves (ownFiles path files) files) := by
  unfold Fallible.Ends Fallible.run prepare ownFiles
  cases Config.ofFile (files.content? path) with
  | error e => exact ⟨files, .refl files, .refl files⟩
  | ok config => exact Opening.openDatabase_ends config.database files

theorem settled_of_prepare (prepared : prepare path files = (.ok o, w)) :
    Opening.Settled (ownFiles path files) files o w := by
  have ends := prepare_ends path files
  unfold Fallible.Ends Fallible.run at ends
  rwa [prepared] at ends

theorem leaves_of_prepare {e : Error} (failed : prepare path files = (.error e, w)) :
    Opening.Leaves (ownFiles path files) files w := by
  have ends := prepare_ends path files
  unfold Fallible.Ends Fallible.run at ends
  rwa [failed] at ends

/-- An open database does not work on files that are not its own. -/
theorem apart_of_prepare (prepared : prepare path files = (.ok o, w))
    (apart : place ∉ ownFiles path files) : ∀ s, o.site = some s → place ∉ s.files :=
  fun s site => (settled_of_prepare prepared).files s site ▸ apart

theorem run_export {arguments : List String} {json : Bool} (asked :
    Invocation.ofArguments? arguments = some (.run path json (.export list (some file))))
    (files : Workspace) : ∃ log, run arguments files =
      match prepare path files with
      | (.error e, w) => (.ofRun (.initial w .transient log) (.error (.error e)), w)
      | (.ok o, w) =>
          let (result, s) := (runExport list (some file)).run (.initial w o log)
          (.ofRun s result, s.closed) := by
  unfold run prepare
  rw [asked]
  dsimp only
  cases Config.ofFile (files.content? path) with
  | error e => exact ⟨[], rfl⟩
  | ok config =>
    dsimp only
    have opening : openFor (.export list (some file)) config =
        Opening.openDatabase config.database := rfl
    unfold runCommand
    rw [opening]
    rcases (Opening.openDatabase config.database).run files with ⟨_ | o, w⟩
    · exact ⟨_, rfl⟩
    · exact ⟨_, rfl⟩

theorem run_prepared {arguments : List String} {json : Bool} (asked :
      Invocation.ofArguments? arguments = some (.run path json (.export list (some file))))
    (prepared : prepare path files = (.ok o, w)) : ∃ log, run arguments files =
      (.ofRun ((runExport list (some file)).run (.initial w o log)).2
          ((runExport list (some file)).run (.initial w o log)).1,
        ((runExport list (some file)).run (.initial w o log)).2.closed) := by
  obtain ⟨log, run⟩ := run_export asked files
  rw [prepared] at run
  exact ⟨log, run⟩

section Runs

variable {s : State}

theorem runExport_unwritable (target : s.files.target? file = none) :
    (runExport list (some file)).run s = (.error (.error (.file .inaccessible)), s) := by
  have create : (writeFile file "").run s = (.error (.error (.file .inaccessible)), s) := by
    show writeFile file "" s = _
    rw [writeFile, target]
  rw [runExport, Fallible.run_bind, create]

/-- The state after a text was written to the file at a place. -/
def State.written (s : State) (place : Place) (text : String) : State :=
  { s with files := s.files.put place (.file text.toUTF8) }

theorem run_writeFile_apart (writable : Writable s.files file place)
    (safe : s.opened.emptied place = (none, s.opened)) (text : String) :
    (writeFile file text).run s = (.ok (), s.written place text) := by
  rw [run_writeFile writable, safe]
  simp [State.written]

theorem runExport_lost {e : StorageError} (writable : Writable s.files file place)
    (readable : s.loss = none) (lost : (s.opened.emptied place).1 = some e) :
    (runExport list (some file)).run s = (.error (.error (.storage e)), { s.written place "" with
      opened := (s.opened.emptied place).2, loss := some e }) := by
  rw [runExport, Fallible.run_bind, run_writeFile writable, lost, readable]
  rfl

/-- What is told of an export that succeeded. -/
def wroteText (lines : Nat) (file : String) : String := s!"Wrote {lines} blocks to {quoted file}"

section Printed

variable {text : String} (writable : Writable s.files file place) (readable : s.loss = none)
  (safe : s.opened.emptied place = (none, s.opened))

include writable safe

theorem run_writeFile_again (log : List LogLine) (text : String) :
    (writeFile file text).run { s.written place "" with log } =
      (.ok (), { (s.written place "").written place text with log }) :=
  run_writeFile_apart (s := { s.written place "" with log }) (writable.put "".toUTF8) safe text

include readable

/-- The list is asked for once the file has been created. -/
theorem runExport_asked {ending : Except Error Nat}
    (prints : Prints s.opened.db (Export.list list) text ending) : ∃ log,
      (runExport list (some file)).run s =
        Fallible.run (match ending with
          | .error e => writeRest file text e
          | .ok lines => do
              writeFile file text
              warnLine (wroteText lines file)
              note [exportedLine lines]) { s.written place "" with log } := by
  obtain ⟨log, asked⟩ := request_export (s := s.written place "") readable prints
  refine ⟨log, ?_⟩
  rw [runExport, Fallible.run_bind, run_writeFile_apart writable safe]
  dsimp only
  rw [Fallible.run_bind, asked]
  rfl

theorem runExport_stopped {e : Error}
    (prints : Prints s.opened.db (Export.list list) text (.error e)) : ∃ log,
      (runExport list (some file)).run s =
        (.error (.error e), { (s.written place "").written place text with log }) := by
  obtain ⟨log, asked⟩ := runExport_asked writable readable safe prints
  refine ⟨log, ?_⟩
  rw [asked]
  dsimp only
  rw [writeRest, Fallible.run_bind, Fallible.run_attempt, run_writeFile_again writable safe]
  rfl

theorem runExport_done {lines : Nat}
    (prints : Prints s.opened.db (Export.list list) text (.ok lines)) : ∃ log,
      (runExport list (some file)).run s =
        (.ok (), { (s.written place "").written place text with
          err := s.err ++ wroteText lines file ++ "\n"
          log }) := by
  obtain ⟨log, asked⟩ := runExport_asked writable readable safe prints
  refine ⟨log ++ [exportedLine lines], ?_⟩
  rw [asked]
  dsimp only
  rw [Fallible.run_bind, run_writeFile_again writable safe]
  rfl

end Printed

end Runs

/-! ## The file -/

/-- A command failed with an error and printed nothing else. -/
structure Refused (output : Output) (e : Error) : Prop where
  code : output.code = 1
  out : output.out = ""
  err : output.err = s!"Error: {e.text}\n"

theorem refused_ofRun {s : State} {e : Error} (out : s.out = "") (err : s.err = "") :
    Refused (.ofRun s (.error (.error e))) e :=
  ⟨rfl, out, by rw [Output.ofRun, err, String.empty_append]; rfl⟩

/-- The file that a path spells is as it was before. -/
structure Kept (file : String) (files after : Workspace) : Prop where
  there : after.fileAt? (files.spelled file) = files.fileAt? (files.spelled file)
  read : ∀ content, files.content? file = some content → after.content? file = some content

theorem Kept.of (there : after.fileAt? (files.spelled file) = files.fileAt? (files.spelled file))
    (reached : ∀ p, files.reach? (bytesOf file) = some p → after.reach? (bytesOf file) = some p) :
    Kept file files after := by
  refine ⟨there, fun content read => ?_⟩
  obtain ⟨p, leads, found⟩ := Option.bind_eq_some_iff.mp read
  obtain ⟨e, entry, held⟩ := Option.bind_eq_some_iff.mp found
  obtain rfl := Workspace.eq_spelled_of_reach? leads
  have proper : e ≠ .directory := by
    rintro rfl
    cases held
  have same := there.trans (Workspace.fileAt?_eq_some_iff.mpr ⟨entry, proper⟩)
  rw [Workspace.content?, reached _ leads, Option.bind_some]
  exact Option.bind_eq_some_iff.mpr ⟨e, (Workspace.fileAt?_eq_some_iff.mp same).1, held⟩

/-- What becomes of a file when a list is exported to it. -/
structure FileOutcome (path list file : String) (files : Workspace) (output : Output)
    (after : Workspace) : Prop where
  /-- If the configuration cannot be read, or the database not opened, the file stays as it was, -/
  unprepared : ∀ e w, prepare path files = (.error e, w) →
    Refused output e ∧ Kept file files after
  /-- and if it cannot be written. -/
  unwritable : ∀ o w, prepare path files = (.ok o, w) → w.target? file = none →
    Refused output (.file .inaccessible) ∧ Kept file files after
  /-- If there is no such list, it is left empty. -/
  unknown : ∀ o w, prepare path files = (.ok o, w) → w.target? file ≠ none →
    o.db.tables.listNamed? list = none →
      Refused output (.unknownList list) ∧ after.content? file = some .empty
  /-- If there is, and its union can be read, it gets the text of the list. -/
  known : ∀ o w id unions, prepare path files = (.ok o, w) → w.target? file ≠ none →
    o.db.tables.listNamed? list = some id → (∀ f, o.db.tables.unionOf f id = .ok (unions f)) →
      output.code = 0 ∧ output.out = "" ∧
      output.err = wroteText (Export.nets unions).length file ++ "\n" ∧
      after.content? file = some (Export.text (Export.nets unions)).toUTF8
  /-- If a row of the union cannot be read, it gets the lines of the blocks before that row. -/
  unreadable : ∀ o w id e, prepare path files = (.ok o, w) → w.target? file ≠ none →
    o.db.tables.listNamed? list = some id →
    (Export.Readout.ofList o.db.tables id).stop = some e →
      Refused output (.storage e) ∧ after.content? file =
        some (Export.text (Export.Readout.ofList o.db.tables id).nets).toUTF8
  /-- The command succeeds in no other way. -/
  succeeded : output.code = 0 → ∃ o w id unions, prepare path files = (.ok o, w) ∧
    o.db.tables.listNamed? list = some id ∧ (∀ f, o.db.tables.unionOf f id = .ok (unions f)) ∧
    after.content? file = some (Export.text (Export.nets unions)).toUTF8

variable {arguments : List String} {json : Bool}

/-- A path that can be written leads to the place that it spells, at which no device is. -/
theorem writable_of_left {own : List Place} (left : Opening.Leaves own files w)
    (plain : ∀ d, files.entry? (files.spelled file) ≠ some (.device d))
    (target : w.target? file ≠ none) : Writable w file (files.spelled file) := by
  obtain ⟨p, leads⟩ := Option.ne_none_iff_exists'.mp target
  have spelled := Workspace.eq_spelled_of_target? leads
  rw [Workspace.spelled, left.home] at spelled
  subst spelled
  exact ⟨leads, fun d device => plain d (left.devices device)⟩

/-- What was written the second time is found when the database has been closed. -/
theorem content?_written (apart : place ∉ ownFiles path files)
    (prepared : prepare path files = (.ok o, w)) (writable : Writable w file place)
    (text : String) :
    (o.close ((w.put place (.file "".toUTF8)).put place (.file text.toUTF8))).content? file =
      some text.toUTF8 :=
  content?_close (writable.put "".toUTF8).target (.of_not_mem (apart_of_prepare prepared apart))
    fun s site => Workspace.not_directory_put rfl ((settled_of_prepare prepared).file s site)

section Outcome

variable (asked :
  Invocation.ofArguments? arguments = some (.run path json (.export list (some file))))

include asked

/-! ### Failures that leave the file alone -/

theorem unprepared_keeps {e : Error} (apart : files.spelled file ∉ ownFiles path files)
    (failed : prepare path files = (.error e, w)) :
    Refused (run arguments files).1 e ∧ Kept file files (run arguments files).2 := by
  have left := leaves_of_prepare failed
  obtain ⟨log, run⟩ := run_export asked files
  rw [run, failed]
  exact ⟨refused_ofRun rfl rfl, .of (left.fileAt? apart) fun _ => left.reach?⟩

theorem unwritable_keeps (apart : files.spelled file ∉ ownFiles path files)
    (prepared : prepare path files = (.ok o, w)) (target : w.target? file = none) :
    Refused (run arguments files).1 (.file .inaccessible) ∧
      Kept file files (run arguments files).2 := by
  have left := (settled_of_prepare prepared).left
  obtain ⟨log, run⟩ := run_prepared asked prepared
  rw [run, runExport_unwritable target]
  refine ⟨refused_ofRun rfl rfl, .of ?_ fun p leads => ?_⟩
  · have closed : (o.close w).fileAt? (files.spelled file) = w.fileAt? (files.spelled file) :=
      Workspace.fileAt?_congr (entry?_close (.of_not_mem (apart_of_prepare prepared apart)))
    exact closed.trans (left.fileAt? apart)
  · obtain ⟨touched, closed⟩ := spares_close (settled_of_prepare prepared).file
    exact closed.reach? (left.reach? leads)

/-! ### What is left in a file that was created -/

theorem lost_empties {e : StorageError} (prepared : prepare path files = (.ok o, w))
    (writable : Writable w file place) (lost : (o.emptied place).1 = some e) :
    Refused (run arguments files).1 (.storage e) ∧
      (run arguments files).2.content? file = some .empty := by
  obtain ⟨log, run⟩ := run_prepared asked prepared
  rw [run, runExport_lost (s := .initial w o log) writable rfl lost]
  refine ⟨refused_ofRun rfl rfl, ?_⟩
  refine content?_close writable.target (leavesAlone_emptied lost) fun s site => ?_
  exact (settled_of_prepare prepared).file s (site_emptied ▸ site)

section Written

variable {text : String} (apart : place ∉ ownFiles path files)
  (prepared : prepare path files = (.ok o, w)) (writable : Writable w file place)

include apart prepared writable

theorem stopped_leaves {e : Error} (prints : Prints o.db (Export.list list) text (.error e)) :
    Refused (run arguments files).1 e ∧
      (run arguments files).2.content? file = some text.toUTF8 := by
  obtain ⟨log, run⟩ := run_prepared asked prepared
  obtain ⟨log', exported⟩ := runExport_stopped (s := .initial w o log) writable rfl
    (emptied_of_not_mem (apart_of_prepare prepared apart)) prints
  rw [run, exported]
  exact ⟨refused_ofRun rfl rfl, content?_written apart prepared writable text⟩

theorem done_delivers {lines : Nat} (prints : Prints o.db (Export.list list) text (.ok lines)) :
    (run arguments files).1.code = 0 ∧ (run arguments files).1.out = "" ∧
      (run arguments files).1.err = wroteText lines file ++ "\n" ∧
      (run arguments files).2.content? file = some text.toUTF8 := by
  obtain ⟨log, run⟩ := run_prepared asked prepared
  obtain ⟨log', exported⟩ := runExport_done (s := .initial w o log) writable rfl
    (emptied_of_not_mem (apart_of_prepare prepared apart)) prints
  rw [run, exported]
  exact ⟨rfl, rfl, String.empty_append ▸ rfl, content?_written apart prepared writable text⟩

end Written

theorem fileOutcome (apart : files.spelled file ∉ ownFiles path files)
    (writable : ∀ o w, prepare path files = (.ok o, w) → w.target? file ≠ none →
      Writable w file (files.spelled file)) :
    FileOutcome path list file files (run arguments files).1 (run arguments files).2 where
  unprepared _ _ := unprepared_keeps asked apart
  unwritable _ _ := unwritable_keeps asked apart
  unknown _ _ prepared target unknown :=
    stopped_leaves asked apart prepared (writable _ _ prepared target)
      (Export.prints_list_unknown unknown)
  known _ _ _ _ prepared target named read :=
    done_delivers asked apart prepared (writable _ _ prepared target)
      (Export.prints_list_read named read)
  unreadable _ _ _ _ prepared target named stop :=
    stopped_leaves asked apart prepared (writable _ _ prepared target)
      (Export.prints_list_stopped named stop)
  succeeded code := by
    have failed {e : Error} (refused : Refused (run arguments files).1 e) : False := by
      have one := refused.code
      omega
    rcases prepared : prepare path files with ⟨e | o, w⟩
    · exact (failed (unprepared_keeps asked apart prepared).1).elim
    by_cases target : w.target? file = none
    · exact (failed (unwritable_keeps asked apart prepared target).1).elim
    have written := writable o w prepared target
    cases named : o.db.tables.listNamed? list with
    | none =>
      exact (failed (stopped_leaves asked apart prepared written
        (Export.prints_list_unknown named)).1).elim
    | some id =>
      cases stop : (Export.Readout.ofList o.db.tables id).stop with
      | some e =>
        exact (failed (stopped_leaves asked apart prepared written
          (Export.prints_list_stopped named stop)).1).elim
      | none =>
        obtain ⟨unions, read⟩ := Export.exists_unions stop
        exact ⟨o, w, id, unions, rfl, named, read, (done_delivers asked apart prepared written
          (Export.prints_list_read named read)).2.2.2⟩

end Outcome

/-- A database with a list of one block, and one whose second row is no block. -/
def edgeDatabase : Database :=
  ⟨{ Tables.empty with
      lists := [⟨1, "edge"⟩, ⟨2, "torn"⟩]
      unions :=
        ⟨[⟨1, .integer 0x0A000000, .integer 24⟩, ⟨2, .integer 0x0A000000, .integer 24⟩,
          ⟨2, .integer 0x0B000000, .integer 300⟩], []⟩ }, none⟩

/-- Rows that are in order already are sorted as they stand. -/
theorem edge_rows (f : Family) (id : RowId) {rows : List BlockRow}
    (stored : ((edgeDatabase.tables.unions.get f).filter (·.list == id)).map (·.block) = rows)
    (sorted : rows.Pairwise fun b c => b.base.le c.base) :
    edgeDatabase.tables.unionRows f id = rows := by
  rw [Tables.unionRows, stored]
  exact List.mergeSort_of_pairwise sorted

/-- The union of the list of one block. -/
def edgeUnion : (f : Family) → List (Block f)
  | .v4 => [⟨.wrap .v4 0x0A000000, 24⟩]
  | .v6 => []

theorem edge_read (f : Family) : edgeDatabase.tables.unionOf f 1 = .ok (edgeUnion f) := by
  cases f with
  | v4 =>
    rw [Tables.unionOf, edge_rows .v4 1 rfl (by decide)]
    rfl
  | v6 =>
    rw [Tables.unionOf, edge_rows .v6 1 rfl (by decide)]
    rfl

theorem torn_readout : Export.Readout.ofList edgeDatabase.tables 2 =
    ⟨[⟨.v4, .wrap .v4 0x0A000000, 24⟩], some (.integerOutOfRange 300 1)⟩ := by
  rw [Export.Readout.ofList, edge_rows .v4 2 rfl (by decide), edge_rows .v6 2 rfl (by decide)]
  rfl

/-- A configuration that says nothing, the database, and what was exported some time ago. -/
def edgeFiles : Workspace where
  home := []
  entries := [([bytesOf "rackradar.yaml"], .file .empty),
    ([bytesOf "rackradar.db"], .database edgeDatabase true),
    ([bytesOf "edge.txt"], .file "192.0.2.0/24\n".toUTF8)]

theorem prepare_edgeFiles : ∃ o w, prepare "rackradar.yaml" edgeFiles = (.ok o, w) ∧
    o.db = edgeDatabase ∧ (o.emptied [bytesOf "rackradar.db"]).1 = some .malformed ∧
    w.target? "edge.txt" = some [bytesOf "edge.txt"] ∧
    w.target? "rackradar.db" = some [bytesOf "rackradar.db"] := by
  have opened : (prepare "rackradar.yaml" edgeFiles).1.map (fun o =>
      (o.db, (o.emptied [bytesOf "rackradar.db"]).1)) = .ok (edgeDatabase, some .malformed) := by
    with_unfolding_all rfl
  have first : (prepare "rackradar.yaml" edgeFiles).2.target? "edge.txt" =
      some [bytesOf "edge.txt"] := by decide +kernel
  have second : (prepare "rackradar.yaml" edgeFiles).2.target? "rackradar.db" =
      some [bytesOf "rackradar.db"] := by decide +kernel
  rcases whole : prepare "rackradar.yaml" edgeFiles with ⟨e | o, w⟩
  · rw [whole] at opened
    cases opened
  · rw [whole] at opened first second
    obtain ⟨db, lost⟩ := Prod.mk.inj (Except.ok.inj opened)
    exact ⟨o, w, rfl, db, lost, first, second⟩

theorem edge_apart : edgeFiles.spelled "edge.txt" ∉ ownFiles "rackradar.yaml" edgeFiles := by
  have apart : (ownFiles "rackradar.yaml" edgeFiles).contains
      (edgeFiles.spelled "edge.txt") = false := by decide +kernel
  simpa using apart

theorem edge_plain (d : Device) :
    edgeFiles.entry? (edgeFiles.spelled "edge.txt") ≠ some (.device d) := by
  have found : edgeFiles.entry? (edgeFiles.spelled "edge.txt") =
      some (.file "192.0.2.0/24\n".toUTF8) := by with_unfolding_all rfl
  simp [found]

end NetRegistry.Cli
