/-
# Main -- the command line program

A command runs on a workspace.  The program fills one with what the paths of its
command line lead to, runs the command, writes back what the command changed, and
prints what it printed.  Log lines that matter go to the second stream.
-/
import NetRegistry.Cli.Run

namespace NetRegistry.Cli

set_option autoImplicit false

/-- Put what is at a place into a workspace, if something is. -/
def loadEntry (files : Workspace) (place : Place) : IO Workspace := do
  let some name := place.text? | return files
  try
    let path ← IO.FS.realPath name
    if ← path.isDir then return files.put place .directory
    else return files.put place (.ofBytes (← IO.FS.readBinFile name))
  catch _ => return files

/-- Fill a workspace with what is at some places. -/
def load (places : List Place) (files : Workspace) : IO Workspace := places.foldlM loadEntry files

/-- Write a file or create a directory. -/
def saveEntry (place : Place) (e : Entry) : IO Unit := do
  let some name := place.text? | throw (IO.userError "no text")
  match e with
  | .directory => IO.FS.createDirAll name
  | e => (e.bytes?).forM (IO.FS.writeBinFile name)

def removeEntry (place : Place) : IO Unit := (place.text?).forM fun name => IO.FS.removeFile name

/-- Write what a command changed; the answer tells whether all could be written. -/
def save (before after : Workspace) : IO Bool := do
  try
    (after.removals before).forM removeEntry
    (after.changes before).forM fun (place, e) => saveEntry place e
    return true
  catch _ => return false

/-- The place that commands run in. -/
def home : IO Place := do
  return .ofText (← IO.currentDir).toString

/-- Run a command line on the files that it leads to. -/
def runOnFiles (arguments : List String) : IO Output := do
  -- the configuration has to be there before the place of the database is known
  let none := Workspace.empty (← home)
  let files ← load (places arguments none) none
  let files ← load (places arguments files) files
  let (output, after) := run arguments files
  if ← save files after then return output
  else return { output with code := 1, err := output.err ++ unwritableText }

end NetRegistry.Cli

open NetRegistry in
/-- Run the command line and end with its code. -/
def main (arguments : List String) : IO UInt32 := do
  let output ← Cli.runOnFiles arguments
  (LogLine.atLeast .info output.log).forM fun line => IO.eprintln line.shown
  IO.print output.out
  IO.eprint output.err
  return output.code.toUInt32
