/-
# Error -- why an operation failed

Failures are causes; `Error.text` is the wording.  Columns of a result row are
numbered from zero.
-/
import NetRegistry.Address.Text
import NetRegistry.Store.Cell
import NetRegistry.Text.Quoted

namespace NetRegistry

set_option autoImplicit false

open Text (quoted)

/-- Why a statement of the store failed.  A failed statement changes nothing. -/
inductive StorageError where
  /-- A transaction was started inside another. -/
  | nestedBegin
  /-- There was no transaction to commit. -/
  | nothingToCommit
  /-- There was no transaction to roll back. -/
  | nothingToRollBack
  /-- A netblock is already a member of the list. -/
  | duplicateMember (f : Family)
  /-- The union of the list already has a block at the address. -/
  | duplicateUnionBlock (f : Family)
  /-- The coverage union already has a block at the address. -/
  | duplicateCoverageBlock (f : Family)
  /-- The registrar already has a netblock of that range. -/
  | duplicateNetblock (f : Family)
  /-- A row refers to a row that does not exist. -/
  | danglingReference
  /-- A stored integer does not fit the column. -/
  | integerOutOfRange (n : Int) (column : Nat)
  /-- A stored byte string is no address. -/
  | blobSize (size : Nat) (column : Nat)
  /-- A stored value is of the wrong kind. -/
  | wrongKind (kind : String) (column : Nat) (name : String)
  /-- The name of a database has a character that no file name has, at a byte position. -/
  | zeroInName (position : Nat)
  /-- The name of a database names another host. -/
  | foreignHost (host : String)
  /-- The name of a database asks for a mode that does not exist. -/
  | unknownMode (kind : String) (mode : String)
  /-- The name of a database asks for more than it allowed itself before. -/
  | modeNotAllowed (mode : String)
  /-- The name of a database asks for a file system that does not exist. -/
  | unknownFileSystem (name : String)
  /-- The database file cannot be opened. -/
  | cannotOpen (path : String)
  /-- The database cannot be used without a file beside its own, which cannot be opened. -/
  | cannotOpenLog
  /-- The database file cannot be read. -/
  | unreadable
  /-- The file exists and holds something else. -/
  | notADatabase
  /-- The database file has no room. -/
  | noRoom
  /-- The database is locked by something else. -/
  | locked
  /-- The file was emptied while the database was open. -/
  | malformed
  /-- The database has no table of that name any more. -/
  | noSuchTable (name : String)
  /-- The database was opened for reading. -/
  | readOnly
deriving DecidableEq

namespace StorageError

/-- Name of the netblock table of a family, from which the other table names are formed. -/
def table (f : Family) : String := "netblock_" ++ f.name

def text : StorageError → String
  | .nestedBegin => "cannot start a transaction within a transaction"
  | .nothingToCommit => "cannot commit - no transaction is active"
  | .nothingToRollBack => "cannot rollback - no transaction is active"
  | .duplicateMember f =>
      s!"UNIQUE constraint failed: {table f}_list.list_id, {table f}_list.netblock_id"
  | .duplicateUnionBlock f =>
      s!"UNIQUE constraint failed: {table f}_list_union.list_id, {table f}_list_union.address"
  | .duplicateCoverageBlock f => s!"UNIQUE constraint failed: {table f}_union.address"
  | .duplicateNetblock f =>
      s!"UNIQUE constraint failed: {table f}.registrar_id, {table f}.start_ip, {table f}.end_ip"
  | .danglingReference => "FOREIGN KEY constraint failed"
  | .integerOutOfRange n column => s!"Integer {n} out of range at index {column}"
  | .blobSize size column =>
      s!"Conversion error from type Blob at index: {column}, {(CellError.blobSize size).text}"
  | .wrongKind kind column name =>
      s!"Invalid column type {kind} at index: {column}, name: {name}"
  | .zeroInName position => s!"nul byte found in provided data at position: {position}"
  | .foreignHost host => s!"invalid uri authority: {host}"
  | .unknownMode kind mode => s!"no such {kind} mode: {mode}"
  | .modeNotAllowed mode => s!"access mode not allowed: {mode}"
  | .unknownFileSystem name => s!"no such vfs: {name}"
  | .cannotOpen path => s!"unable to open database file: {path}"
  | .cannotOpenLog => "unable to open database file"
  | .unreadable => "disk I/O error"
  | .notADatabase => "file is not a database"
  | .noRoom => "database or disk is full"
  | .locked => "database is locked"
  | .malformed => "database disk image is malformed"
  | .noSuchTable name => s!"no such table: {name}"
  | .readOnly => "attempt to write a readonly database"

end StorageError

/-- Why an import, or a call made to fail on purpose, was refused. -/
inductive ImportError where
  /-- The prefix length given with a netblock is not that of its range. -/
  | prefixMismatch {f : Family} (range : Range f) (actual given : Nat)
  /-- The registrar has used up its serials. -/
  | serialExhausted (registrar : String)
  /-- The call was made to fail. -/
  | simulated (method : String)
  /-- The reader of a scan wants no more rows. -/
  | sinkStopped

namespace ImportError

def text : ImportError → String
  | .prefixMismatch range actual given => s!"netblock {range.text} is a /{actual}, not a /{given}"
  | .serialExhausted registrar => s!"registrar {registrar} serial is exhausted"
  | .simulated method => s!"simulated {method} failure"
  | .sinkStopped => "sink stopped"

end ImportError

inductive ConfigError where
  | emptyName
  | blankInName (name : String)
  | duplicateList (name : String)
  | emptyPattern (name : String)
deriving DecidableEq

namespace ConfigError

def text : ConfigError → String
  | .emptyName => "list with an empty name"
  | .blankInName name => s!"list name {quoted name} contains whitespace"
  | .duplicateList name => s!"duplicate list {name}"
  | .emptyPattern name => s!"list {name} has an empty pattern"

end ConfigError

/-- Why reading or writing a file failed. -/
inductive FileError where
  /-- The writer accepts no more. -/
  | writerFull
  /-- The file cannot be read or written; the system says why. -/
  | inaccessible
deriving DecidableEq

inductive Error where
  | file (e : FileError)
  /-- The YAML does not parse or does not fit. -/
  | yaml
  /-- The JSON does not fit. -/
  | json
  | storage (e : StorageError)
  | range {f : Family} (e : RangeError f)
  | cidrPattern (text : String)
  | config (e : ConfigError)
  | unknownList (name : String)
  | rejected (e : ImportError)

namespace Error

def text : Error → String
  | .file .writerFull => "IO error: writer full"
  | .file .inaccessible => "IO error"
  | .yaml => "YAML parsing error"
  | .json => "JSON parsing error"
  | .storage e => "storage error: " ++ e.text
  | .range e => e.text
  | .cidrPattern s => "invalid CIDR pattern: " ++ s
  | .config e => "configuration error: " ++ e.text
  | .unknownList name => "unknown list: " ++ name
  | .rejected e => "import error: " ++ e.text

end Error

end NetRegistry
