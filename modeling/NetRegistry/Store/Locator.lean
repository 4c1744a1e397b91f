/-
# Store.Locator -- the name of a database

A name is the path of a file.  The empty name and `:memory:` stand for a database
without a file, which is lost when it is closed.

A name that starts with `file:` has more parts: two slashes and a host, which has to
be this one; the path; behind a question mark options, each a name and a value with
an equals sign between them and an ampersand before the next; and behind a hash
sign a remark.  In the path and the options a percent sign with two hexadecimal
digits stands for a byte; the byte zero ends the part that it stands in.

The options say what may be done with the file (`mode`), through which file system
(`vfs`) and with which locks (`nolock`), whether the file is known to stay as it is
(`immutable`), whether the index of its log is only read (`readonly_shm`), and which
file a new one takes its permissions from (`modeof`).
-/
import NetRegistry.Error
import NetRegistry.Text.Bytes
import NetRegistry.Text.Numeral

namespace NetRegistry

set_option autoImplicit false

open Text (bytesOf)

/-- What may be done with the file of a database. -/
inductive FileMode where
  | read
  | write
  | create
  /-- There is no file. -/
  | absent
deriving DecidableEq

namespace FileMode

/-- The mode of a given name. -/
def ofName? : String → Option FileMode
  | "ro" => some .read
  | "rw" => some .write
  | "rwc" => some .create
  | "memory" => some .absent
  | _ => none

/-- Whether the mode may replace one that was given before it. -/
def mayReplace (now before : FileMode) : Bool :=
  match now, before with
  | .absent, _ => true
  | _, .absent => true
  | .read, _ => true
  | .write, before => before != .read
  | .create, before => before == .create

end FileMode

/-- What keeps files. -/
inductive FileSystem where
  | shared
  /-- One program has a file for itself and keeps the index of its log in memory. -/
  | single
  /-- Without locks. -/
  | unlocked
  /-- With a mark beside a locked file. -/
  | marked
  /-- In memory. -/
  | memory
deriving DecidableEq

namespace FileSystem

/-- The file system of a given name. -/
def ofName? : String → Option FileSystem
  | "unix" => some .shared
  | "unix-excl" => some .single
  | "unix-none" => some .unlocked
  | "unix-dotfile" => some .marked
  | "memdb" => some .memory
  | _ => none

/-- Whether a database can be kept with a write-ahead log. -/
def keepsLogs : FileSystem → Bool
  | .shared | .single => true
  | .unlocked | .marked | .memory => false

end FileSystem

/-- What the name of a database says.  A path is a sequence of bytes. -/
structure Locator where
  path : List UInt8
  mode : FileMode
  system : FileSystem
  /-- Whether the file is locked while it is used. -/
  hasLocks : Bool
  /-- Whether the file is known to stay as it is, so that nothing is written. -/
  isFrozen : Bool
  /-- Whether the index of the log may only be read. -/
  isIndexFixed : Bool
  /-- The file that a new one takes its permissions from. -/
  modelFile : Option (List UInt8)
deriving DecidableEq

namespace Locator

def ofPath (path : String) : Locator := ⟨bytesOf path, .create, .shared, true, false, false, none⟩

/-- Whether the name leads to a file. -/
def hasFile (l : Locator) : Bool :=
  !l.path.isEmpty && l.path != bytesOf ":memory:" && l.mode != .absent

/-- Whether the database is lost when it is closed. -/
def isTransient (l : Locator) : Bool := !l.hasFile || l.system == .memory

/-- Whether nothing may be written. -/
def isReadOnly (l : Locator) : Bool := l.mode == .read || (l.hasFile && l.isFrozen)

/-- Whether the database can be kept with a write-ahead log. -/
def keepsLog (l : Locator) : Bool := l.system.keepsLogs && l.hasLocks && !l.isFrozen

/-! ## The parts of a name -/

/-- The byte that two hexadecimal digits write. -/
def byte? (high low : UInt8) : Option UInt8 := do
  let high ← Text.digitValue? 16 (Char.ofNat high.toNat)
  let low ← Text.digitValue? 16 (Char.ofNat low.toNat)
  return UInt8.ofNat (high * 16 + low)

/-- Replace the percent signs of a part. -/
def decodeBytes : List UInt8 → List UInt8
  | 0x25 :: high :: low :: rest =>
      match byte? high low with
      | some b => if b = 0 then [] else b :: decodeBytes rest
      | none => 0x25 :: decodeBytes (high :: low :: rest)
  | b :: rest => b :: decodeBytes rest
  | [] => []

def decode (part : List Char) : List UInt8 := decodeBytes (bytesOf (String.ofList part))

/-- The part before the first of a character, and the part behind it. -/
def cut (c : Char) (text : List Char) : List Char × List Char :=
  (text.takeWhile (· != c), (text.dropWhile (· != c)).drop 1)

structure Setting where
  name : String
  bytes : List UInt8

/-- The value of an option as a text. -/
def Setting.value (o : Setting) : String := Text.ofBytes o.bytes

/-- The options; one without a name does not count. -/
def settings (text : List Char) : List Setting :=
  let all := (text.splitOn '&').map fun item =>
    let (name, value) := cut '=' item
    Setting.mk (Text.ofBytes (decode name)) (decode value)
  all.filter (!·.name.isEmpty)

/-- Past the host, which has to be this one. -/
def skipHost : List Char → Except StorageError (List Char)
  | '/' :: '/' :: rest =>
      let host := String.ofList (rest.takeWhile (· != '/'))
      if host.isEmpty || host == "localhost" then .ok (rest.dropWhile (· != '/'))
      else .error (.foreignHost host)
  | text => .ok text

/-! ## What the options say -/

/-- The number that a value starts with, in base 16 behind `0x`; zero if it needs more than 31
bits. -/
def leadingNumber (value : List Char) : Nat :=
  let (base, digits) := match value with
    | '0' :: x :: c :: rest =>
        if (x == 'x' || x == 'X') && Text.isDigit 16 c then (16, c :: rest) else (10, value)
    | _ => (10, value)
  let n := Text.numeralValue base (digits.takeWhile (Text.isDigit base))
  if n < 2147483648 then n else 0

/-- Whether a value means yes: a word for it, or a number that is not zero in its last byte. -/
def isYes (value : String) : Bool :=
  if value.toList.head?.any (Text.isDigit 10) then leadingNumber value.toList % 256 != 0
  else ["on", "yes", "true"].contains (value.map Char.toLower)

/-- The first option of a name. -/
def setting? (name : String) (settings : List Setting) : Option Setting :=
  settings.find? (·.name == name)

/-- Whether the first option of a name means yes. -/
def isSet (name : String) (settings : List Setting) : Bool :=
  (setting? name settings).any fun o => isYes o.value

/-- The mode that options ask for, in their order. -/
def modeOf (mode : FileMode) : List Setting → Except StorageError FileMode
  | [] => .ok mode
  | o :: rest =>
      if o.name == "mode" then
        match FileMode.ofName? o.value with
        | none => .error (.unknownMode "access" o.value)
        | some now =>
            if now.mayReplace mode then modeOf now rest else .error (.modeNotAllowed o.value)
      else if o.name == "cache" && o.value != "shared" && o.value != "private" then
        .error (.unknownMode "cache" o.value)
      else modeOf mode rest

/-- The file system that options ask for; the last counts. -/
def systemOf (settings : List Setting) : Except StorageError FileSystem :=
  match (settings.filter (·.name == "vfs")).getLast? with
  | none => .ok .shared
  | some o =>
      match FileSystem.ofName? o.value with
      | some system => .ok system
      | none => .error (.unknownFileSystem o.value)

/-- Read what stands behind `file:`. -/
def ofParts (text : List Char) : Except StorageError Locator := do
  let text ← skipHost text
  let (path, query) := cut '?' (text.takeWhile (· != '#'))
  let settings := settings query
  let mode ← modeOf .create settings
  let system ← systemOf settings
  return {
    path := decode path
    mode
    system
    hasLocks := !isSet "nolock" settings
    isFrozen := isSet "immutable" settings
    isIndexFixed := isSet "readonly_shm" settings
    modelFile := (setting? "modeof" settings).map (·.bytes) }

def ofName (name : String) : Except StorageError Locator :=
  match name.toList with
  | 'f' :: 'i' :: 'l' :: 'e' :: ':' :: text => ofParts text
  | _ => .ok (ofPath name)

end Locator

end NetRegistry
