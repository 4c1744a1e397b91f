/-
# Store.Archive -- a database as text

A database is kept as a text with one row a line, behind a line that tells what
the text is.  A line is the kind of the row and its values, with one space between
them; inside a text value a space, a line feed and the percent sign are written as
a percent sign and two hex digits.  What is optional is a dash when absent.

Rows of a table stand in their order, so that the tables are read back as they
were (`Tables.ofRows_rows`).
-/
import NetRegistry.Store.Database

namespace NetRegistry

set_option autoImplicit false

open Text (digitChar digitValue? numeral numeralValue)

/-! ## Words -/

namespace Word

/-- How a character is written. -/
def escape (c : Char) : List Char :=
  if c = '%' then ['%', '2', '5']
  else if c = ' ' then ['%', '2', '0']
  else if c = '\n' then ['%', '0', 'a']
  else [c]

/-- The characters that were written. -/
def unescape : List Char → List Char
  | '%' :: '2' :: '5' :: rest => '%' :: unescape rest
  | '%' :: '2' :: '0' :: rest => ' ' :: unescape rest
  | '%' :: '0' :: 'a' :: rest => '\n' :: unescape rest
  | c :: rest => c :: unescape rest
  | [] => []

theorem unescape_flatMap_escape (s : List Char) : unescape (s.flatMap escape) = s := by
  induction s with
  | nil => rfl
  | cons c s ih =>
      by_cases percent : c = '%'
      · subst percent; simp [escape, unescape, ih]
      · by_cases space : c = ' '
        · subst space; simp [escape, unescape, ih]
        · by_cases feed : c = '\n'
          · subst feed; simp [escape, unescape, ih]
          · simp [escape, unescape, percent, space, feed, ih]

def ofText (s : String) : String := String.ofList (s.toList.flatMap escape)

def text (w : String) : String := String.ofList (unescape w.toList)

/-- The number of decimal digits. -/
def digits? (cs : List Char) : Option Nat :=
  if cs.isEmpty || !cs.all (Text.isDigit 10) then none else some (numeralValue 10 cs)

def int? (w : String) : Option Int :=
  match w.toList with
  | '-' :: cs => (digits? cs).map fun n => -(n : Int)
  | cs => (digits? cs).map fun n => (n : Int)

/-- A number with a fraction: its numerator and its denominator, with a stroke between them. -/
def ofRat (x : Rat) : String := toString x.num ++ "/" ++ toString x.den

def rat? (w : String) : Option Rat :=
  match w.splitOn "/" with
  | [num, den] => do
      let num ← int? num
      let den ← digits? den.toList
      if den = 0 then none else some (mkRat num den)
  | _ => none

/-- An optional value as a word. -/
def ofOption {α : Type} (write : α → String) : Option α → String
  | none => "-"
  | some a => "=" ++ write a

/-- The optional value of a word. -/
def option? {α : Type} (read : String → Option α) (w : String) : Option (Option α) :=
  match w.toList with
  | ['-'] => some none
  | '=' :: rest => (read (String.ofList rest)).map some
  | _ => none

/-- A byte in two hex digits. -/
def hexByte (b : UInt8) : List Char := [digitChar (b.toNat / 16), digitChar (b.toNat % 16)]

def bytes? : List Char → Option (List UInt8)
  | [] => some []
  | a :: b :: rest => do
      let high ← digitValue? 16 a
      let low ← digitValue? 16 b
      let later ← bytes? rest
      return (high * 16 + low).toUInt8 :: later
  | _ => none

/-- A stored value as a word: its kind in one letter, then its value. -/
def ofCell : Cell → String
  | .null => "n"
  | .integer n => "i" ++ toString n
  | .real x => "r" ++ ofRat x
  | .text s => "t" ++ ofText s
  | .blob bytes => "b" ++ String.ofList (bytes.flatMap hexByte)

/-- The stored value of a word. -/
def cell? (w : String) : Option Cell :=
  match w.toList with
  | ['n'] => some .null
  | 'i' :: rest => (int? (String.ofList rest)).map .integer
  | 'r' :: rest => (rat? (String.ofList rest)).map .real
  | 't' :: rest => some (.text (String.ofList (unescape rest)))
  | 'b' :: rest => (bytes? rest).map .blob
  | _ => none

def family? (w : String) : Option Family := [Family.v4, .v6].find? (·.name == w)

/-- The stored block of two words. -/
def block? (base prefixLen : String) : Option BlockRow := do
  return ⟨← cell? base, ← cell? prefixLen⟩

end Word

/-! ## Rows -/

inductive Row where
  | registrar (r : RegistrarRow)
  | org (o : OrgRow)
  | netblock (f : Family) (n : NetblockRow)
  | list (l : ListRow)
  | member (f : Family) (m : MemberRow)
  | union (f : Family) (u : UnionRow)
  | coverage (f : Family) (b : BlockRow)

namespace Row

def words : Row → List String
  | .registrar r =>
      ["registrar", toString r.id, Word.ofText r.name, toString r.serial, toString r.lastImport]
  | .org o =>
      ["org", toString o.id, toString o.registrar, toString o.serial, Word.ofText o.handle,
        Word.ofText o.name, Word.ofText o.descr]
  | .netblock f n =>
      ["netblock", f.name, toString n.id, toString n.registrar, toString n.serial,
        Word.ofOption Word.ofText n.reference, Word.ofOption toString n.org, Word.ofCell n.first,
        Word.ofCell n.last, toString n.prefixLen, Word.ofText n.name, Word.ofText n.descr]
  | .list l => ["list", toString l.id, Word.ofText l.name]
  | .member f m =>
      ["member", f.name, toString m.list, toString m.netblock, Word.ofCell m.first,
        Word.ofCell m.last, toString m.prefixLen]
  | .union f u =>
      ["union", f.name, toString u.list, Word.ofCell u.block.base, Word.ofCell u.block.prefixLen]
  | .coverage f b => ["coverage", f.name, Word.ofCell b.base, Word.ofCell b.prefixLen]

def ofWords? : List String → Option Row
  | ["registrar", id, name, serial, time] => do
      return .registrar ⟨← Word.int? id, Word.text name, ← Word.int? serial, ← Word.int? time⟩
  | ["org", id, owner, serial, handle, name, descr] => do
      return .org ⟨← Word.int? id, ← Word.int? owner, ← Word.int? serial, Word.text handle,
        Word.text name, Word.text descr⟩
  | ["netblock", f, id, owner, serial, reference, link, first, last, prefixLen, name, descr] => do
      return .netblock (← Word.family? f) ⟨← Word.int? id, ← Word.int? owner, ← Word.int? serial,
        ← Word.option? (some ∘ Word.text) reference, ← Word.option? Word.int? link,
        ← Word.cell? first, ← Word.cell? last, ← Word.int? prefixLen, Word.text name,
        Word.text descr⟩
  | ["list", id, name] => do
      return .list ⟨← Word.int? id, Word.text name⟩
  | ["member", f, target, id, first, last, prefixLen] => do
      return .member (← Word.family? f) ⟨← Word.int? target, ← Word.int? id, ← Word.cell? first,
        ← Word.cell? last, ← Word.int? prefixLen⟩
  | ["union", f, target, base, prefixLen] => do
      return .union (← Word.family? f) ⟨← Word.int? target, ← Word.block? base prefixLen⟩
  | ["coverage", f, base, prefixLen] => do
      return .coverage (← Word.family? f) (← Word.block? base prefixLen)
  | _ => none

def registrar? : Row → Option RegistrarRow
  | .registrar r => some r
  | _ => none

def org? : Row → Option OrgRow
  | .org o => some o
  | _ => none

def list? : Row → Option ListRow
  | .list l => some l
  | _ => none

/-- The netblock of a row, if it is of the family. -/
def netblock? : Family → Row → Option NetblockRow
  | .v4, .netblock .v4 n => some n
  | .v6, .netblock .v6 n => some n
  | _, _ => none

/-- The member of a row, if it is of the family. -/
def member? : Family → Row → Option MemberRow
  | .v4, .member .v4 m => some m
  | .v6, .member .v6 m => some m
  | _, _ => none

/-- The block of a union of a row, if it is of the family. -/
def union? : Family → Row → Option UnionRow
  | .v4, .union .v4 u => some u
  | .v6, .union .v6 u => some u
  | _, _ => none

/-- The block of the coverage of a row, if it is of the family. -/
def coverage? : Family → Row → Option BlockRow
  | .v4, .coverage .v4 b => some b
  | .v6, .coverage .v6 b => some b
  | _, _ => none

end Row

/-! ## Tables -/

namespace Tables

/-- The rows that the tables have for one family. -/
def familyRows (t : Tables) (f : Family) : List Row :=
  (t.netblocks.get f).map (.netblock f) ++ (t.members.get f).map (.member f) ++
    (t.unions.get f).map (.union f) ++ (t.coverage.get f).map (.coverage f)

def rows (t : Tables) : List Row :=
  t.registrars.map .registrar ++ t.orgs.map .org ++ t.lists.map .list ++ t.familyRows .v4 ++
    t.familyRows .v6

def ofRows (rows : List Row) : Tables where
  registrars := rows.filterMap Row.registrar?
  orgs := rows.filterMap Row.org?
  netblocks := .ofFn fun f => rows.filterMap (Row.netblock? f)
  lists := rows.filterMap Row.list?
  members := .ofFn fun f => rows.filterMap (Row.member? f)
  unions := .ofFn fun f => rows.filterMap (Row.union? f)
  coverage := .ofFn fun f => rows.filterMap (Row.coverage? f)

/-- The rows of the tables give the tables back. -/
theorem ofRows_rows (t : Tables) : ofRows t.rows = t := by
  have nothing {α β : Type} (l : List α) : l.filterMap (fun _ => (none : Option β)) = [] := by
    induction l with
    | nil => rfl
    | cons a l ih => exact ih
  simp only [ofRows, rows, familyRows, PerFamily.ofFn, PerFamily.get, List.filterMap_append,
    List.filterMap_map, Function.comp_def, nothing, List.filterMap_some, List.append_nil,
    List.nil_append, Row.registrar?, Row.org?, Row.list?, Row.netblock?, Row.member?, Row.union?,
    Row.coverage?]

end Tables

/-! ## Databases -/

namespace Database

/-- The line that starts the text of a database. -/
def archiveTitle : String := "netblock registry 1"

/-- A database as text; what an open transaction did is not part of it. -/
def archive (db : Database) : String :=
  let rows := db.reopened.tables.rows
  String.join ((archiveTitle :: rows.map fun r => " ".intercalate r.words).map (· ++ "\n"))

def ofArchive? (text : String) : Option Database :=
  match text.splitOn "\n" with
  | title :: lines =>
      if title = archiveTitle then do
        let rows ← (lines.filter (!·.isEmpty)).mapM fun line => Row.ofWords? (line.splitOn " ")
        return ⟨.ofRows rows, none⟩
      else none
  | [] => none

end Database

end NetRegistry
