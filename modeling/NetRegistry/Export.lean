/-
# Export -- writing the union of a list as text

The union of a list is written one block a line, IPv4 before IPv6, each line
ended by a newline.  The writer may accept only so many bytes, and then refuses
the line that does not fit, having taken what fits of it.
-/
import NetRegistry.Store.Session

namespace NetRegistry

set_option autoImplicit false

/-- A writer that has accepted some text and may have a limit in bytes. -/
structure LimitedWriter where
  limit : Option Nat
  written : String
deriving DecidableEq

namespace LimitedWriter

/-- A writer that has accepted nothing. -/
def empty (limit : Option Nat) : LimitedWriter := ⟨limit, ""⟩

/-- Number of bytes that a writer still accepts; `none` when there is no limit. -/
def room (w : LimitedWriter) : Option Nat := w.limit.map (· - w.written.utf8ByteSize)

/-- As much of a text as fits into a number of bytes. -/
def fitting : Nat → List Char → List Char
  | _, [] => []
  | room, c :: rest => if c.utf8Size ≤ room then c :: fitting (room - c.utf8Size) rest else []

/-- Write a text, or as much of it as fits. -/
def write (text : String) : Fallible LimitedWriter Error Unit := fun w =>
  match w.room with
  | none => (.ok (), { w with written := w.written ++ text })
  | some room =>
      if text.utf8ByteSize ≤ room then (.ok (), { w with written := w.written ++ text })
      else
        (.error (.file .writerFull),
          { w with written := w.written ++ String.ofList (fitting room text.toList) })

end LimitedWriter

namespace Export

def line {f : Family} (b : Block f) : String := b.text ++ "\n"

/-- Write the union of a list in one family; the answer is the number of lines. -/
def union (f : Family) (list : RowId) : Fallible (LimitedWriter × Session) Error Nat :=
  Session.scanUnion f list fun b =>
    fun (w, s) =>
      let (r, w) := (LimitedWriter.write (line b)).run w
      (r, (w, s))

/-- The id of a list, which has to exist. -/
def listId (name : String) : Fallible Session Error RowId := do
  match ← Session.query fun t => .ok (t.listNamed? name) with
  | some id => return id
  | none => Fallible.fail (.unknownList name)

/-- Write the union of a list; the answer is the number of lines. -/
def list (name : String) : Fallible (LimitedWriter × Session) Error Nat := do
  let id ← Fallible.onSecond (listId name)
  let v4 ← union .v4 id
  let v6 ← union .v6 id
  Fallible.onSecond (Session.note ⟨.debug, s!"exported {name}: {v4} v4, {v6} v6 blocks"⟩)
  return v4 + v6

end Export

end NetRegistry
