/-
# Store.Database -- statements and transactions

A *statement* reads and writes the tables; when it fails it gives no new tables,
so a failed statement changes nothing.  A database keeps, while a transaction is
open, the tables as they were when it started; a rollback puts them back.
Outside a transaction every statement takes effect at once.
-/
import NetRegistry.Error
import NetRegistry.Fallible
import NetRegistry.Store.Tables

namespace NetRegistry

set_option autoImplicit false

abbrev Statement (α : Type) : Type := Tables → Except StorageError (α × Tables)

/-- The tables, and those to go back to while a transaction is open. -/
structure Database where
  tables : Tables
  saved : Option Tables

namespace Database

def empty : Database := ⟨.empty, none⟩

def inTransaction (db : Database) : Bool := db.saved.isSome

def exec {α : Type} (stmt : Statement α) : Fallible Database StorageError α := fun db =>
  match stmt db.tables with
  | .ok (a, t) => (.ok a, { db with tables := t })
  | .error e => (.error e, db)

def query {α : Type} (q : Tables → Except StorageError α) : Fallible Database StorageError α :=
  fun db => (q db.tables, db)

def begin : Fallible Database StorageError Unit := fun db =>
  if db.inTransaction then (.error .nestedBegin, db)
  else (.ok (), { db with saved := some db.tables })

/-- Keep what the transaction did. -/
def commit : Fallible Database StorageError Unit := fun db =>
  if db.inTransaction then (.ok (), { db with saved := none })
  else (.error .nothingToCommit, db)

/-- Undo what the transaction did. -/
def rollback : Fallible Database StorageError Unit := fun db =>
  match db.saved with
  | some t => (.ok (), ⟨t, none⟩)
  | none => (.error .nothingToRollBack, db)

/-- The database as it is found when it is opened again: an open transaction is lost. -/
def reopened (db : Database) : Database := ⟨db.saved.getD db.tables, none⟩

end Database

end NetRegistry
