import PollKeeper.Storage.Tables

/-!
# The database

The tables behind a pool of connections that can be closed for good; from then on every access
fails.
-/

namespace PollKeeper

structure Database where
  tables : Tables
  closed : Bool

namespace Database

def fresh : Database := ⟨.empty, false⟩

def read {α : Type} (d : Database) (f : Tables → Except StorageError α) :
    Except StorageError α :=
  if d.closed then .error (.engine .closed) else f d.tables

/-- Changes the tables; if the change fails they stay as they were. -/
def write {α : Type} (d : Database) (f : Tables → Except StorageError (α × Tables)) :
    Except StorageError α × Database :=
  match d.read f with
  | .ok (a, tables) => (.ok a, { d with tables })
  | .error e => (.error e, d)

end Database

end PollKeeper
