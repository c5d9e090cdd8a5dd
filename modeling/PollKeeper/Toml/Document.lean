import PollKeeper.Toml.Node

/-!
# Building tables

Keys and headers put tables in their places. No key is set twice, and no table is defined twice:
neither by two headers, nor by a header and by dotted keys.
-/

namespace PollKeeper.Toml

/-- Changes the table at the end of a path. Tables that are missing on the way come into being, of
the form `fresh`; of tables in double brackets the last one is meant. A path of a dotted key does
not lead through a table with a header of its own. -/
def alter (fresh : TableForm) (change : TableForm → Entries → Option Entries) :
    List String → TableForm → Entries → Option Entries
  | [], form, entries => change form entries
  | key :: path, _, entries =>
    match entries.lookup key with
    | none => do
      let below ← alter fresh change path fresh []
      some (entries ++ [(key, .table fresh below)])
    | some (.table form below) =>
      if form = .inline ∨ form = .defined ∧ fresh = .dotted then none
      else do
        let below ← alter fresh change path form below
        some (entries.replace key (.table form below))
    | some (.tables items) => do
      let below ← alter fresh change path .defined (← items.getLast?)
      some (entries.replace key (.tables (items.dropLast ++ [below])))
    | some _ => none

/-- Sets a key that is not set. What dotted keys made, only dotted keys extend, and they extend
nothing else. -/
def assign (path : List String) (key : String) (value : Node) (form : TableForm)
    (entries : Entries) : Option Entries :=
  alter .dotted (fun form entries =>
    if decide (form = .dotted) = path.isEmpty ∨ (entries.lookup key).isSome then none
    else some (entries ++ [(key, value)])) path form entries

def openTable (key : String) (_ : TableForm) (entries : Entries) : Option Entries :=
  match entries.lookup key with
  | none => some (entries ++ [(key, .table .defined [])])
  | some (.table .implied below) => some (entries.replace key (.table .defined below))
  | some _ => none

def openAnother (key : String) (_ : TableForm) (entries : Entries) : Option Entries :=
  match entries.lookup key with
  | none => some (entries ++ [(key, .tables [[]])])
  | some (.tables items) => some (entries.replace key (.tables (items ++ [[]])))
  | some _ => none

/-- A document that is being read: its tables so far, and the path of the one that is open. -/
structure Draft where
  root : Entries
  current : List String

namespace Draft

def empty : Draft := ⟨[], []⟩

def set (d : Draft) (path : List String) (key : String) (value : Node) : Option Draft := do
  let root ← alter .implied (assign path key value) d.current .defined d.root
  some { d with root }

def openHeader (d : Draft) (another : Bool) (path : List String) (key : String) : Option Draft := do
  let change := if another then openAnother key else openTable key
  let root ← alter .implied change path .defined d.root
  some ⟨root, path ++ [key]⟩

end Draft

end PollKeeper.Toml
