/-!
# The tree of a TOML document

Tables remember how they came to be, because that decides whether they may be extended further on.
-/

namespace PollKeeper.Toml

inductive TableForm where
  | inline
  | defined
  | implied
  | dotted
  deriving DecidableEq

/-- A value or a table. Floats and times are not told apart, since nothing depends on them. -/
inductive Node where
  | text (value : String)
  | integer (value : Int)
  | float
  | boolean (value : Bool)
  | moment
  | array (items : List Node)
  | table (form : TableForm) (entries : List (String × Node))
  /-- The tables under a header in double brackets, by their entries. -/
  | tables (items : List (List (String × Node)))

abbrev Entries := List (String × Node)

def Entries.replace (entries : Entries) (key : String) (node : Node) : Entries :=
  entries.map fun e => if e.1 = key then (key, node) else e

end PollKeeper.Toml
