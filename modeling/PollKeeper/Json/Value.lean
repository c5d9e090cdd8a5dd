/-!
# JSON values

The values of a JSON document as far as records need them: numbers are whole or left as they were
written, and a text may fail to denote a string. A record is an object that holds each of its
fields once, or an array of them in order.
-/

namespace PollKeeper

inductive Json where
  | null
  | bool (value : Bool)
  | integer (value : Int)
  /-- A number written with a fraction, with an exponent or as minus zero. -/
  | fractional (literal : List Char)
  /-- A text; none if it holds half of a surrogate pair. -/
  | text (value : Option String)
  | array (items : List Json)
  | object (members : List (Option String × Json))

namespace Json

def string (s : String) : Json := .text (some s)

def integerIn? (low high : Int) : Json → Option Int
  | integer n => if low ≤ n ∧ n ≤ high then some n else none
  | _ => none

def int64? : Json → Option Int := integerIn? (-9223372036854775808) 9223372036854775807

def natUpTo? (high : Nat) (j : Json) : Option Nat := (j.integerIn? 0 high).map (·.toNat)

def nat64? : Json → Option Nat := natUpTo? 18446744073709551615

def bool? : Json → Option Bool
  | bool b => some b
  | _ => none

def string? : Json → Option String
  | text s => s
  | _ => none

def array? : Json → Option (List Json)
  | array items => some items
  | _ => none

def named (name : String) (members : List (Option String × Json)) : List Json :=
  members.filterMap fun (key, value) => if key = some name then some value else none

/-- The values of a record's fields in the order of their names. Members with other names are
passed over; a name that denotes no string spoils the record. -/
def fields? (names : List String) : Json → Option (List Json)
  | array items => if items.length = names.length then some items else none
  | object members =>
    if members.any (·.1.isNone) then none
    else names.mapM fun name =>
      match named name members with
      | [value] => some value
      | _ => none
  | _ => none

end Json

end PollKeeper
