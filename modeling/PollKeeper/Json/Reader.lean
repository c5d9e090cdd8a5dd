import PollKeeper.Json.Quoted
import PollKeeper.Json.Value

/-!
# Reading JSON

Strict JSON: no comments, no trailing commas, white space only between tokens.
-/

namespace PollKeeper.Json

open Text

def isSpace (c : Char) : Bool := c = ' ' || c = '\t' || c = '\n' || c = '\r'

def skipSpace (cs : List Char) : List Char := cs.dropWhile isSpace

def fraction? : List Char → Option (List Char × List Char)
  | '.' :: cs =>
    let (run, rest) := cs.span isDigit
    if run.isEmpty then none else some ('.' :: run, rest)
  | cs => some ([], cs)

def exponent? : List Char → Option (List Char × List Char)
  | [] => some ([], [])
  | e :: cs =>
    if e = 'e' ∨ e = 'E' then
      let (sign, cs) := cs.span fun c => c = '+' || c = '-'
      let (run, rest) := cs.span isDigit
      if run.isEmpty ∨ sign.length > 1 then none else some (e :: sign ++ run, rest)
    else some ([], e :: cs)

def number? (cs : List Char) : Option (Json × List Char) := do
  let negative := cs.head? = some '-'
  let (whole, cs) := (if negative then cs.drop 1 else cs).span isDigit
  if whole.isEmpty ∨ whole.length > 1 ∧ whole.head? = some '0' then none
  let (fraction, cs) ← fraction? cs
  let (exponent, cs) ← exponent? cs
  let n := numberOf whole
  if fraction.isEmpty ∧ exponent.isEmpty ∧ ¬ (negative ∧ n = 0) then
    some (.integer (if negative then -n else n), cs)
  else
    some (.fractional ((if negative then ['-'] else []) ++ whole ++ fraction ++ exponent), cs)

def scalar? : List Char → Option (Json × List Char)
  | 'n' :: 'u' :: 'l' :: 'l' :: rest => some (.null, rest)
  | 't' :: 'r' :: 'u' :: 'e' :: rest => some (.bool true, rest)
  | 'f' :: 'a' :: 'l' :: 's' :: 'e' :: rest => some (.bool false, rest)
  | '"' :: rest => (unquote? rest).map fun (s, rest) => (.text s, rest)
  | cs => number? cs

mutual

/-- A value at the front of a text without leading white space, and what follows it. The fuel
bounds the number of values. -/
def value? : Nat → List Char → Option (Json × List Char)
  | 0, _ => none
  | fuel + 1, '[' :: rest =>
    match skipSpace rest with
    | ']' :: rest => some (.array [], rest)
    | rest => (items? fuel rest).map fun (items, rest) => (.array items, rest)
  | fuel + 1, '{' :: rest =>
    match skipSpace rest with
    | '}' :: rest => some (.object [], rest)
    | rest => (members? fuel rest).map fun (members, rest) => (.object members, rest)
  | _ + 1, cs => scalar? cs

def items? : Nat → List Char → Option (List Json × List Char)
  | 0, _ => none
  | fuel + 1, cs => do
    let (item, cs) ← value? fuel cs
    match skipSpace cs with
    | ',' :: rest =>
      let (items, rest) ← items? fuel (skipSpace rest)
      some (item :: items, rest)
    | ']' :: rest => some ([item], rest)
    | _ => none

def members? : Nat → List Char → Option (List (Option String × Json) × List Char)
  | 0, _ => none
  | fuel + 1, '"' :: cs => do
    let (name, cs) ← unquote? cs
    match skipSpace cs with
    | ':' :: cs =>
      let (value, cs) ← value? fuel (skipSpace cs)
      match skipSpace cs with
      | ',' :: rest =>
        let (members, rest) ← members? fuel (skipSpace rest)
        some ((name, value) :: members, rest)
      | '}' :: rest => some ([(name, value)], rest)
      | _ => none
    | _ => none
  | _ + 1, _ => none

end

def read? (s : String) : Option Json := do
  let cs := s.toList
  let (value, rest) ← value? (cs.length + 1) (skipSpace cs)
  if rest.all isSpace then some value else none

end PollKeeper.Json
