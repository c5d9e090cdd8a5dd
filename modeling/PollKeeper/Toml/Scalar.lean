import PollKeeper.Time.Calendar
import PollKeeper.Toml.Node
import PollKeeper.Toml.Text

/-!
# Numbers and times of TOML
-/

namespace PollKeeper.Toml

open PollKeeper.Text

def digitRun (isDigit : Char → Bool) : List Char → List Char × List Char
  | '_' :: c :: rest =>
    if isDigit c then
      let (run, after) := digitRun isDigit rest
      (c :: run, after)
    else ([], '_' :: c :: rest)
  | c :: rest =>
    if isDigit c then
      let (run, after) := digitRun isDigit rest
      (c :: run, after)
    else ([], c :: rest)
  | [] => ([], [])

def digits? (isDigit : Char → Bool) : List Char → Option (List Char × List Char)
  | c :: rest => if isDigit c then some (digitRun isDigit (c :: rest)) else none
  | [] => none

/-- The whole part of a decimal number: zero alone, or digits of which the first is not zero. -/
def whole? : List Char → Option (List Char × List Char)
  | '0' :: rest => some (['0'], rest)
  | cs => digits? isDigit cs

def integer? (n : Int) : Option Node :=
  if -9223372036854775808 ≤ n ∧ n ≤ 9223372036854775807 then some (.integer n) else none

def based? (base : Nat) (cs : List Char) : Option (Node × List Char) := do
  let (run, rest) ← digits? (fun c => (hexValue? c).any (· < base)) cs
  let n := run.foldl (fun n c => base * n + (hexValue? c).getD 0) 0
  let node ← integer? n
  some (node, rest)

/-- Whether a decimal number is rounded to infinity, that is, lies half a unit or more above the
greatest double. The number is `mantissa` times ten to the power of `scale`. -/
def isHuge (mantissa : Nat) (scale : Int) : Bool :=
  let bound := Nat.pow 2 1024 - Nat.pow 2 970
  let magnitude : Int := (digits mantissa).length + scale
  if mantissa = 0 ∨ magnitude ≤ 308 then false
  else if 310 < magnitude then true
  else if 0 ≤ scale then bound ≤ mantissa * Nat.pow 10 scale.toNat
  else bound * Nat.pow 10 (-scale).toNat ≤ mantissa

def fraction? : List Char → Option (List Char × List Char)
  | '.' :: rest => digits? isDigit rest
  | cs => some ([], cs)

def exponent? : List Char → Option (Option Int × List Char)
  | [] => some (none, [])
  | e :: cs =>
    if e = 'e' ∨ e = 'E' then
      let (negative, cs) :=
        match cs with
        | '-' :: rest => (true, rest)
        | '+' :: rest => (false, rest)
        | cs => (false, cs)
      (digits? isDigit cs).map fun (run, rest) =>
        (some (if negative then -(numberOf run : Int) else numberOf run), rest)
    else some (none, e :: cs)

def decimal? (negative : Bool) (cs : List Char) : Option (Node × List Char) := do
  let (whole, cs) ← whole? cs
  let (fraction, cs) ← fraction? cs
  let (exponent, cs) ← exponent? cs
  if fraction.isEmpty ∧ exponent.isNone then
    let n := numberOf whole
    let node ← integer? (if negative then -n else n)
    some (node, cs)
  else
    let scale := exponent.getD 0 - fraction.length
    if !negative && isHuge (numberOf (whole ++ fraction)) scale then none
    else some (.float, cs)

def unsigned? (negative : Bool) : List Char → Option (Node × List Char)
  | 'i' :: 'n' :: 'f' :: rest => some (.float, rest)
  | 'n' :: 'a' :: 'n' :: rest => some (.float, rest)
  | cs => decimal? negative cs

def number? : List Char → Option (Node × List Char)
  | '0' :: 'x' :: rest => based? 16 rest
  | '0' :: 'o' :: rest => based? 8 rest
  | '0' :: 'b' :: rest => based? 2 rest
  | '+' :: rest => unsigned? false rest
  | '-' :: rest => unsigned? true rest
  | cs => unsigned? false cs

def fixed? (width : Nat) (cs : List Char) : Option (Nat × List Char) :=
  let (run, rest) := takeDigits width cs
  if run.length = width then some (numberOf run, rest) else none

def mark? (mark : Char) : List Char → Option (List Char)
  | c :: rest => if c = mark then some rest else none
  | [] => none

def date? (cs : List Char) : Option (List Char) := do
  let (year, cs) ← fixed? 4 cs
  let cs ← mark? '-' cs
  let (month, cs) ← fixed? 2 cs
  let cs ← mark? '-' cs
  let (day, cs) ← fixed? 2 cs
  if (⟨year, month, day⟩ : Time.Date).isReal then some cs else none

def clock? (cs : List Char) : Option (List Char) := do
  let (hour, cs) ← fixed? 2 cs
  let cs ← mark? ':' cs
  let (minute, cs) ← fixed? 2 cs
  let cs ← mark? ':' cs
  let (second, cs) ← fixed? 2 cs
  if hour ≤ 23 ∧ minute ≤ 59 ∧ second ≤ 60 then
    match cs with
    | '.' :: c :: rest => if isDigit c then some (rest.dropWhile isDigit) else some cs
    | _ => some cs
  else none

def offset? : List Char → Option (List Char)
  | 'Z' :: rest => some rest
  | 'z' :: rest => some rest
  | '+' :: rest => distance? rest
  | '-' :: rest => distance? rest
  | cs => some cs
where
  distance? (cs : List Char) : Option (List Char) := do
    let (hour, cs) ← fixed? 2 cs
    let cs ← mark? ':' cs
    let (minute, cs) ← fixed? 2 cs
    if hour ≤ 23 ∧ minute ≤ 59 then some cs else none

def dateTail? (cs : List Char) : Option (List Char) :=
  match cs with
  | c :: rest =>
    if c = 'T' ∨ c = 't' ∨ c = ' ' then
      match clock? rest with
      | some rest => offset? rest
      | none => some cs
    else some cs
  | [] => some []

def moment? (cs : List Char) : Option (Node × List Char) :=
  match date? cs with
  | some rest => (dateTail? rest).map fun rest => (.moment, rest)
  | none => (clock? cs).map fun rest => (.moment, rest)

def scalarNode? (cs : List Char) : Option (Node × List Char) :=
  match cs with
  | '"' :: _ => (string? cs).map fun (s, rest) => (.text s, rest)
  | '\'' :: _ => (string? cs).map fun (s, rest) => (.text s, rest)
  | 't' :: 'r' :: 'u' :: 'e' :: rest => some (.boolean true, rest)
  | 'f' :: 'a' :: 'l' :: 's' :: 'e' :: rest => some (.boolean false, rest)
  | _ =>
    match moment? cs with
    | some found => some found
    | none => number? cs

end PollKeeper.Toml
