/-!
# Decimal numerals

Writing whole numbers in base ten, to a least width, and reading digits back.
-/

namespace PollKeeper.Text

def digits (n : Nat) : List Char := Nat.toDigits 10 n

def signedDigits (n : Int) : List Char :=
  if n < 0 then '-' :: digits n.natAbs else digits n.natAbs

def padLeft (width : Nat) (fill : Char) (cs : List Char) : List Char :=
  List.replicate (width - cs.length) fill ++ cs

def digitValue? (c : Char) : Option Nat :=
  if '0' ≤ c ∧ c ≤ '9' then some (c.toNat - '0'.toNat) else none

def isDigit (c : Char) : Bool := (digitValue? c).isSome

def numberOf (cs : List Char) : Nat :=
  cs.foldl (fun n c => 10 * n + (digitValue? c).getD 0) 0

/-- A whole number of 64 bits with a sign: digits, and a plus or a minus in front or not. -/
def int64? (cs : List Char) : Option Int :=
  let (negative, run) :=
    match cs with
    | '-' :: rest => (true, rest)
    | '+' :: rest => (false, rest)
    | cs => (false, cs)
  if run.isEmpty ∨ ¬ run.all isDigit then none
  else
    let n : Int := if negative then -(numberOf run : Int) else numberOf run
    if -9223372036854775808 ≤ n ∧ n ≤ 9223372036854775807 then some n else none

/-- Splits off the leading digits, at most `limit` of them. -/
def takeDigits (limit : Nat) (cs : List Char) : List Char × List Char :=
  let run := (cs.take limit).takeWhile isDigit
  (run, cs.drop run.length)

def hexValue? (c : Char) : Option Nat :=
  if '0' ≤ c ∧ c ≤ '9' then some (c.toNat - '0'.toNat)
  else if 'a' ≤ c ∧ c ≤ 'f' then some (c.toNat - 'a'.toNat + 10)
  else if 'A' ≤ c ∧ c ≤ 'F' then some (c.toNat - 'A'.toNat + 10)
  else none

def hexNumber? (cs : List Char) : Option Nat :=
  cs.foldlM (fun n c => (hexValue? c).map (16 * n + ·)) 0

end PollKeeper.Text
