import PollKeeper.Text.Decimal

/-!
# Quoted text of JSON

How a string is written between quotation marks, and how it is read back. In writing, only what
must be escaped is: quotation marks, backslashes and control characters.
-/

namespace PollKeeper.Json

open Text

def hexDigit (n : Nat) : Char := (Nat.toDigits 16 (n % 16)).headD '0'

def shortEscapes : List (Char × Char) :=
  [('"', '"'), ('\\', '\\'), ('\x08', 'b'), ('\x0c', 'f'), ('\n', 'n'), ('\r', 'r'), ('\t', 't')]

def quoteChar (c : Char) : List Char :=
  match shortEscapes.lookup c with
  | some letter => ['\\', letter]
  | none =>
    if c.toNat < 32 then ['\\', 'u', '0', '0', hexDigit (c.toNat / 16), hexDigit c.toNat] else [c]

def quote (cs : List Char) : List Char := '"' :: cs.flatMap quoteChar ++ ['"']

inductive Piece where
  | char (c : Char)
  | high (code : Nat)
  | low (code : Nat)

def Piece.ofCode (code : Nat) : Piece :=
  if 0xD800 ≤ code ∧ code < 0xDC00 then .high code
  else if 0xDC00 ≤ code ∧ code < 0xE000 then .low code
  else .char (.ofNat code)

def Piece.join? : List Piece → Option (List Char)
  | [] => some []
  | .char c :: rest => (join? rest).map (c :: ·)
  | .high h :: .low l :: rest =>
    (join? rest).map (Char.ofNat (0x10000 + (h - 0xD800) * 0x400 + (l - 0xDC00)) :: ·)
  | _ => none

def unescape? (letter : Char) : Option Char :=
  if letter = '/' then some '/'
  else (shortEscapes.find? (·.2 = letter)).map (·.1)

/-- Reads pieces up to the closing quotation mark. Control characters must be escaped. -/
def pieces? : List Char → Option (List Piece × List Char)
  | [] => none
  | '"' :: rest => some ([], rest)
  | '\\' :: 'u' :: a :: b :: c :: d :: rest => do
    let code ← hexNumber? [a, b, c, d]
    let (pieces, rest) ← pieces? rest
    some (.ofCode code :: pieces, rest)
  | '\\' :: letter :: rest => do
    let c ← unescape? letter
    let (pieces, rest) ← pieces? rest
    some (.char c :: pieces, rest)
  | c :: rest =>
    if c.toNat < 32 ∨ c = '\\' then none
    else (pieces? rest).map fun (pieces, rest) => (.char c :: pieces, rest)

def unquote? (cs : List Char) : Option (Option String × List Char) :=
  (pieces? cs).map fun (pieces, rest) => ((Piece.join? pieces).map .ofList, rest)

end PollKeeper.Json
