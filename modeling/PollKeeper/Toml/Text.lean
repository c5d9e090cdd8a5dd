import PollKeeper.Text.Decimal

/-!
# Texts of TOML

Strings in their four forms, and what may stand between tokens. Each reader gives what it read and
what follows.
-/

namespace PollKeeper.Toml

open PollKeeper.Text

def isSpace (c : Char) : Bool := c = ' ' || c = '\t'

def skipSpace (cs : List Char) : List Char := cs.dropWhile isSpace

/-- The characters that need no escape: tabs, and all but the control characters. -/
def isPlain (c : Char) : Bool := c = '\t' || (32 ≤ c.toNat && c.toNat ≠ 127)

def newline? : List Char → Option (List Char)
  | '\n' :: rest => some rest
  | '\r' :: '\n' :: rest => some rest
  | _ => none

def skipComment : List Char → List Char
  | '#' :: rest => rest.dropWhile isPlain
  | cs => cs

/-- What may follow a token in its line: white space, a comment, and the line break or the end. -/
def lineEnd? (cs : List Char) : Option (List Char) :=
  match skipComment (skipSpace cs) with
  | [] => some []
  | cs => newline? cs

def skipBlankLines : List Char → List Char
  | '\r' :: '\n' :: rest => skipBlankLines rest
  | c :: rest => if isSpace c || c = '\n' then skipBlankLines rest else c :: rest
  | [] => []

/-- Passes over white space, line breaks and comments; a comment must end its line. The fuel bounds
the number of comments. -/
def skipFiller : Nat → List Char → Option (List Char)
  | 0, _ => none
  | fuel + 1, cs =>
    match skipBlankLines cs with
    | '#' :: rest => (newline? (rest.dropWhile isPlain)).bind (skipFiller fuel)
    | cs => some cs

def scalar? (code : Nat) : Option Char :=
  if h : code.isValidChar then some ⟨code.toUInt32, by
    have : code < 4294967296 := by cases h <;> omega
    simpa [UInt32.isValidChar, Nat.toUInt32, Nat.mod_eq_of_lt this] using h⟩
  else none

def escape? : List Char → Option (Char × List Char)
  | 'b' :: rest => some ('\x08', rest)
  | 't' :: rest => some ('\t', rest)
  | 'n' :: rest => some ('\n', rest)
  | 'f' :: rest => some ('\x0c', rest)
  | 'r' :: rest => some ('\r', rest)
  | '"' :: rest => some ('"', rest)
  | '\\' :: rest => some ('\\', rest)
  | 'u' :: rest => coded 4 rest
  | 'U' :: rest => coded 8 rest
  | _ => none
where
  coded (width : Nat) (cs : List Char) : Option (Char × List Char) :=
    if cs.length < width then none
    else ((hexNumber? (cs.take width)).bind scalar?).map fun c => (c, cs.drop width)

def basic? : Nat → List Char → Option (List Char × List Char)
  | 0, _ => none
  | _ + 1, [] => none
  | _ + 1, '"' :: rest => some ([], rest)
  | fuel + 1, '\\' :: rest => do
    let (c, rest) ← escape? rest
    let (cs, rest) ← basic? fuel rest
    some (c :: cs, rest)
  | fuel + 1, c :: rest =>
    if isPlain c then (basic? fuel rest).map fun (cs, rest) => (c :: cs, rest) else none

def literal? (cs : List Char) : Option (List Char × List Char) :=
  match cs.span fun c => isPlain c && c ≠ '\'' with
  | (run, '\'' :: rest) => some (run, rest)
  | _ => none

/-- The end of a string of several lines: three marks, before which two more may stand as part of
the string. `count` is the number of marks in a row. -/
def closing? (mark : Char) (count : Nat) (rest : List Char) : Option (List Char × List Char) :=
  if count < 3 then none
  else if count ≤ 5 then some (.replicate (count - 3) mark, rest)
  else some ([mark, mark], .replicate (count - 5) mark ++ rest)

/-- The rest of a string of several lines. In one with escapes, a backslash at the end of a line
takes away the line break and all blanks after it. The fuel bounds its characters. -/
def multiline? (mark : Char) (escapes : Bool) : Nat → List Char → Option (List Char × List Char)
  | 0, _ => none
  | _ + 1, [] => none
  | fuel + 1, c :: rest =>
    if c = mark then
      let (marks, after) := (c :: rest).span (· = mark)
      match closing? mark marks.length after with
      | some found => some found
      | none => (multiline? mark escapes fuel after).map fun (cs, rest) => (marks ++ cs, rest)
    else if c = '\\' ∧ escapes then
      match newline? (skipSpace rest) with
      | some after => multiline? mark escapes fuel (skipBlankLines after)
      | none => do
        let (c, rest) ← escape? rest
        let (cs, rest) ← multiline? mark escapes fuel rest
        some (c :: cs, rest)
    else
      match newline? (c :: rest) with
      | some rest => (multiline? mark escapes fuel rest).map fun (cs, rest) => ('\n' :: cs, rest)
      | none =>
        if isPlain c then
          (multiline? mark escapes fuel rest).map fun (cs, rest) => (c :: cs, rest)
        else none

def skipFirstNewline (cs : List Char) : List Char := (newline? cs).getD cs

/-- A string in one of its four forms. -/
def string? (cs : List Char) : Option (String × List Char) :=
  let found :=
    match cs with
    | '"' :: '"' :: '"' :: rest => multiline? '"' true (cs.length + 1) (skipFirstNewline rest)
    | '\'' :: '\'' :: '\'' :: rest =>
      multiline? '\'' false (cs.length + 1) (skipFirstNewline rest)
    | '"' :: rest => basic? (cs.length + 1) rest
    | '\'' :: rest => literal? rest
    | _ => none
  found.map fun (cs, rest) => (.ofList cs, rest)

def isBareKeyChar (c : Char) : Bool :=
  isDigit c || ('a' ≤ c && c ≤ 'z') || ('A' ≤ c && c ≤ 'Z') || c = '-' || c = '_'

def simpleKey? (cs : List Char) : Option (String × List Char) :=
  match cs with
  | '"' :: rest => (basic? (cs.length + 1) rest).map fun (cs, rest) => (.ofList cs, rest)
  | '\'' :: rest => (literal? rest).map fun (cs, rest) => (.ofList cs, rest)
  | _ =>
    let (run, rest) := cs.span isBareKeyChar
    if run.isEmpty then none else some (.ofList run, rest)

def keyParts? : Nat → List Char → Option (List String × List Char)
  | 0, _ => none
  | fuel + 1, cs => do
    let (part, cs) ← simpleKey? (skipSpace cs)
    match skipSpace cs with
    | '.' :: rest =>
      let (parts, rest) ← keyParts? fuel rest
      some (part :: parts, rest)
    | rest => some ([part], rest)

/-- How deep values may be nested, and how many parts a key may have. -/
def maxDepth : Nat := 79

/-- A key with its parts in front of the last one. White space around it is passed over. -/
def key? (cs : List Char) : Option ((List String × String) × List Char) := do
  let (parts, rest) ← keyParts? (maxDepth + 1) cs
  if parts.length > maxDepth then none
  (parts.getLast?).map fun last => ((parts.dropLast, last), rest)

end PollKeeper.Toml
