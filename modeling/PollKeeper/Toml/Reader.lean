import PollKeeper.Toml.Document
import PollKeeper.Toml.Scalar

/-!
# Reading TOML

A document is a sequence of lines: headers, keys with their values, comments. Arrays may run over
several lines, tables in braces may not.
-/

namespace PollKeeper.Toml

mutual

/-- A value, and what follows. The fuel bounds the number of values, and `depth` how deep they may
still be nested. -/
def value? : Nat → Nat → List Char → Option (Node × List Char)
  | 0, _, _ => none
  | fuel + 1, depth, '[' :: rest =>
    match depth with
    | 0 => none
    | depth + 1 => (items? fuel depth rest).map fun (items, rest) => (.array items, rest)
  | fuel + 1, depth, '{' :: rest =>
    match depth with
    | 0 => none
    | depth + 1 =>
      match skipSpace rest with
      | '}' :: rest => some (.table .inline [], rest)
      | rest => (pairs? fuel depth [] rest).map fun (entries, rest) => (.table .inline entries, rest)
  | _ + 1, _, cs => scalarNode? cs

def items? : Nat → Nat → List Char → Option (List Node × List Char)
  | 0, _, _ => none
  | fuel + 1, depth, cs => do
    match ← skipFiller (cs.length + 1) cs with
    | ']' :: rest => some ([], rest)
    | cs =>
      let (item, cs) ← value? fuel depth cs
      match ← skipFiller (cs.length + 1) cs with
      | ',' :: rest =>
        let (items, rest) ← items? fuel depth rest
        some (item :: items, rest)
      | ']' :: rest => some ([item], rest)
      | _ => none

def pairs? : Nat → Nat → Entries → List Char → Option (Entries × List Char)
  | 0, _, _, _ => none
  | fuel + 1, depth, entries, cs => do
    let ((path, key), cs) ← key? cs
    let cs ← mark? '=' cs
    let (value, cs) ← value? fuel depth (skipSpace cs)
    let entries ← assign path key value .inline entries
    match skipSpace cs with
    | ',' :: rest => pairs? fuel depth entries rest
    | '}' :: rest => some (entries, rest)
    | _ => none

end

def header? (d : Draft) : List Char → Option (Draft × List Char)
  | '[' :: rest => do
    let ((path, key), rest) ← key? rest
    let rest ← (mark? ']' rest).bind (mark? ']')
    some (← d.openHeader true path key, ← lineEnd? rest)
  | rest => do
    let ((path, key), rest) ← key? rest
    let rest ← mark? ']' rest
    some (← d.openHeader false path key, ← lineEnd? rest)

def setting? (d : Draft) (cs : List Char) : Option (Draft × List Char) := do
  let ((path, key), cs) ← key? cs
  let cs ← mark? '=' cs
  let (value, cs) ← value? (cs.length + 1) maxDepth (skipSpace cs)
  some (← d.set path key value, ← lineEnd? cs)

/-- The lines of a document. The fuel bounds their number. -/
def lines? : Nat → Draft → List Char → Option Draft
  | 0, _, _ => none
  | fuel + 1, d, cs =>
    match skipSpace cs with
    | [] => some d
    | '[' :: rest => (header? d rest).bind fun (d, rest) => lines? fuel d rest
    | cs =>
      match lineEnd? cs with
      | some rest => lines? fuel d rest
      | none => (setting? d cs).bind fun (d, rest) => lines? fuel d rest

/-- The entries of a document. A byte order mark may stand at its front. -/
def read? (s : String) : Option Entries :=
  let cs :=
    match s.toList with
    | '\uFEFF' :: rest => rest
    | cs => cs
  (lines? (cs.length + 1) .empty cs).map (·.root)

end PollKeeper.Toml
