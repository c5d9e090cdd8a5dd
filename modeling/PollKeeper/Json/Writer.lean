import PollKeeper.Json.Quoted
import PollKeeper.Json.Value

/-!
# Writing JSON

The compact form: no white space between tokens, members in their order.
-/

namespace PollKeeper.Json

def writeText : Option String → List Char
  | some s => quote s.toList
  | none => ['"', '\\', 'u', 'd', '8', '0', '0', '"']

mutual

def write : Json → List Char
  | null => ['n', 'u', 'l', 'l']
  | bool true => ['t', 'r', 'u', 'e']
  | bool false => ['f', 'a', 'l', 's', 'e']
  | integer n => Text.signedDigits n
  | fractional literal => literal
  | text s => writeText s
  | array items => '[' :: writeItems items
  | object members => '{' :: writeMembers members

def writeItems : List Json → List Char
  | [] => [']']
  | [item] => write item ++ [']']
  | item :: rest => write item ++ ',' :: writeItems rest

def writeMembers : List (Option String × Json) → List Char
  | [] => ['}']
  | [(name, value)] => writeText name ++ ':' :: write value ++ ['}']
  | (name, value) :: rest => writeText name ++ ':' :: write value ++ ',' :: writeMembers rest

end

def render (j : Json) : String := .ofList j.write

end PollKeeper.Json
