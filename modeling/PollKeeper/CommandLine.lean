import PollKeeper.Poll.Basic
import PollKeeper.Text.Decimal

/-!
# The command line

The options of the program and how arguments set them. A value may stand in the next argument, or
attached to its option. A value in an argument of its own is not looked at before the next option
or the end, so that an argument which cannot be is reported first.
-/

namespace PollKeeper

structure CommandLine where
  config : String
  guilds : List GuildId
  jsonLogs : Bool
  deriving DecidableEq

/-- Why the arguments do not start the program. -/
inductive UsageError where
  | unknownArgument
  | invalidValue
  | valueValidation
  | argumentConflict
  | tooManyValues
  | displayHelp
  deriving DecidableEq

namespace CommandLine

inductive Opt where
  | config
  | guild
  deriving DecidableEq

/-- What the arguments so far have set, and the option that is still open with its value, if it has
one already. -/
structure Progress where
  config : Option String
  guilds : List GuildId
  jsonLogs : Bool
  opened : Option (Opt × Option String)

namespace Progress

def start : Progress := ⟨none, [], false, none⟩

def set (p : Progress) (value : String) : Opt → Except UsageError Progress
  | .config =>
    if p.config.isSome then .error .argumentConflict else .ok { p with config := some value }
  | .guild =>
    match Text.int64? value.toList with
    | some guild => .ok { p with guilds := p.guilds ++ [guild] }
    | none => .error .valueValidation

def settle (p : Progress) : Except UsageError Progress :=
  match p.opened with
  | none => .ok p
  | some (_, none) => .error .invalidValue
  | some (o, some value) => { p with opened := none }.set value o

def option (p : Progress) (o : Opt) (attached : Option String) : Except UsageError Progress := do
  let p ← p.settle
  match attached with
  | some value => p.set value o
  | none => .ok { p with opened := some (o, none) }

def help (p : Progress) : Except UsageError Progress := do
  let _ ← p.settle
  .error .displayHelp

def logFlag (p : Progress) : Except UsageError Progress := do
  let p ← p.settle
  if p.jsonLogs then .error .argumentConflict else .ok { p with jsonLogs := true }

def long (p : Progress) (cs : List Char) : Except UsageError Progress :=
  let (name, rest) := cs.span (· ≠ '=')
  let attached :=
    match rest with
    | _ :: value => some (String.ofList value)
    | [] => none
  match String.ofList name with
  | "config" => p.option .config attached
  | "guild" => p.option .guild attached
  | "json-logs" => if attached.isSome then .error .tooManyValues else p.logFlag
  | "help" => if attached.isSome then .error .tooManyValues else p.help
  | _ => .error .unknownArgument

def short (p : Progress) : List Char → Except UsageError Progress
  | ['c'] => p.option .config none
  | 'c' :: '=' :: value => p.option .config (some (.ofList value))
  | 'c' :: value => p.option .config (some (.ofList value))
  | 'h' :: _ => p.help
  | _ => .error .unknownArgument

def plain (p : Progress) (value : String) : Except UsageError Progress :=
  match p.opened with
  | some (o, none) => .ok { p with opened := some (o, some value) }
  | _ => .error .unknownArgument

def next (p : Progress) (argument : String) : Except UsageError Progress :=
  match argument.toList with
  | '-' :: '-' :: cs => p.long cs
  | '-' :: c :: cs => p.short (c :: cs)
  | _ => p.plain argument

def all (p : Progress) : List String → Except UsageError Progress
  | [] => p.settle
  | argument :: rest =>
    if argument = "--" then
      if rest.isEmpty then p.settle else .error .unknownArgument
    else do (← p.next argument).all rest

end Progress

/-- Reads the arguments of the program; the first one is its own name. -/
def read (arguments : List String) : Except UsageError CommandLine := do
  let p ← Progress.start.all arguments.tail
  .ok ⟨p.config.getD "guildvote.toml", p.guilds, p.jsonLogs⟩

end CommandLine

end PollKeeper
