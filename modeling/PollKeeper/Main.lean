import PollKeeper.CommandLine
import PollKeeper.Config

/-!
# The program

Reads the command line and the configuration that it names, and says what is wrong with them.
-/

namespace PollKeeper

def usage : String :=
  "Usage: pollkeeper [-c|--config FILE] [--guild GUILD_ID]... [--json-logs]"

def urlVariable : String := "POLLKEEPER_DATABASE_URL"

def UsageError.message : UsageError → String
  | unknownArgument => "unknown argument"
  | invalidValue => "an option has no value"
  | valueValidation => "a guild id is not a whole number"
  | argumentConflict => "an option is given twice"
  | tooManyValues => "a flag has a value"
  | displayHelp => usage

def ConfigError.message : ConfigError → String
  | unreadable => "the configuration file is not text"
  | malformed => "the configuration file is malformed"
  | invalid fault => fault.message

def run (arguments : List String) : IO UInt32 := do
  match CommandLine.read ("pollkeeper" :: arguments) with
  | .error .displayHelp =>
    IO.println usage
    pure 0
  | .error e =>
    IO.eprintln e.message
    pure 2
  | .ok line =>
    let file ← tryCatch (some <$> IO.FS.readBinFile line.config) fun _ => pure none
    match Config.load file (← IO.getEnv urlVariable) with
    | .error e =>
      IO.eprintln e.message
      pure 1
    | .ok c =>
      IO.println ("database " ++ c.database.url)
      pure 0

end PollKeeper

def main (arguments : List String) : IO UInt32 := PollKeeper.run arguments
