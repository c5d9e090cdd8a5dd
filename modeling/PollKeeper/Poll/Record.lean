import PollKeeper.Json.Value
import PollKeeper.Poll.Basic
import PollKeeper.Time.Rfc3339

/-!
# Polls as records

The JSON form of settings, options and polls, in both directions. A poll that is read need not be
valid; settings that are read always are.
-/

namespace PollKeeper

open Time

namespace Settings

def toJson (s : Settings) : Json :=
  .object
    [(some "answers_per_user", .integer s.answersPerUser),
      (some "duration_seconds", .integer s.seconds),
      (some "can_change_answers", .bool s.canChange),
      (some "timezone", .string s.zone.name)]

def ofJson? (j : Json) : Option Settings := do
  match ← j.fields? ["answers_per_user", "duration_seconds", "can_change_answers", "timezone"] with
  | [answers, seconds, canChange, zone] =>
    (make (← answers.natUpTo? 255) (.ofSeconds (← seconds.nat64?)) (← canChange.bool?)
      (← zone.string?)).toOption
  | _ => none

end Settings

namespace Choice

def toJson (c : Choice) : Json :=
  .object
    [(some "id", .integer c.id),
      (some "name", .string c.name),
      (some "voters", .array (c.voters.toList.map .integer))]

def ofJson? (j : Json) : Option Choice := do
  match ← j.fields? ["id", "name", "voters"] with
  | [id, name, voters] =>
    some ⟨← id.int64?, ← name.string?, .ofList (← (← voters.array?).mapM Json.int64?)⟩
  | _ => none

end Choice

namespace Poll

def toJson (p : Poll) : Json :=
  .object
    [(some "id", .integer p.id),
      (some "guild_id", .integer p.guild),
      (some "channel_id", .integer p.channel),
      (some "title", .string p.title),
      (some "description", .string p.description),
      (some "start", .string (.ofList (Rfc3339.write p.start))),
      (some "options", .array (p.choices.map Choice.toJson)),
      (some "settings", p.settings.toJson)]

def ofJson? (j : Json) : Option Poll := do
  match ← j.fields?
      ["id", "guild_id", "channel_id", "title", "description", "start", "options",
        "settings"] with
  | [id, guild, channel, title, description, start, choices, settings] =>
    some
      { id := ← id.int64?
        guild := ← guild.int64?
        channel := ← channel.int64?
        title := ← title.string?
        description := ← description.string?
        start := ← Rfc3339.read? (← start.string?).toList
        choices := ← (← choices.array?).mapM Choice.ofJson?
        settings := ← Settings.ofJson? settings }
  | _ => none

end Poll

end PollKeeper
