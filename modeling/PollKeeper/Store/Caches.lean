import PollKeeper.Keyed
import PollKeeper.Poll.Basic

/-!
# Caches

What was read from the tables and may be read again from here, until it is invalidated.
-/

namespace PollKeeper

structure Caches where
  settings : Keyed GuildId Settings
  polls : Keyed PollKey Poll
  pollIds : Keyed GuildId IdSet

namespace Caches

def empty : Caches := ⟨.empty, .empty, .empty⟩

def forgetSettings (c : Caches) (guild : GuildId) : Caches :=
  { c with settings := c.settings.erase guild }

def forgetPoll (c : Caches) (key : PollKey) : Caches := { c with polls := c.polls.erase key }

/-- Forgets a poll that came or went, and with it the ids of its guild. -/
def forgetListed (c : Caches) (key : PollKey) : Caches :=
  { c.forgetPoll key with pollIds := c.pollIds.erase key.guild }

end Caches

end PollKeeper
