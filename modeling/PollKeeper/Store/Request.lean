import PollKeeper.Store.Basic

/-!
# Requests to the store

Everything that can be asked of a store, as data, and the answers to it.
-/

namespace PollKeeper

open Time

/-- A request within one guild, made by the holder of its lock. -/
inductive GuildRequest where
  | settings
  | setSettings (s : Settings)
  | poll (id : PollId)
  | insert (id : PollId) (p : Poll)
  | update (id : PollId) (p : Poll)
  | edit (id : PollId) (e : Edit)
  | cast (id : PollId) (voter : UserId) (chosen : List ChoiceId)
  | pollIds
  | lastEdit (id : PollId)

inductive Request where
  | ofGuild (h : Handle) (r : GuildRequest)
  | deleteExpired (before : Instant)
  | endedUnrefreshed (now : Instant)
  | markFinal (keys : List PollKey)
  | editedSince (cutoff : Instant)
  | markSeen (edits : List PollEdit)
  | persist (keys : List PollKey)
  | takePersisted (guild : GuildId)
  | clearCaches

inductive Answer where
  | done
  | settings (s : Settings)
  | poll (p : Poll)
  | ids (ids : IdSet)
  | edit (e : PollEdit)
  | keys (keys : List PollKey)
  | edits (edits : List PollEdit)
  | count (n : Nat)

namespace Store

open StoreAction

def answerIn (guild : GuildId) (now : Instant) : GuildRequest → StoreAction Answer
  | .settings => .settings <$> settings guild
  | .setSettings s => setSettings guild s *> pure .done
  | .poll id => .poll <$> poll ⟨guild, id⟩
  | .insert id p => insert ⟨guild, id⟩ p now *> pure .done
  | .update id p => update ⟨guild, id⟩ p now *> pure .done
  | .edit id e => .poll <$> edit ⟨guild, id⟩ e now
  | .cast id voter chosen => cast ⟨guild, id⟩ voter chosen now *> pure .done
  | .pollIds => .ids <$> pollIds guild
  | .lastEdit id => .edit <$> lastEdit ⟨guild, id⟩

def answer (now : Instant) : Request → StoreAction Answer
  | .ofGuild h r => do answerIn (← guildOf h) now r
  | .deleteExpired before => .count <$> deleteExpired before
  | .endedUnrefreshed now => .keys <$> endedUnrefreshed now
  | .markFinal keys => .count <$> markFinal keys
  | .editedSince cutoff => .edits <$> editedSince cutoff
  | .markSeen edits => .count <$> markSeen edits
  | .persist keys => .count <$> persist keys
  | .takePersisted guild => .keys <$> takePersisted guild
  | .clearCaches => clearCaches *> pure .done

end Store

end PollKeeper
