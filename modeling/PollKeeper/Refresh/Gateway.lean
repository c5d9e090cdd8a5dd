import PollKeeper.Store.Error

/-!
# The gateway

What is sent to the chat platform, and what can go wrong there.
-/

namespace PollKeeper

/-- A new text for the message of a poll. -/
structure Posting where
  guild : GuildId
  channel : ChannelId
  message : PollId
  text : String
  deriving DecidableEq

inductive GatewayError where
  | notFound
  | rateLimited
  | unavailable (reason : String)
  deriving DecidableEq

namespace GatewayError

def message : GatewayError → String
  | notFound => "message not found"
  | rateLimited => "rate limited by chat platform"
  | unavailable reason => "chat platform unavailable: " ++ reason

def silent : GatewayError := .unavailable "no response in time"

end GatewayError

inductive RefreshError where
  | store (e : StoreError)
  | gateway (e : GatewayError)
  deriving DecidableEq

namespace RefreshError

def message : RefreshError → String
  | store e => e.message
  | gateway e => e.message

/-- Whether the poll or its message does not exist any more. -/
def isMissing : RefreshError → Bool
  | store .notFound => true
  | gateway .notFound => true
  | _ => false

end RefreshError

end PollKeeper
