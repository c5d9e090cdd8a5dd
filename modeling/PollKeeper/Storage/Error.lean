import PollKeeper.Poll.Basic

/-!
# What can go wrong with stored data
-/

namespace PollKeeper

inductive Fault where
  | closed
  | timedOut
  | repeatedOption
  | repeatedAnswer
  | missingPoll
  | missingOption
  deriving DecidableEq

def Fault.message : Fault → String
  | closed => "attempted to acquire a connection on a closed pool"
  | timedOut => "pool timed out while waiting for an open connection"
  | repeatedOption =>
    "error returned from database: (code: 1555) UNIQUE constraint failed: " ++
      "vote_options.guild_id, vote_options.vote_id, vote_options.id"
  | repeatedAnswer =>
    "error returned from database: (code: 1555) UNIQUE constraint failed: " ++
      "vote_answers.guild_id, vote_answers.vote_id, vote_answers.option_id, vote_answers.user_id"
  | missingPoll => "error returned from database: (code: 787) FOREIGN KEY constraint failed"
  | missingOption => "error returned from database: (code: 787) FOREIGN KEY constraint failed"

/-- Why stored rows denote no poll or no settings. -/
inductive Corruption where
  | answersPerUser (given : Int)
  | duration (seconds : Int)
  | settings (e : PollError)
  | start (seconds : Int)
  | poll (key : PollKey) (e : PollError)
  deriving DecidableEq

def Corruption.message : Corruption → String
  | answersPerUser given => s!"answers_per_user {given}"
  | duration seconds => s!"duration_seconds {seconds}"
  | settings e => e.message
  | start seconds => s!"timestamp {seconds} out of range"
  | poll key e => s!"vote {key.poll} in guild {key.guild}: {e.message}"

inductive StorageError where
  | engine (fault : Fault)
  | notFound
  | alreadyExists
  | corrupt (cause : Corruption)
  deriving DecidableEq

def StorageError.message : StorageError → String
  | engine fault => "database error: " ++ fault.message
  | notFound => "not found"
  | alreadyExists => "already exists"
  | corrupt cause => "corrupt row: " ++ cause.message

end PollKeeper
