import PollKeeper.Lock.Basic
import PollKeeper.Poll.Ballot
import PollKeeper.Storage.Error

/-!
# Why a request to the store fails
-/

namespace PollKeeper

inductive Refusal where
  | poll (e : PollError)
  | ballot (r : Rejection)
  deriving DecidableEq

def Refusal.message : Refusal → String
  | poll e => e.message
  | ballot r => r.message

/-- What cannot be, and no repetition mends. -/
inductive Defect where
  | releasedHandle (guild : GuildId)
  | corrupt (cause : Corruption)
  | editTime (millis : Int)
  deriving DecidableEq

def Defect.message : Defect → String
  | releasedHandle guild => s!"scope handle for guild {guild} used after release"
  | corrupt cause => "corrupt stored data: " ++ cause.message
  | editTime millis => s!"edit time {millis} out of range"

inductive StoreError where
  | lockTimeout (guild : GuildId)
  | interrupted (guild : GuildId)
  | notFound
  | alreadyExists
  | invalid (cause : Refusal)
  | unavailable (fault : Fault)
  | fatal (defect : Defect)
  deriving DecidableEq

namespace StoreError

def ofStorage : StorageError → StoreError
  | .engine fault => unavailable fault
  | .notFound => notFound
  | .alreadyExists => alreadyExists
  | .corrupt cause => fatal (.corrupt cause)

def ofLock : LockFailure → StoreError
  | .timedOut guild => lockTimeout guild
  | .interrupted guild => interrupted guild

def message : StoreError → String
  | lockTimeout guild => s!"timed out waiting for the lock of guild {guild}"
  | interrupted guild => s!"waiting for the lock of guild {guild} was cancelled"
  | notFound => "not found"
  | alreadyExists => "already exists"
  | invalid cause => "invalid: " ++ cause.message
  | unavailable fault => "storage unavailable: " ++ (StorageError.engine fault).message
  | fatal defect => "fatal: " ++ defect.message

/-- Whether the whole request may succeed at another time. -/
def isRetryable : StoreError → Bool
  | lockTimeout _ => true
  | interrupted _ => true
  | unavailable _ => true
  | _ => false

end StoreError

end PollKeeper
