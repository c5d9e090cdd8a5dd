import PollKeeper.Refresh.Scheduler
import PollKeeper.Text.Blank
import PollKeeper.Toml.Reader

/-!
# Configuration

What the configuration file says about the database, the store and the scheduler, with a default for
everything that it leaves out, and what follows from it for them.
-/

namespace PollKeeper

open Time Toml

structure DatabaseSection where
  url : String
  maxConnections : Nat

structure StoreSection where
  lockWaitSeconds : Nat
  cacheMaxCapacity : Nat
  cacheTtlSeconds : Nat

structure RefreshSection where
  updateIntervalMillis : Nat
  editSweepIntervalSeconds : Nat
  expirySweepIntervalSeconds : Nat
  updateTimeoutMinutes : Nat
  retryPauseSeconds : Nat
  gatewayTimeoutSeconds : Nat
  maxTries : Nat
  /-- How many days a poll is kept after its end. -/
  deleteOffsetDays : Nat
  shutdownGraceSeconds : Nat

structure Config where
  database : DatabaseSection
  store : StoreSection
  refresh : RefreshSection

inductive Period where
  | updateInterval
  | editSweepInterval
  | expirySweepInterval
  | updateTimeout
  | retryPause
  | gatewayTimeout
  deriving DecidableEq

inductive ConfigFault where
  | blankUrl
  | noConnections
  | noLockWait
  | noCacheTtl
  | noTries
  | noTime (period : Period)
  deriving DecidableEq

inductive ConfigError where
  | unreadable
  | malformed
  | invalid (fault : ConfigFault)
  deriving DecidableEq

def Period.field : Period → String
  | updateInterval => "update_interval_millis"
  | editSweepInterval => "edit_sweep_interval_seconds"
  | expirySweepInterval => "expiry_sweep_interval_seconds"
  | updateTimeout => "update_timeout_minutes"
  | retryPause => "retry_pause_seconds"
  | gatewayTimeout => "gateway_timeout_seconds"

def ConfigFault.message : ConfigFault → String
  | blankUrl => "database.url must not be empty"
  | noConnections => "database.max_connections must be at least 1"
  | noLockWait => "store.lock_wait_seconds must be at least 1"
  | noCacheTtl => "store.cache_ttl_seconds must be positive"
  | noTries => "reconciliation.max_tries must be at least 1"
  | noTime period => "reconciliation." ++ period.field ++ " must be positive"

def maxNat64 : Nat := 18446744073709551615

def maxNat32 : Nat := 4294967295

/-- The values of the fields of a section, by name from a table or by place from an array; a field
may be missing. A date has none of the fields. -/
def sectionFields? (names : List String) : Option Node → Option (List (Option Node))
  | none => some (names.map fun _ => none)
  | some (.table _ entries) => some (names.map (entries.lookup ·))
  | some (.array items) => some (names.zipIdx.map fun (_, i) => items[i]?)
  | some (.tables items) =>
    some (names.zipIdx.map fun (_, i) => (items[i]?).map (.table .defined ·))
  | some .moment => some (names.map fun _ => none)
  | some _ => none

def textOr? (standard : String) : Option Node → Option String
  | none => some standard
  | some (.text s) => some s
  | some _ => none

def numberOr? (bound standard : Nat) : Option Node → Option Nat
  | none => some standard
  | some (.integer n) => if 0 ≤ n ∧ n ≤ bound then some n.toNat else none
  | some _ => none

def DatabaseSection.ofNode? (node : Option Node) : Option DatabaseSection := do
  match ← sectionFields? ["url", "max_connections"] node with
  | [url, maxConnections] =>
    some
      { url := ← textOr? "sqlite://data/guildvote.db?mode=rwc" url
        maxConnections := ← numberOr? maxNat32 5 maxConnections }
  | _ => none

def StoreSection.ofNode? (node : Option Node) : Option StoreSection := do
  match ← sectionFields? ["lock_wait_seconds", "cache_max_capacity", "cache_ttl_seconds"] node with
  | [lockWait, capacity, ttl] =>
    some
      { lockWaitSeconds := ← numberOr? maxNat64 10 lockWait
        cacheMaxCapacity := ← numberOr? maxNat64 1000000 capacity
        cacheTtlSeconds := ← numberOr? maxNat64 86400 ttl }
  | _ => none

def RefreshSection.ofNode? (node : Option Node) : Option RefreshSection := do
  match ← sectionFields?
      ["update_interval_millis", "edit_sweep_interval_seconds", "expiry_sweep_interval_seconds",
        "update_timeout_minutes", "retry_pause_seconds", "gateway_timeout_seconds", "max_tries",
        "delete_votes_offset_days", "shutdown_grace_seconds"] node with
  | [interval, editSweep, expirySweep, timeout, pause, gateway, tries, offset, grace] =>
    some
      { updateIntervalMillis := ← numberOr? maxNat64 1000 interval
        editSweepIntervalSeconds := ← numberOr? maxNat64 10 editSweep
        expirySweepIntervalSeconds := ← numberOr? maxNat64 10800 expirySweep
        updateTimeoutMinutes := ← numberOr? maxNat64 60 timeout
        retryPauseSeconds := ← numberOr? maxNat64 30 pause
        gatewayTimeoutSeconds := ← numberOr? maxNat64 30 gateway
        maxTries := ← numberOr? maxNat32 5 tries
        deleteOffsetDays := ← numberOr? maxNat64 30 offset
        shutdownGraceSeconds := ← numberOr? maxNat64 60 grace }
  | _ => none

namespace Config

def ofEntries? (entries : Entries) : Option Config := do
  some
    { database := ← DatabaseSection.ofNode? (entries.lookup "database")
      store := ← StoreSection.ofNode? (entries.lookup "store")
      refresh := ← RefreshSection.ofNode? (entries.lookup "reconciliation") }

def parse? (text : String) : Option Config := (Toml.read? text).bind ofEntries?

def fault? (c : Config) : Option ConfigFault :=
  if Text.isBlank c.database.url then some .blankUrl
  else if c.database.maxConnections = 0 then some .noConnections
  else if c.store.lockWaitSeconds = 0 then some .noLockWait
  else if c.store.cacheTtlSeconds = 0 then some .noCacheTtl
  else if c.refresh.maxTries = 0 then some .noTries
  else
    ([(.updateInterval, c.refresh.updateIntervalMillis),
      (.editSweepInterval, c.refresh.editSweepIntervalSeconds),
      (.expirySweepInterval, c.refresh.expirySweepIntervalSeconds),
      (.updateTimeout, c.refresh.updateTimeoutMinutes),
      (.retryPause, c.refresh.retryPauseSeconds),
      (.gatewayTimeout, c.refresh.gatewayTimeoutSeconds)] : List (Period × Nat)).findSome?
      fun (period, value) => if value = 0 then some (.noTime period) else none

def validate (c : Config) : Except ConfigError Unit :=
  match c.fault? with
  | some fault => .error (.invalid fault)
  | none => .ok ()

def withUrl (c : Config) (url : Option String) : Config :=
  match url with
  | some url =>
    if Text.isBlank url then c else { c with database := { c.database with url } }
  | none => c

/-- The configuration of a file, or the default one if there is no file, with another address of the
database if one is given. -/
def load (file : Option ByteArray) (url : Option String) : Except ConfigError Config := do
  let text ←
    match file with
    | none => .ok ""
    | some bytes =>
      match String.fromUTF8? bytes with
      | some text => .ok text
      | none => .error .unreadable
  match parse? text with
  | none => .error .malformed
  | some c =>
    let c := c.withUrl url
    c.validate
    .ok c

/-- A number of longer units in seconds, as far as 64 bits can hold it. -/
def inSeconds (unit n : Nat) : Span := .ofSeconds (min (n * unit) maxNat64)

def lockWait (c : Config) : Span := .ofSeconds c.store.lockWaitSeconds

def cacheTtl (c : Config) : Span := .ofSeconds c.store.cacheTtlSeconds

def scheduler (c : Config) : SchedulerConfig :=
  let r := c.refresh
  { updateInterval := .ofMillis r.updateIntervalMillis
    editSweepInterval := .ofSeconds r.editSweepIntervalSeconds
    expirySweepInterval := .ofSeconds r.expirySweepIntervalSeconds
    updateTimeout := inSeconds 60 r.updateTimeoutMinutes
    retryPause := .ofSeconds r.retryPauseSeconds
    gatewayTimeout := .ofSeconds r.gatewayTimeoutSeconds
    maxTries := r.maxTries
    retention := inSeconds 86400 r.deleteOffsetDays
    shutdownGrace := .ofSeconds r.shutdownGraceSeconds }

end Config

end PollKeeper
