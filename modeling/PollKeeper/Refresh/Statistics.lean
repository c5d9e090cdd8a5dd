/-!
# Statistics

What became of the refreshes, in counters of 64 bits that start again after their greatest value.
-/

namespace PollKeeper

structure Statistics where
  delivered : UInt64
  missing : UInt64
  expired : UInt64
  retried : UInt64
  exhausted : UInt64
  editsFound : UInt64
  finalRefreshes : UInt64
  pollsDeleted : UInt64
  deriving DecidableEq

inductive Tally where
  | delivered
  | missing
  | expired (n : Nat)
  | retried
  | exhausted
  | editsFound (n : Nat)
  | finalRefreshes (n : Nat)
  | pollsDeleted (n : Nat)
  deriving DecidableEq

namespace Statistics

def zero : Statistics := ⟨0, 0, 0, 0, 0, 0, 0, 0⟩

def record (s : Statistics) : Tally → Statistics
  | .delivered => { s with delivered := s.delivered + 1 }
  | .missing => { s with missing := s.missing + 1 }
  | .expired n => { s with expired := s.expired + .ofNat n }
  | .retried => { s with retried := s.retried + 1 }
  | .exhausted => { s with exhausted := s.exhausted + 1 }
  | .editsFound n => { s with editsFound := s.editsFound + .ofNat n }
  | .finalRefreshes n => { s with finalRefreshes := s.finalRefreshes + .ofNat n }
  | .pollsDeleted n => { s with pollsDeleted := s.pollsDeleted + .ofNat n }

end Statistics

end PollKeeper
