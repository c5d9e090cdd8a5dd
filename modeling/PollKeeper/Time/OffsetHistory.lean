/-!
# Histories of offsets

How far the clocks of a place were from UTC: the offset before the first change, and the later
changes in ascending order, each with the second from which it holds.
-/

namespace PollKeeper.Time

structure OffsetHistory where
  first : Int
  changes : List (Int × Int)

namespace OffsetHistory

/-- Changes at the given seconds to the one offset and the other by turns, as where clocks go
forward in spring and back in autumn. -/
def alternating (offset other : Int) : List Int → List (Int × Int)
  | [] => []
  | second :: rest => (second, offset) :: alternating other offset rest

/-- The offset in force at a second: that of the last change which is not later. -/
def offsetAt (h : OffsetHistory) (second : Int) : Int :=
  (h.changes.takeWhile fun change => change.1 ≤ second).foldl (fun _ change => change.2) h.first

end OffsetHistory

end PollKeeper.Time
