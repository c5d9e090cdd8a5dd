import PollKeeper.Time.OffsetHistory

/-!
# Offsets of zones that never changed
-/

namespace PollKeeper.Time.ZoneOffsets

open OffsetHistory

def utc : OffsetHistory := ⟨0, []⟩

def gmtMinus12 : OffsetHistory := ⟨-43200, []⟩

def gmtPlus14 : OffsetHistory := ⟨50400, []⟩

end PollKeeper.Time.ZoneOffsets
