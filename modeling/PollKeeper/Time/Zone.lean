import PollKeeper.Time.ZoneNames

/-!
# Time zones

A time zone is one of the known names. What its clocks show is left open: it follows from the history of the
place, which only a time zone database knows.
-/

namespace PollKeeper.Time

def isZoneName (name : String) : Bool := zoneNames.contains name

structure Zone where
  name : String
  known : isZoneName name = true
  deriving DecidableEq

namespace Zone

def ofName? (name : String) : Option Zone :=
  if h : isZoneName name = true then some ⟨name, h⟩ else none

def utc : Zone := ⟨"UTC", by decide +kernel⟩

end Zone

/-- What a time zone database says: how many seconds the clocks of a zone are ahead of UTC at a second. -/
class ZoneClocks where
  offsetAt : Zone → Int → Int

end PollKeeper.Time
