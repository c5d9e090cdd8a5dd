import PollKeeper.Time.Zone
import PollKeeper.Time.ZoneOffsets.Africa
import PollKeeper.Time.ZoneOffsets.America
import PollKeeper.Time.ZoneOffsets.Asia
import PollKeeper.Time.ZoneOffsets.Europe
import PollKeeper.Time.ZoneOffsets.Fixed
import PollKeeper.Time.ZoneOffsets.Pacific

/-!
# Histories of zones

The clocks of the zones whose history is kept here. They stand in for a time zone database where the library
runs without one; nothing is proved from them but what happens to polls in UTC.
-/

namespace PollKeeper.Time

def zoneHistories : List (String × OffsetHistory) :=
  open ZoneOffsets in
  [("UTC", utc), ("Etc/GMT+12", gmtMinus12), ("Etc/GMT-14", gmtPlus14),
    ("Europe/Berlin", berlin), ("Europe/London", london),
    ("America/New_York", newYork), ("America/St_Johns", stJohns),
    ("America/Sao_Paulo", saoPaulo), ("America/Caracas", caracas),
    ("Asia/Kolkata", kolkata), ("Asia/Kathmandu", kathmandu), ("Asia/Tehran", tehran),
    ("Asia/Tokyo", tokyo), ("Australia/Lord_Howe", lordHowe), ("Pacific/Chatham", chatham),
    ("Pacific/Apia", apia), ("Pacific/Kiritimati", kiritimati), ("Antarctica/Troll", troll),
    ("Africa/Monrovia", monrovia), ("Africa/Casablanca", casablanca)]

namespace ZoneHistories

/-- The clocks by the kept histories. The zones without one are not covered; their clocks are left at UTC. -/
scoped instance clocks : ZoneClocks where
  offsetAt zone second := ((zoneHistories.lookup zone.name).map (·.offsetAt second)).getD 0

end ZoneHistories

end PollKeeper.Time
