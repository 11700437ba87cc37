import SniperBot.Basis.Calendar
import SniperBot.Basis.Zones
import SniperBot.Risk.Manager

/-!
# Local risk days

The ledger names the risk day of an instant by its local date (`current_date_key`) and bounds it by
wall-clock arithmetic that is taken back to UTC (`day_bounds_utc`, `ledger.py`). Where the local
midnights exist and are unique, the two speak of the same days, whether they have 23, 24 or 25
hours (`dateKey_eq_iff`, `dayBoundsUtc_tiles`).

Wall readings are microseconds since midnight of 1970-01-01 on the wall clock. Years are not
bounded; a `datetime` raises outside the years 1 to 9999.
-/

namespace SniperBot.Risk

open Basis

/-- The configured time zone; its wall clock counts microseconds. -/
abbrev LocalZone := Zone (seconds 86400)

/-- The ordinal of 1970-01-01. -/
def epochOrdinal : Int := 719163

/-- `datetime.date()` -/
def dateOf (reading : Int) : Date := .ofOrdinal (reading / seconds 86400 + epochOrdinal)

/-- `datetime(year, month, day)` -/
def midnightOf (date : Date) : Int := (date.ordinal - epochOrdinal) * seconds 86400

/-- `current_date_key` -/
def currentDateKey (zone : LocalZone) (at' : Time) : String := (dateOf (zone.wall at')).isoformat

/-- `day_bounds_utc`; the end is one day of the wall clock after the start. -/
def dayBoundsUtc (zone : LocalZone) (at' : Time) : Time × Time :=
  let start := midnightOf (dateOf (zone.wall at'))
  let dayEnd := start + seconds 86400
  (zone.instant start, zone.instant dayEnd)

/-- The calendar that a ledger with the time zone has. -/
def calendar (zone : LocalZone) : TimeZone := ⟨currentDateKey zone, dayBoundsUtc zone⟩

variable {zone : LocalZone}

theorem currentDateKey_eq_iff (zone : LocalZone) (t u : Time) :
    currentDateKey zone t = currentDateKey zone u ↔ zone.date t = zone.date u := by
  unfold currentDateKey dateOf
  rw [Date.isoformat_ofOrdinal_injective.eq_iff, add_left_inj]
  rfl

/-- The bounds are the midnights of the date and of the next one. -/
theorem dayBoundsUtc_eq (zone : LocalZone) (at' : Time) :
    dayBoundsUtc zone at' = (zone.instant (zone.date at' * seconds 86400),
      zone.instant ((zone.date at' + 1) * seconds 86400)) := by
  have hstart : midnightOf (dateOf (zone.wall at')) = zone.date at' * seconds 86400 := by
    rw [midnightOf, dateOf, Date.ordinal_ofOrdinal, Int.add_sub_cancel]
    rfl
  rw [dayBoundsUtc, hstart, Int.add_mul, Int.one_mul]

/-- Two instants have one date key when one is within the bounds of the day of the other. -/
theorem dateKey_eq_iff (h : zone.MidnightsKept) (t u : Time) :
    currentDateKey zone t = currentDateKey zone u ↔
      (dayBoundsUtc zone u).1 ≤ t ∧ t < (dayBoundsUtc zone u).2 := by
  rw [currentDateKey_eq_iff, h.date_eq_iff, dayBoundsUtc_eq]

theorem dayBoundsUtc_tiles (h : zone.MidnightsKept) : Tiles (dayBoundsUtc zone) := by
  have hbounds : dayBoundsUtc zone = fun t => (zone.instant (zone.date t * seconds 86400),
      zone.instant ((zone.date t + 1) * seconds 86400)) := funext (dayBoundsUtc_eq zone)
  exact hbounds ▸ h.tiles

end SniperBot.Risk
