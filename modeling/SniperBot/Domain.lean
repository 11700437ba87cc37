import Mathlib.Data.Rat.Defs

/-!
# Shared value types

`datetime` values are timezone-aware throughout the program; they are modelled by their UTC
instant in microseconds, the resolution of `datetime` and `timedelta`. `Decimal` amounts are
exact rationals. Text is `String`; identifiers are compared for equality only.
-/

namespace SniperBot

/-- An instant, in microseconds since the epoch. -/
abbrev Time := Int

/-- `timedelta(seconds=n)` -/
def seconds (n : Int) : Int := n * 1000000

/-- `timedelta.total_seconds()` as a decimal. -/
def totalSeconds (delta : Int) : ℚ := (delta : ℚ) / 1000000

/-- `text.startswith(start)` -/
def textStartsWith (start text : String) : Bool := start.toList.isPrefixOf text.toList

end SniperBot
