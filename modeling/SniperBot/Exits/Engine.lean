import SniperBot.Ledger.State

/-!
# Exit decisions

`evaluate_exit` (`exit_engine.py`): which exit an open position takes at an executable price, and
which fraction of the remaining tokens it sells. `evaluateExit_spec` says what later proofs need of
a decision to exit: the position is open, a take-profit is not taken twice, and every other exit
sells all that is left.
-/

namespace SniperBot.Exits

open Ledger

inductive ExitReason
  | noExit | tp1 | tp2 | stopLoss | trailingStop | momentumExit | timeStop | emergency
  deriving DecidableEq, Repr

/-- The value of the enumeration member. -/
def ExitReason.value : ExitReason → String
  | .noExit => "NO_EXIT"
  | .tp1 => "TP1"
  | .tp2 => "TP2"
  | .stopLoss => "STOP_LOSS"
  | .trailingStop => "TRAILING_STOP"
  | .momentumExit => "MOMENTUM_EXIT"
  | .timeStop => "TIME_STOP"
  | .emergency => "EMERGENCY"

structure ExitDecision where
  shouldExit : Bool
  reason : ExitReason
  executablePnlUsd : ℚ
  executableReturnPct : ℚ
  closeFraction : ℚ := 0
  deriving DecidableEq, Repr

structure ExitPolicy where
  tp1Return : ℚ := 3 / 10
  tp1Size : ℚ := 1 / 2
  tp2Return : ℚ := 6 / 10
  tp2SizeOfInitial : ℚ := 1 / 4
  stopLossReturn : ℚ := -15 / 100
  trailingStopPct : ℚ := 15 / 100
  maxHoldSeconds : Option Int := some 600
  noNewHighSeconds : Option Int := some 120

/-- `int(delta.total_seconds())` -/
def wholeSeconds (delta : Int) : Int := delta.tdiv 1000000

section Parts

variable (policy : ExitPolicy) (position : PositionRecord) (price : ℚ)

def executableMark : ℚ := position.remainingTokenAmount * price

def executablePnl : ℚ := executableMark position price - position.remainingCostUsd

def executableReturn : ℚ := executablePnl position price / position.remainingCostUsd

/-- A decision to exit, with the gain at the price. -/
def exitWith (reason : ExitReason) (fraction : ℚ) : ExitDecision where
  shouldExit := true
  reason := reason
  executablePnlUsd := executablePnl position price
  executableReturnPct := executableReturn position price
  closeFraction := fraction

/-- `min(1, max(0, share))` -/
def clampShare (share : ℚ) : ℚ := min 1 (max 0 share)

/-- The share of the remaining tokens that makes up the second take-profit. -/
def tp2Share : ℚ :=
  let remainingOfInitial :=
    if position.entryTokenAmount > 0 then position.remainingTokenAmount / position.entryTokenAmount
    else 1
  clampShare (policy.tp2SizeOfInitial / max remainingOfInitial (1 / 100000000))

/-- The value at which the trailing stop sells. -/
def trailingFloor : ℚ :=
  let executableHigh := max position.highestExecutableValueUsd
    (position.remainingCostUsd + position.peakUnrealizedUsd)
  max position.remainingCostUsd (executableHigh * (1 - policy.trailingStopPct))

/-- The trailing stop is armed by the first take-profit and hit at the price. -/
def TrailingStopHit : Prop :=
  position.tp1Taken = true ∧
    (position.highestExecutableValueUsd > 0 ∨ position.peakUnrealizedUsd > 0) ∧
    executableMark position price ≤ trailingFloor policy position

instance : Decidable (TrailingStopHit policy position price) := inferInstanceAs (Decidable (_ ∧ _))

/-- The position is held, or without a new high, for too long. -/
def TimeStopHit (now : Time) : Prop :=
  (∃ limit ∈ policy.maxHoldSeconds, limit ≤ wholeSeconds (now - position.openedAt)) ∨
    ∃ limit ∈ policy.noNewHighSeconds, ∃ high ∈ position.lastNewHighAt,
      limit ≤ wholeSeconds (now - high)

instance (now : Time) : Decidable (TimeStopHit policy position now) :=
  inferInstanceAs (Decidable (_ ∨ _))

end Parts

/-- `evaluate_exit` -/
def evaluateExit (policy : ExitPolicy) (position : PositionRecord) (price : ℚ) (now : Time)
    (momentumExit emergencyExit : Bool) : ExitDecision :=
  let exit := exitWith position price
  let ret := executableReturn position price
  if position.status ≠ .opened ∨ position.remainingCostUsd ≤ 0 then
    { shouldExit := false, reason := .noExit, executablePnlUsd := 0, executableReturnPct := 0 }
  else if emergencyExit then exit .emergency 1
  else if ret ≤ policy.stopLossReturn then exit .stopLoss 1
  else if position.tp1Taken = false ∧ ret ≥ policy.tp1Return then
    exit .tp1 (clampShare policy.tp1Size)
  else if position.tp1Taken = true ∧ position.tp2Taken = false ∧ ret ≥ policy.tp2Return then
    exit .tp2 (tp2Share policy position)
  else if TrailingStopHit policy position price then exit .trailingStop 1
  else if momentumExit then exit .momentumExit 1
  else if TimeStopHit policy position now then exit .timeStop 1
  else
    { shouldExit := false, reason := .noExit
      executablePnlUsd := executablePnl position price, executableReturnPct := ret }

/-! ## What a decision to exit says -/

theorem clampShare_nonneg (share : ℚ) : 0 ≤ clampShare share :=
  le_min zero_le_one (le_max_left _ _)

theorem clampShare_le_one (share : ℚ) : clampShare share ≤ 1 := min_le_left _ _

/-- The position of a decision to exit. -/
structure ExitSpec (position : PositionRecord) (decision : ExitDecision) : Prop where
  opened : position.status = .opened
  exits : decision.reason ≠ .noExit
  nonneg : 0 ≤ decision.closeFraction
  le_one : decision.closeFraction ≤ 1
  tp1 : decision.reason = .tp1 → position.tp1Taken = false
  tp2 : decision.reason = .tp2 → position.tp2Taken = false
  whole : decision.reason ≠ .tp1 → decision.reason ≠ .tp2 → decision.closeFraction = 1

theorem ExitSpec.ofWhole {position : PositionRecord} (price : ℚ) {reason : ExitReason}
    (hopen : position.status = .opened) (hexits : reason ≠ .noExit) (h1 : reason ≠ .tp1)
    (h2 : reason ≠ .tp2) : ExitSpec position (exitWith position price reason 1) :=
  ⟨hopen, hexits, zero_le_one, le_rfl, fun h => absurd h h1, fun h => absurd h h2, fun _ _ => rfl⟩

theorem evaluateExit_spec {policy : ExitPolicy} {position : PositionRecord} {price : ℚ} {now : Time}
    {momentumExit emergencyExit : Bool}
    (h : (evaluateExit policy position price now momentumExit emergencyExit).shouldExit = true) :
    ExitSpec position (evaluateExit policy position price now momentumExit emergencyExit) := by
  unfold evaluateExit at h ⊢
  dsimp only at h ⊢
  split at h
  · cases h
  · rename_i hopen
    have hopened := not_not.mp (not_or.mp hopen).1
    rw [if_neg hopen]
    split
    · exact .ofWhole price hopened (by decide) (by decide) (by decide)
    · split
      · exact .ofWhole price hopened (by decide) (by decide) (by decide)
      · split
        · rename_i htp1
          exact ⟨hopened, by rintro ⟨⟩, clampShare_nonneg _, clampShare_le_one _, fun _ => htp1.1,
            by rintro ⟨⟩, fun hne => absurd rfl hne⟩
        · split
          · rename_i htp2
            exact ⟨hopened, by rintro ⟨⟩, clampShare_nonneg _, clampShare_le_one _, by rintro ⟨⟩,
              fun _ => htp2.2.1, fun _ hne => absurd rfl hne⟩
          · split
            · exact .ofWhole price hopened (by decide) (by decide) (by decide)
            · split
              · exact .ofWhole price hopened (by decide) (by decide) (by decide)
              · split
                · exact .ofWhole price hopened (by decide) (by decide) (by decide)
                · rename_i hemergency hstop htp1 htp2 htrail hmomentum htime
                  rw [if_neg hemergency, if_neg hstop, if_neg htp1, if_neg htp2, if_neg htrail,
                    if_neg hmomentum, if_neg htime] at h
                  cases h

end SniperBot.Exits
