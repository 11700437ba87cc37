import SniperBot.Domain
import SniperBot.Basis.Dict
import Mathlib.Algebra.Order.Ring.Rat

/-!
# The paper ledger

`LedgerState` and the three accounting operations of `PaperLedger` (`ledger.py`):
`open_position`, `close_position` and `mark_to_market`. Each raises before it changes
anything, so a raising call is an `Except.error` and leaves the state as it was.

The calendar day of an instant depends on the configured time zone; `dateKey` stands for
`current_date_key`. Amounts are exact rationals, where the source rounds each operation to the 28
digits of its decimal context.
-/

namespace SniperBot.Ledger

open Basis

inductive PositionStatus
  | opened | closed
  deriving DecidableEq, Repr

inductive FillType
  | entry | exit
  deriving DecidableEq, Repr

/-- The cost columns of a fill. -/
structure FillCosts where
  priceImpactPct : ℚ := 0
  platformFeeUsd : ℚ := 0
  networkFeeUsd : ℚ := 0
  otherCostUsd : ℚ := 0
  adverseFillBps : Int := 0
  quoteLatencyMs : Int := 0
  deriving DecidableEq, Repr

/-- The field bounds of `FillRecord`. -/
def FillCosts.Valid (costs : FillCosts) : Prop :=
  0 ≤ costs.platformFeeUsd ∧ 0 ≤ costs.networkFeeUsd ∧ 0 ≤ costs.otherCostUsd ∧
    0 ≤ costs.adverseFillBps ∧ costs.adverseFillBps < 10000 ∧ 0 ≤ costs.quoteLatencyMs

instance (costs : FillCosts) : Decidable costs.Valid := inferInstanceAs (Decidable (_ ∧ _))

/-- A fill whose cost columns passed validation. -/
structure FillRecord where
  fillId : String
  positionId : String
  tokenMint : String
  orderId : String
  quoteId : String
  fillType : FillType
  tokenAmount : ℚ
  usdNotional : ℚ
  costBasisUsd : ℚ
  createdAt : Time
  exitReason : Option String := none
  costs : FillCosts
  roundTripCostPct : Option ℚ := none
  valid : costs.Valid

/-- What an entry records about the candidate behind it. -/
structure EntryContext where
  candidateId : Option String := none
  poolAddress : Option String := none
  entryScore : Option ℚ := none
  entryLiquidityUsd : Option ℚ := none
  entryPoolAgeSeconds : Option ℚ := none
  strategyVersion : Option String := none
  deriving DecidableEq, Repr

structure PositionRecord where
  positionId : String
  tokenMint : String
  openFillId : String
  entryTokenAmount : ℚ
  entryCostUsd : ℚ
  openRatio : ℚ
  openedAt : Time
  closedAt : Option Time := none
  lockedUsd : ℚ
  status : PositionStatus := .opened
  remainingTokenAmount : ℚ
  remainingCostUsd : ℚ
  realizedPnlUsd : ℚ := 0
  peakUnrealizedUsd : ℚ := 0
  mfePct : ℚ := 0
  maePct : ℚ := 0
  highestExecutableValueUsd : ℚ := 0
  lowestExecutableValueUsd : Option ℚ := none
  lastExecutableValueUsd : ℚ := 0
  tp1Taken : Bool := false
  tp2Taken : Bool := false
  lastNewHighAt : Option Time := none
  finalExitReason : Option String := none
  context : EntryContext := {}
  deriving DecidableEq, Repr

structure LedgerState where
  equityUsd : ℚ
  peakEquityUsd : ℚ
  realizedPnlUsd : ℚ := 0
  unrealizedPnlUsd : ℚ := 0
  lockedCapitalUsd : ℚ := 0
  positions : Dict String PositionRecord := Dict.empty
  fills : List FillRecord := []
  dailyPnl : Dict String ℚ := Dict.empty
  dailyEquityBaseline : Dict String ℚ := Dict.empty
  haltReason : Option String := none
  pauseUntil : Option Time := none
  dailyHaltDate : Option String := none
  orderIdIndex : Dict String String := Dict.empty
  closeOrderIdIndex : Dict String String := Dict.empty
  closeFillIdIndex : Dict String String := Dict.empty
  tokenIndex : Dict String String := Dict.empty

/-- `LedgerState.__init__` -/
def LedgerState.init (startingEquityUsd : ℚ) : LedgerState where
  equityUsd := startingEquityUsd
  peakEquityUsd := startingEquityUsd

inductive LedgerError
  | usdAmountNotPositive | tokenAmountNotPositive | invalidFill
  | negativeAmount | tokenClosedNotPositive | positionNotFound | tokenClosedExceedsRemaining
  | missingKey
  deriving DecidableEq, Repr

namespace LedgerState

/-- `state.open_positions` -/
def openPositions (s : LedgerState) : List PositionRecord :=
  s.positions.values.filter fun position => position.status = .opened

/-- `state.positions[position_id]` -/
def position (s : LedgerState) (positionId : String) : Except LedgerError PositionRecord :=
  match s.positions.get? positionId with
  | some position => .ok position
  | none => .error .missingKey

/-- `_token_index.get(token_mint)`, where an empty id counts as missing. -/
def tokenPosition (s : LedgerState) (tokenMint : String) : Option String :=
  (s.tokenIndex.get? tokenMint).filter fun positionId => positionId ≠ ""

end LedgerState

/-! ## Opening -/

/-- The arguments of `open_position`; `positionId` and `fillId` are the given ids, or the ones
drawn from the id factory when none is given. -/
structure OpenArgs where
  tokenMint : String
  usdAmount : ℚ
  tokenAmount : ℚ
  orderId : String
  quoteId : String
  positionId : String
  fillId : String
  createdAt : Time
  context : EntryContext := {}
  costs : FillCosts := {}
  roundTripCostPct : Option ℚ := none

namespace OpenArgs

variable (args : OpenArgs)

def entryCost : ℚ := args.usdAmount + args.costs.networkFeeUsd

def costBasis : ℚ := if args.tokenAmount ≠ 0 then args.entryCost / args.tokenAmount else 0

def entryFill (valid : args.costs.Valid) : FillRecord where
  fillId := args.fillId
  positionId := args.positionId
  tokenMint := args.tokenMint
  orderId := args.orderId
  quoteId := args.quoteId
  fillType := .entry
  tokenAmount := args.tokenAmount
  usdNotional := args.entryCost
  costBasisUsd := args.costBasis
  createdAt := args.createdAt
  costs := args.costs
  roundTripCostPct := args.roundTripCostPct
  valid := valid

def newPosition : PositionRecord where
  positionId := args.positionId
  tokenMint := args.tokenMint
  openFillId := args.fillId
  entryTokenAmount := args.tokenAmount
  entryCostUsd := args.entryCost
  openRatio := args.costBasis
  openedAt := args.createdAt
  lockedUsd := args.entryCost
  remainingTokenAmount := args.tokenAmount
  remainingCostUsd := args.entryCost
  context := args.context

end OpenArgs

/-- The state after a new position is booked. -/
def LedgerState.booked (s : LedgerState) (args : OpenArgs) (valid : args.costs.Valid) :
    LedgerState :=
  { s with
    fills := s.fills ++ [args.entryFill valid]
    positions := s.positions.set args.positionId args.newPosition
    orderIdIndex := s.orderIdIndex.set args.orderId args.positionId
    tokenIndex := s.tokenIndex.set args.tokenMint args.positionId
    lockedCapitalUsd := s.lockedCapitalUsd + args.entryCost }

/-- `PaperLedger.open_position`: the new state and the returned position. -/
def openPosition (s : LedgerState) (args : OpenArgs) :
    Except LedgerError (LedgerState × PositionRecord) :=
  if args.usdAmount ≤ 0 then .error .usdAmountNotPositive
  else if args.tokenAmount ≤ 0 then .error .tokenAmountNotPositive
  else match s.orderIdIndex.get? args.orderId with
    | some existing => do return (s, ← s.position existing)
    | none =>
        match s.tokenPosition args.tokenMint with
        | some existing => do return (s, ← s.position existing)
        | none =>
            if valid : args.costs.Valid then .ok (s.booked args valid, args.newPosition)
            else .error .invalidFill

/-! ## Closing -/

/-- The arguments of `close_position`. -/
structure CloseArgs where
  tokenMint : String
  usdReceived : ℚ
  tokenClosed : ℚ
  orderId : String
  quoteId : String
  exitReason : Option String := none
  closeFillId : String
  createdAt : Time
  costs : FillCosts := {}

namespace CloseArgs

variable (args : CloseArgs) (position : PositionRecord)

def netReceived : ℚ := max 0 (args.usdReceived - args.costs.networkFeeUsd)

def closedFraction : ℚ := args.tokenClosed / position.remainingTokenAmount

def remainingFraction : ℚ := 1 - args.closedFraction position

def proportionalCost : ℚ := position.remainingCostUsd * args.closedFraction position

def realizedDelta : ℚ := args.netReceived - args.proportionalCost position

/-- The mark that the ledger assumes for the position: nothing unless the last executable value
is positive. -/
def markedUnrealized : ℚ :=
  if position.lastExecutableValueUsd > 0 then
    position.lastExecutableValueUsd - position.remainingCostUsd
  else 0

def closedUnrealized : ℚ := markedUnrealized position * args.closedFraction position

def closeFill (positionId : String) (valid : args.costs.Valid) : FillRecord where
  fillId := args.closeFillId
  positionId := positionId
  tokenMint := args.tokenMint
  orderId := args.orderId
  quoteId := args.quoteId
  fillType := .exit
  tokenAmount := args.tokenClosed
  usdNotional := args.netReceived
  costBasisUsd :=
    if position.remainingTokenAmount ≠ 0 then
      position.remainingCostUsd / position.remainingTokenAmount
    else 0
  createdAt := args.createdAt
  exitReason := args.exitReason
  costs := args.costs
  valid := valid

/-- The position after the exit, before the test for a full close. -/
def reduced : PositionRecord :=
  { position with
    remainingCostUsd := position.remainingCostUsd - args.proportionalCost position
    remainingTokenAmount := position.remainingTokenAmount - args.tokenClosed
    realizedPnlUsd := position.realizedPnlUsd + args.realizedDelta position
    lastExecutableValueUsd := position.lastExecutableValueUsd * args.remainingFraction position
    highestExecutableValueUsd :=
      position.highestExecutableValueUsd * args.remainingFraction position
    lowestExecutableValueUsd :=
      position.lowestExecutableValueUsd.map (· * args.remainingFraction position)
    peakUnrealizedUsd := position.peakUnrealizedUsd * args.remainingFraction position
    tp1Taken := position.tp1Taken || args.exitReason == some "TP1"
    tp2Taken := position.tp2Taken || args.exitReason == some "TP2" }

/-- Nothing is left of the position after the exit. -/
def Final : Prop := (args.reduced position).remainingTokenAmount ≤ 0

instance : Decidable (args.Final position) := inferInstanceAs (Decidable (_ ≤ _))

/-- The stored position after the exit. -/
def closedPosition : PositionRecord :=
  if args.Final position then
    { args.reduced position with
      status := .closed
      closedAt := some args.createdAt
      finalExitReason := some ((args.exitReason.filter (· ≠ "")).getD "UNKNOWN_EXIT") }
  else args.reduced position

end CloseArgs

/-- The state after an exit of `position` is booked. -/
def LedgerState.exited (dateKey : Time → String) (s : LedgerState) (args : CloseArgs)
    (positionId : String) (position : PositionRecord) (valid : args.costs.Valid) : LedgerState :=
  let equity := s.equityUsd + (args.realizedDelta position - args.closedUnrealized position)
  let today := dateKey args.createdAt
  { s with
    fills := s.fills ++ [args.closeFill position positionId valid]
    realizedPnlUsd := s.realizedPnlUsd + args.realizedDelta position
    unrealizedPnlUsd := s.unrealizedPnlUsd - args.closedUnrealized position
    lockedCapitalUsd := s.lockedCapitalUsd - args.proportionalCost position
    tokenIndex := if args.Final position then s.tokenIndex.erase args.tokenMint else s.tokenIndex
    equityUsd := equity
    dailyPnl :=
      s.dailyPnl.set today ((s.dailyPnl.get? today).getD 0 + args.realizedDelta position)
    peakEquityUsd := max s.peakEquityUsd equity
    positions := s.positions.set positionId (args.closedPosition position)
    closeOrderIdIndex := s.closeOrderIdIndex.set args.orderId positionId
    closeFillIdIndex := s.closeFillIdIndex.set args.orderId args.closeFillId }

/-- `PaperLedger.close_position`: the new state and the returned position. -/
def closePosition (dateKey : Time → String) (s : LedgerState) (args : CloseArgs) :
    Except LedgerError (LedgerState × PositionRecord) :=
  if args.usdReceived < 0 ∨ args.tokenClosed < 0 then .error .negativeAmount
  else if args.tokenClosed = 0 then .error .tokenClosedNotPositive
  else match s.closeOrderIdIndex.get? args.orderId with
    | some existing => do return (s, ← s.position existing)
    | none =>
        match s.tokenPosition args.tokenMint with
        | none => .error .positionNotFound
        | some positionId => do
            let position ← s.position positionId
            if position.status ≠ .opened then return (s, position)
            else if args.tokenClosed > position.remainingTokenAmount then
              throw .tokenClosedExceedsRemaining
            else if valid : args.costs.Valid then
              return (s.exited dateKey args positionId position valid,
                args.closedPosition position)
            else throw .invalidFill

/-! ## Marking -/

/-- One position of the loop of `mark_to_market`. -/
def markPosition (prices : Dict String ℚ) (markTime : Time) (position : PositionRecord) :
    PositionRecord :=
  if position.status ≠ .opened then position
  else match prices.get? position.tokenMint with
    | none => position
    | some price =>
        let mark := position.remainingTokenAmount * price
        let gain := mark - position.remainingCostUsd
        let newHigh := mark > position.highestExecutableValueUsd
        let currentReturn := gain / position.remainingCostUsd
        { position with
          lastExecutableValueUsd := mark
          peakUnrealizedUsd := max position.peakUnrealizedUsd gain
          highestExecutableValueUsd :=
            if newHigh then mark else position.highestExecutableValueUsd
          lastNewHighAt := if newHigh then some markTime else position.lastNewHighAt
          lowestExecutableValueUsd :=
            some (match position.lowestExecutableValueUsd with
              | none => mark
              | some lowest => min lowest mark)
          mfePct :=
            if position.remainingCostUsd > 0 then max position.mfePct currentReturn
            else position.mfePct
          maePct :=
            if position.remainingCostUsd > 0 then min position.maePct currentReturn
            else position.maePct }

/-- What the loop adds to the total for one position. -/
def markGain (prices : Dict String ℚ) (position : PositionRecord) : ℚ :=
  if position.status ≠ .opened then 0
  else match prices.get? position.tokenMint with
    | none => 0
    | some price => position.remainingTokenAmount * price - position.remainingCostUsd

/-- `PaperLedger.mark_to_market` -/
def markToMarket (dateKey : Time → String) (s : LedgerState) (prices : Dict String ℚ)
    (observedAt : Time) : LedgerState :=
  let unrealized := Dict.total (fun _ position => markGain prices position) s.positions
  let equity := (s.equityUsd - s.unrealizedPnlUsd) + unrealized
  { s with
    positions := s.positions.mapValues fun _ => markPosition prices observedAt
    unrealizedPnlUsd := unrealized
    equityUsd := equity
    dailyEquityBaseline := s.dailyEquityBaseline.setDefault (dateKey observedAt) equity
    peakEquityUsd := max s.peakEquityUsd equity }

/-! ## Operations of a run -/

inductive LedgerOp
  | openPosition (args : OpenArgs)
  | closePosition (args : CloseArgs)
  | markToMarket (prices : Dict String ℚ) (observedAt : Time)

/-- Perform an operation; a call that raises changes nothing. -/
def LedgerState.apply (dateKey : Time → String) (s : LedgerState) : LedgerOp → LedgerState
  | .openPosition args => match openPosition s args with
    | .ok (next, _) => next
    | .error _ => s
  | .closePosition args => match closePosition dateKey s args with
    | .ok (next, _) => next
    | .error _ => s
  | .markToMarket prices observedAt => markToMarket dateKey s prices observedAt

end SniperBot.Ledger
