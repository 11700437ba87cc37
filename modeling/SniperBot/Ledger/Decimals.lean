import SniperBot.Basis.DecimalContext
import SniperBot.Ledger.State

/-!
# Reconciliation in decimals

The operations of `PaperLedger` (`ledger.py`) with the rounding of Python's default context, 28
digits, half to even, on finite numbers without a bound on the exponent, and `reconcile`, which
computes the realized result again from the exit fills.

An exit books `cost * (closed / remaining)` as the cost of what it closes; its fill keeps
`cost / remaining`, and `reconcile` multiplies that by what was closed. The two round differently in
general, already for a cost of one and three tokens. Where they agree, so do the two totals, in every
state of a run (`reconcile_of_agreeing`).
-/

namespace SniperBot.Ledger.Decimals

open Basis

/-! ## The context -/

local instance : Zero Decimal := ⟨Decimal.ofNat 0⟩
local instance : One Decimal := ⟨Decimal.ofNat 1⟩
local instance : Add Decimal := ⟨Decimal.add 28⟩
local instance : Sub Decimal := ⟨Decimal.sub 28⟩
local instance : Mul Decimal := ⟨Decimal.mul 28⟩
local instance : Div Decimal := ⟨Decimal.div 28⟩
local instance : LT Decimal := ⟨fun a b => a.value < b.value⟩
local instance : LE Decimal := ⟨fun a b => a.value ≤ b.value⟩
local instance (a b : Decimal) : Decidable (a < b) := inferInstanceAs (Decidable (a.value < b.value))
local instance (a b : Decimal) : Decidable (a ≤ b) := inferInstanceAs (Decidable (a.value ≤ b.value))

/-- `max(a, b)` -/
def greater (a b : Decimal) : Decimal := if a < b then b else a

/-- `min(a, b)` -/
def lesser (a b : Decimal) : Decimal := if b < a then b else a

/-! ## Records -/

/-- The cost columns of a fill. -/
structure FillCosts where
  priceImpactPct : Decimal := 0
  platformFeeUsd : Decimal := 0
  networkFeeUsd : Decimal := 0
  otherCostUsd : Decimal := 0
  adverseFillBps : Int := 0
  quoteLatencyMs : Int := 0
  deriving DecidableEq, Repr

/-- The field bounds of `FillRecord`. -/
def FillCosts.Valid (costs : FillCosts) : Prop :=
  0 ≤ costs.platformFeeUsd ∧ 0 ≤ costs.networkFeeUsd ∧ 0 ≤ costs.otherCostUsd ∧
    0 ≤ costs.adverseFillBps ∧ costs.adverseFillBps < 10000 ∧ 0 ≤ costs.quoteLatencyMs

instance (costs : FillCosts) : Decidable costs.Valid := inferInstanceAs (Decidable (_ ∧ _))

structure FillRecord where
  fillId : String
  positionId : String
  tokenMint : String
  orderId : String
  quoteId : String
  fillType : FillType
  tokenAmount : Decimal
  usdNotional : Decimal
  costBasisUsd : Decimal
  createdAt : Time
  exitReason : Option String := none
  costs : FillCosts
  roundTripCostPct : Option Decimal := none
  valid : costs.Valid

/-- What an entry records about the candidate behind it. -/
structure EntryContext where
  candidateId : Option String := none
  poolAddress : Option String := none
  entryScore : Option Decimal := none
  entryLiquidityUsd : Option Decimal := none
  entryPoolAgeSeconds : Option Decimal := none
  strategyVersion : Option String := none
  deriving DecidableEq, Repr

structure PositionRecord where
  positionId : String
  tokenMint : String
  openFillId : String
  entryTokenAmount : Decimal
  entryCostUsd : Decimal
  openRatio : Decimal
  openedAt : Time
  closedAt : Option Time := none
  lockedUsd : Decimal
  status : PositionStatus := .opened
  remainingTokenAmount : Decimal
  remainingCostUsd : Decimal
  realizedPnlUsd : Decimal := 0
  peakUnrealizedUsd : Decimal := 0
  mfePct : Decimal := 0
  maePct : Decimal := 0
  highestExecutableValueUsd : Decimal := 0
  lowestExecutableValueUsd : Option Decimal := none
  lastExecutableValueUsd : Decimal := 0
  tp1Taken : Bool := false
  tp2Taken : Bool := false
  lastNewHighAt : Option Time := none
  finalExitReason : Option String := none
  context : EntryContext := {}
  deriving DecidableEq, Repr

structure LedgerState where
  equityUsd : Decimal
  peakEquityUsd : Decimal
  realizedPnlUsd : Decimal := 0
  unrealizedPnlUsd : Decimal := 0
  lockedCapitalUsd : Decimal := 0
  positions : Dict String PositionRecord := Dict.empty
  fills : List FillRecord := []
  dailyPnl : Dict String Decimal := Dict.empty
  dailyEquityBaseline : Dict String Decimal := Dict.empty
  orderIdIndex : Dict String String := Dict.empty
  closeOrderIdIndex : Dict String String := Dict.empty
  closeFillIdIndex : Dict String String := Dict.empty
  tokenIndex : Dict String String := Dict.empty

/-- `LedgerState.__init__` -/
def LedgerState.init (startingEquityUsd : Decimal) : LedgerState where
  equityUsd := startingEquityUsd
  peakEquityUsd := startingEquityUsd

namespace LedgerState

/-- `state.open_positions` -/
def openPositions (s : LedgerState) : List PositionRecord :=
  s.positions.values.filter fun position => position.status = .opened

/-- `state.positions[position_id]` -/
def position (s : LedgerState) (positionId : String) : Except LedgerError PositionRecord :=
  match s.positions.get? positionId with
  | some position => .ok position
  | none => .error .missingKey

/-- `_token_index.get(token_mint)`, where an empty id counts as missing. -/
def tokenPosition (s : LedgerState) (tokenMint : String) : Option String :=
  (s.tokenIndex.get? tokenMint).filter fun positionId => positionId ≠ ""

end LedgerState

/-! ## Opening -/

/-- The arguments of `open_position`, with the ids that are given or drawn. -/
structure OpenArgs where
  tokenMint : String
  usdAmount : Decimal
  tokenAmount : Decimal
  orderId : String
  quoteId : String
  positionId : String
  fillId : String
  createdAt : Time
  context : EntryContext := {}
  costs : FillCosts := {}
  roundTripCostPct : Option Decimal := none

namespace OpenArgs

variable (args : OpenArgs)

def entryCost : Decimal := args.usdAmount + args.costs.networkFeeUsd

def costBasis : Decimal :=
  if args.tokenAmount.value ≠ 0 then args.entryCost / args.tokenAmount else 0

def entryFill (valid : args.costs.Valid) : FillRecord where
  fillId := args.fillId
  positionId := args.positionId
  tokenMint := args.tokenMint
  orderId := args.orderId
  quoteId := args.quoteId
  fillType := .entry
  tokenAmount := args.tokenAmount
  usdNotional := args.entryCost
  costBasisUsd := args.costBasis
  createdAt := args.createdAt
  costs := args.costs
  roundTripCostPct := args.roundTripCostPct
  valid := valid

def newPosition : PositionRecord where
  positionId := args.positionId
  tokenMint := args.tokenMint
  openFillId := args.fillId
  entryTokenAmount := args.tokenAmount
  entryCostUsd := args.entryCost
  openRatio := args.costBasis
  openedAt := args.createdAt
  lockedUsd := args.entryCost
  remainingTokenAmount := args.tokenAmount
  remainingCostUsd := args.entryCost
  context := args.context

end OpenArgs

/-- The state after a new position is booked. -/
def LedgerState.booked (s : LedgerState) (args : OpenArgs) (valid : args.costs.Valid) :
    LedgerState :=
  { s with
    fills := s.fills ++ [args.entryFill valid]
    positions := s.positions.set args.positionId args.newPosition
    orderIdIndex := s.orderIdIndex.set args.orderId args.positionId
    tokenIndex := s.tokenIndex.set args.tokenMint args.positionId
    lockedCapitalUsd := s.lockedCapitalUsd + args.entryCost }

/-- `PaperLedger.open_position`: the new state and the returned position. -/
def openPosition (s : LedgerState) (args : OpenArgs) :
    Except LedgerError (LedgerState × PositionRecord) :=
  if args.usdAmount ≤ 0 then .error .usdAmountNotPositive
  else if args.tokenAmount ≤ 0 then .error .tokenAmountNotPositive
  else match s.orderIdIndex.get? args.orderId with
    | some existing => do return (s, ← s.position existing)
    | none =>
        match s.tokenPosition args.tokenMint with
        | some existing => do return (s, ← s.position existing)
        | none =>
            if valid : args.costs.Valid then .ok (s.booked args valid, args.newPosition)
            else .error .invalidFill

/-! ## Closing -/

/-- The arguments of `close_position`. -/
structure CloseArgs where
  tokenMint : String
  usdReceived : Decimal
  tokenClosed : Decimal
  orderId : String
  quoteId : String
  exitReason : Option String := none
  closeFillId : String
  createdAt : Time
  costs : FillCosts := {}

namespace CloseArgs

variable (args : CloseArgs) (position : PositionRecord)

def netReceived : Decimal := greater 0 (args.usdReceived - args.costs.networkFeeUsd)

def closedFraction : Decimal := args.tokenClosed / position.remainingTokenAmount

def remainingFraction : Decimal := 1 - args.closedFraction position

def proportionalCost : Decimal := position.remainingCostUsd * args.closedFraction position

def realizedDelta : Decimal := args.netReceived - args.proportionalCost position

def markedUnrealized : Decimal :=
  if 0 < position.lastExecutableValueUsd then
    position.lastExecutableValueUsd - position.remainingCostUsd
  else 0

def closedUnrealized : Decimal := markedUnrealized position * args.closedFraction position

def closeFill (positionId : String) (valid : args.costs.Valid) : FillRecord where
  fillId := args.closeFillId
  positionId := positionId
  tokenMint := args.tokenMint
  orderId := args.orderId
  quoteId := args.quoteId
  fillType := .exit
  tokenAmount := args.tokenClosed
  usdNotional := args.netReceived
  costBasisUsd :=
    if position.remainingTokenAmount.value ≠ 0 then
      position.remainingCostUsd / position.remainingTokenAmount
    else 0
  createdAt := args.createdAt
  exitReason := args.exitReason
  costs := args.costs
  valid := valid

/-- The position after the exit, before the test for a full close. -/
def reduced : PositionRecord :=
  { position with
    remainingCostUsd := position.remainingCostUsd - args.proportionalCost position
    remainingTokenAmount := position.remainingTokenAmount - args.tokenClosed
    realizedPnlUsd := position.realizedPnlUsd + args.realizedDelta position
    lastExecutableValueUsd := position.lastExecutableValueUsd * args.remainingFraction position
    highestExecutableValueUsd :=
      position.highestExecutableValueUsd * args.remainingFraction position
    lowestExecutableValueUsd :=
      position.lowestExecutableValueUsd.map (· * args.remainingFraction position)
    peakUnrealizedUsd := position.peakUnrealizedUsd * args.remainingFraction position
    tp1Taken := position.tp1Taken || args.exitReason == some "TP1"
    tp2Taken := position.tp2Taken || args.exitReason == some "TP2" }

/-- Nothing is left of the position after the exit. -/
def Final : Prop := (args.reduced position).remainingTokenAmount ≤ 0

instance : Decidable (args.Final position) := inferInstanceAs (Decidable (_ ≤ (0 : Decimal)))

/-- The stored position after the exit. -/
def closedPosition : PositionRecord :=
  if args.Final position then
    { args.reduced position with
      status := .closed
      closedAt := some args.createdAt
      finalExitReason := some ((args.exitReason.filter (· ≠ "")).getD "UNKNOWN_EXIT") }
  else args.reduced position

end CloseArgs

/-- The state after an exit of `position` is booked. -/
def LedgerState.exited (dateKey : Time → String) (s : LedgerState) (args : CloseArgs)
    (positionId : String) (position : PositionRecord) (valid : args.costs.Valid) : LedgerState :=
  let equity := s.equityUsd + (args.realizedDelta position - args.closedUnrealized position)
  let today := dateKey args.createdAt
  { s with
    fills := s.fills ++ [args.closeFill position positionId valid]
    realizedPnlUsd := s.realizedPnlUsd + args.realizedDelta position
    unrealizedPnlUsd := s.unrealizedPnlUsd - args.closedUnrealized position
    lockedCapitalUsd := s.lockedCapitalUsd - args.proportionalCost position
    tokenIndex := if args.Final position then s.tokenIndex.erase args.tokenMint else s.tokenIndex
    equityUsd := equity
    dailyPnl :=
      s.dailyPnl.set today ((s.dailyPnl.get? today).getD 0 + args.realizedDelta position)
    peakEquityUsd := greater s.peakEquityUsd equity
    positions := s.positions.set positionId (args.closedPosition position)
    closeOrderIdIndex := s.closeOrderIdIndex.set args.orderId positionId
    closeFillIdIndex := s.closeFillIdIndex.set args.orderId args.closeFillId }

/-- `PaperLedger.close_position`: the new state and the returned position. -/
def closePosition (dateKey : Time → String) (s : LedgerState) (args : CloseArgs) :
    Except LedgerError (LedgerState × PositionRecord) :=
  if args.usdReceived < 0 ∨ args.tokenClosed < 0 then .error .negativeAmount
  else if args.tokenClosed.value = 0 then .error .tokenClosedNotPositive
  else match s.closeOrderIdIndex.get? args.orderId with
    | some existing => do return (s, ← s.position existing)
    | none =>
        match s.tokenPosition args.tokenMint with
        | none => .error .positionNotFound
        | some positionId => do
            let position ← s.position positionId
            if position.status ≠ .opened then return (s, position)
            else if position.remainingTokenAmount < args.tokenClosed then
              throw .tokenClosedExceedsRemaining
            else if valid : args.costs.Valid then
              return (s.exited dateKey args positionId position valid,
                args.closedPosition position)
            else throw .invalidFill

/-! ## Marking -/

/-- One position of the loop of `mark_to_market`. -/
def markPosition (prices : Dict String Decimal) (markTime : Time) (position : PositionRecord) :
    PositionRecord :=
  if position.status ≠ .opened then position
  else match prices.get? position.tokenMint with
    | none => position
    | some price =>
        let mark := position.remainingTokenAmount * price
        let gain := mark - position.remainingCostUsd
        let newHigh := position.highestExecutableValueUsd < mark
        let currentReturn := gain / position.remainingCostUsd
        { position with
          lastExecutableValueUsd := mark
          peakUnrealizedUsd := greater position.peakUnrealizedUsd gain
          highestExecutableValueUsd :=
            if newHigh then mark else position.highestExecutableValueUsd
          lastNewHighAt := if newHigh then some markTime else position.lastNewHighAt
          lowestExecutableValueUsd :=
            some (match position.lowestExecutableValueUsd with
              | none => mark
              | some lowest => lesser lowest mark)
          mfePct :=
            if 0 < position.remainingCostUsd then greater position.mfePct currentReturn
            else position.mfePct
          maePct :=
            if 0 < position.remainingCostUsd then lesser position.maePct currentReturn
            else position.maePct }

/-- The total of the loop after one position. -/
def addGain (prices : Dict String Decimal) (unrealized : Decimal) (position : PositionRecord) :
    Decimal :=
  if position.status ≠ .opened then unrealized
  else match prices.get? position.tokenMint with
    | none => unrealized
    | some price =>
        unrealized + (position.remainingTokenAmount * price - position.remainingCostUsd)

/-- `PaperLedger.mark_to_market` -/
def markToMarket (dateKey : Time → String) (s : LedgerState) (prices : Dict String Decimal)
    (observedAt : Time) : LedgerState :=
  let unrealized := s.positions.values.foldl (addGain prices) 0
  let equity := (s.equityUsd - s.unrealizedPnlUsd) + unrealized
  { s with
    positions := s.positions.mapValues fun _ => markPosition prices observedAt
    unrealizedPnlUsd := unrealized
    equityUsd := equity
    dailyEquityBaseline := s.dailyEquityBaseline.setDefault (dateKey observedAt) equity
    peakEquityUsd := greater s.peakEquityUsd equity }

/-! ## Reconciling -/

/-- What `reconcile` returns. -/
structure Reconciliation where
  equityUsd : Decimal
  realizedPnlUsd : Decimal
  expectedRealizedPnlUsd : Decimal
  openPositionsCount : Nat
  openPositionsNotionalUsd : Decimal
  totalExitNotionalUsd : Decimal
  isReconciled : Bool
  deriving DecidableEq, Repr

/-- `sum(items, Decimal("0"))` -/
def sumOf (items : List Decimal) : Decimal := Decimal.sum 28 0 items

/-- The result of an exit as `reconcile` computes it. -/
def FillRecord.result (fill : FillRecord) : Decimal :=
  fill.usdNotional - fill.costBasisUsd * fill.tokenAmount

def LedgerState.exitFills (s : LedgerState) : List FillRecord :=
  s.fills.filter fun fill => fill.fillType = .exit

/-- `PaperLedger.reconcile` -/
def reconcile (s : LedgerState) : Reconciliation :=
  let realized := sumOf (s.exitFills.map (·.result))
  { equityUsd := s.equityUsd
    realizedPnlUsd := s.realizedPnlUsd
    expectedRealizedPnlUsd := realized
    openPositionsCount := s.openPositions.length
    openPositionsNotionalUsd := sumOf (s.openPositions.map (·.remainingCostUsd))
    totalExitNotionalUsd := sumOf (s.exitFills.map (·.usdNotional))
    isReconciled := realized.value = s.realizedPnlUsd.value }

/-! ## Runs -/

inductive LedgerOp
  | openPosition (args : OpenArgs)
  | closePosition (args : CloseArgs)
  | markToMarket (prices : Dict String Decimal) (observedAt : Time)

/-- Perform an operation; a call that raises changes nothing. -/
def LedgerState.apply (dateKey : Time → String) (s : LedgerState) : LedgerOp → LedgerState
  | .openPosition args => match openPosition s args with
    | .ok (next, _) => next
    | .error _ => s
  | .closePosition args => match closePosition dateKey s args with
    | .ok (next, _) => next
    | .error _ => s
  | .markToMarket prices observedAt => markToMarket dateKey s prices observedAt

/-! ## What a step does to the totals -/

section Steps

variable {dateKey : Time → String} {s : LedgerState} {args : CloseArgs} {positionId : String}
  {position : PositionRecord}

theorem value_zero : (0 : Decimal).value = 0 := Decimal.value_eq_zero_iff.mpr rfl

/-- The close books an exit of the position. -/
structure Exits (s : LedgerState) (args : CloseArgs) (positionId : String)
    (position : PositionRecord) : Prop where
  positive : 0 < args.tokenClosed.value
  fresh : s.closeOrderIdIndex.get? args.orderId = none
  token : s.tokenPosition args.tokenMint = some positionId
  found : s.positions.get? positionId = some position
  opened : position.status = .opened
  enough : args.tokenClosed.value ≤ position.remainingTokenAmount.value
  valid : args.costs.Valid

theorem closePosition_cases {next : LedgerState} {returned : PositionRecord}
    (h : closePosition dateKey s args = .ok (next, returned)) :
    next = s ∨ ∃ positionId position, ∃ hexits : Exits s args positionId position,
      next = s.exited dateKey args positionId position hexits.valid := by
  unfold closePosition at h
  split at h
  · cases h
  next hsigns =>
  split at h
  · cases h
  next hzero =>
  split at h
  · -- the order closed a position before
    cases hposition : s.position ‹String› with
    | error e => rw [hposition] at h; cases h
    | ok found => rw [hposition] at h; cases h; exact .inl rfl
  next hfresh =>
  split at h
  · cases h
  next positionId htoken =>
  unfold LedgerState.position at h
  cases hfound : s.positions.get? positionId with
  | none => rw [hfound] at h; cases h
  | some position =>
    rw [hfound] at h
    dsimp only [bind, Except.bind] at h
    split at h
    · cases h; exact .inl rfl
    next hopened =>
    split at h
    · cases h
    next henough =>
    split at h
    next hvalid =>
      cases h
      have hnonneg : 0 ≤ args.tokenClosed.value := by
        refine not_lt.mp fun hlt => hsigns (.inr ?_)
        change args.tokenClosed.value < (0 : Decimal).value
        rwa [value_zero]
      have hexits : Exits s args positionId position :=
        { positive := lt_of_le_of_ne hnonneg (Ne.symm hzero)
          fresh := hfresh
          token := htoken
          found := hfound
          opened := not_not.mp hopened
          enough := le_of_not_gt henough
          valid := hvalid }
      exact .inr ⟨positionId, position, hexits, rfl⟩
    · cases h

theorem Exits.remaining_ne_zero (h : Exits s args positionId position) :
    position.remainingTokenAmount.value ≠ 0 :=
  (lt_of_lt_of_le h.positive h.enough).ne'

/-- The cost of what an exit closes, as it is booked and as the fill shows it, is the same. -/
def SharesAgree (cost remaining closed : Decimal) : Prop :=
  (cost * (closed / remaining)).value = (cost / remaining * closed).value

instance (cost remaining closed : Decimal) : Decidable (SharesAgree cost remaining closed) :=
  inferInstanceAs (Decidable (_ = _))

/-- Quotients that are not rounded agree. -/
theorem sharesAgree_of_exact {cost remaining closed : Decimal}
    (hfraction : (closed / remaining).value = closed.value / remaining.value)
    (hbasis : (cost / remaining).value = cost.value / remaining.value) :
    SharesAgree cost remaining closed := by
  refine Decimal.value_mul_congr (by norm_num) ?_
  rw [hfraction, hbasis]
  ring

theorem exitFills_exited (hvalid : args.costs.Valid) :
    (s.exited dateKey args positionId position hvalid).exitFills =
      s.exitFills ++ [args.closeFill position positionId hvalid] := by
  simp [LedgerState.exitFills, LedgerState.exited, CloseArgs.closeFill]

/-- The two totals agree. -/
def Reconciled (s : LedgerState) : Prop :=
  (sumOf (s.exitFills.map (·.result))).value = s.realizedPnlUsd.value

theorem reconcile_iff : (reconcile s).isReconciled = true ↔ Reconciled s := decide_eq_true_iff

/-- After an exit of a reconciled ledger the totals agree when both results move the total to the
same value, and not otherwise. -/
theorem Reconciled.exited_iff (h : Reconciled s) (hexits : Exits s args positionId position) :
    Reconciled (s.exited dateKey args positionId position hexits.valid) ↔
      (s.realizedPnlUsd + (args.netReceived -
          position.remainingCostUsd / position.remainingTokenAmount * args.tokenClosed)).value =
        (s.realizedPnlUsd + args.realizedDelta position).value := by
  have hresult : (args.closeFill position positionId hexits.valid).result = args.netReceived -
      position.remainingCostUsd / position.remainingTokenAmount * args.tokenClosed := by
    simp only [FillRecord.result, CloseArgs.closeFill, if_pos hexits.remaining_ne_zero]
  have htotal := Decimal.value_add_congr (p := 28) (by norm_num) h
    (rfl : (args.closeFill position positionId hexits.valid).result.value = _)
  unfold Reconciled
  rw [exitFills_exited, List.map_append, sumOf, Decimal.sum, List.foldl_append]
  change (Decimal.add 28 (sumOf (s.exitFills.map (·.result)))
    (args.closeFill position positionId hexits.valid).result).value =
      (s.realizedPnlUsd + args.realizedDelta position).value ↔ _
  rw [htotal, hresult]
  rfl

theorem Reconciled.exited (h : Reconciled s) (hexits : Exits s args positionId position)
    (hagree : SharesAgree position.remainingCostUsd position.remainingTokenAmount
      args.tokenClosed) :
    Reconciled (s.exited dateKey args positionId position hexits.valid) :=
  (h.exited_iff hexits).mpr (Decimal.value_add_congr (by norm_num) rfl
    (Decimal.value_sub_congr (by norm_num) rfl hagree.symm))

/-! ## Every state of a run -/

/-- The exit that the operation books, if it books one, has a cost on which the roundings agree. -/
def Agrees (s : LedgerState) : LedgerOp → Prop
  | .closePosition args => ∀ positionId position, Exits s args positionId position →
      SharesAgree position.remainingCostUsd position.remainingTokenAmount args.tokenClosed
  | .openPosition _ | .markToMarket _ _ => True

/-- The states of the runs whose operations all agree. -/
inductive Agreeing (dateKey : Time → String) (startingEquityUsd : Decimal) : LedgerState → Prop
  | init : Agreeing dateKey startingEquityUsd (.init startingEquityUsd)
  | step {s : LedgerState} (op : LedgerOp) (run : Agreeing dateKey startingEquityUsd s)
      (agrees : Agrees s op) : Agreeing dateKey startingEquityUsd (s.apply dateKey op)

theorem exitFills_booked (args : OpenArgs) (hvalid : args.costs.Valid) :
    (s.booked args hvalid).exitFills = s.exitFills := by
  simp [LedgerState.exitFills, LedgerState.booked, OpenArgs.entryFill]

theorem Reconciled.openPosition (h : Reconciled s) {args : OpenArgs} {next : LedgerState}
    {returned : PositionRecord} (hok : openPosition s args = .ok (next, returned)) :
    Reconciled next := by
  unfold Decimals.openPosition at hok
  split at hok
  · cases hok
  split at hok
  · cases hok
  split at hok
  · cases hposition : s.position ‹String› with
    | error e => rw [hposition] at hok; cases hok
    | ok found => rw [hposition] at hok; cases hok; exact h
  split at hok
  · cases hposition : s.position ‹String› with
    | error e => rw [hposition] at hok; cases hok
    | ok found => rw [hposition] at hok; cases hok; exact h
  split at hok
  next hvalid =>
    cases hok
    unfold Reconciled
    rw [exitFills_booked]
    exact h
  · cases hok

theorem Reconciled.apply (h : Reconciled s) (op : LedgerOp) (hagrees : Agrees s op) :
    Reconciled (s.apply dateKey op) := by
  cases op with
  | openPosition args =>
    unfold LedgerState.apply
    dsimp only
    split
    · exact h.openPosition ‹_›
    · exact h
  | closePosition args =>
    unfold LedgerState.apply
    dsimp only
    split
    next hok =>
      rcases closePosition_cases hok with rfl | ⟨positionId, position, hexits, rfl⟩
      · exact h
      · exact h.exited hexits (hagrees positionId position hexits)
    · exact h
  | markToMarket prices observedAt => exact h

end Steps

/-- Every state of a run whose exits have costs on which the roundings agree is reconciled. -/
theorem reconcile_of_agreeing (dateKey : Time → String) (startingEquityUsd : Decimal)
    {s : LedgerState} (h : Agreeing dateKey startingEquityUsd s) :
    (reconcile s).isReconciled = true := by
  rw [reconcile_iff]
  induction h with
  | init => exact rfl
  | step op _ hagrees ih => exact ih.apply op hagrees

/-! ## Ten tokens and three -/

def sampleOpen (tokens : Nat) : OpenArgs where
  tokenMint := "M"
  usdAmount := Decimal.ofNat 1
  tokenAmount := Decimal.ofNat tokens
  orderId := "entry"
  quoteId := "q1"
  positionId := "p1"
  fillId := "f1"
  createdAt := 0

def sampleClose (tokens : Nat) : CloseArgs where
  tokenMint := "M"
  usdReceived := Decimal.ofNat 1
  tokenClosed := Decimal.ofNat tokens
  orderId := "exit"
  quoteId := "q2"
  exitReason := some "TP1"
  closeFillId := "f2"
  createdAt := 60

/-- The ledger after an entry of a dollar. -/
def sampleOpened (tokens : Nat) : LedgerState :=
  (LedgerState.init (Decimal.ofNat 500)).apply (fun _ => "2026-01-01")
    (.openPosition (sampleOpen tokens))

/-- All tokens are sold for a dollar. -/
def sampleRun (tokens : Nat) : LedgerState :=
  (sampleOpened tokens).apply (fun _ => "2026-01-01") (.closePosition (sampleClose tokens))

theorem reconcile_ten_tokens : (reconcile (sampleRun 10)).isReconciled = true := by
  have hopen : Agreeing (fun _ => "2026-01-01") (Decimal.ofNat 500) (sampleOpened 10) :=
    .step (.openPosition (sampleOpen 10)) .init trivial
  refine reconcile_of_agreeing _ _ (.step (.closePosition (sampleClose 10)) hopen ?_)
  have hopened : (sampleOpened 10).tokenPosition "M" = some "p1" ∧
      (sampleOpened 10).positions.get? "p1" = some (sampleOpen 10).newPosition ∧
      SharesAgree (sampleOpen 10).newPosition.remainingCostUsd
        (sampleOpen 10).newPosition.remainingTokenAmount (sampleClose 10).tokenClosed := by
    decide +kernel
  intro positionId position hexits
  obtain rfl := Option.some.inj (hopened.1.symm.trans hexits.token)
  obtain rfl := Option.some.inj (hopened.2.1.symm.trans hexits.found)
  exact hopened.2.2

/-- A third of a dollar is rounded, and three of them are less than the dollar. -/
theorem not_reconcile_three_tokens :
    (sampleRun 3).fills.length = 2 ∧ (sampleRun 3).realizedPnlUsd.text = "0" ∧
      (reconcile (sampleRun 3)).expectedRealizedPnlUsd.text = "1E-28" ∧
      (reconcile (sampleRun 3)).isReconciled = false := by
  decide +kernel

end SniperBot.Ledger.Decimals
