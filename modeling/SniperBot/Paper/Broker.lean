import SniperBot.Paper.Database
import SniperBot.Ledger.State
import SniperBot.Risk.Manager

/-!
# The paper broker

`PaperBroker.open` and `PaperBroker.close` (`broker.py`) with a database, and the mark update of
the exit loop (`runtime.py`). Each fill is applied twice: first by the database commit, then by
the ledger, with the ids that the commit returned. A commit that raises stops the call before
the ledger is touched.

The ids that a call draws from its factory, the clock readings and the quotes are arguments.
`quote` in a close is what the retry loop ends with: a sell quote, or none.
-/

namespace SniperBot.Paper

open Basis Ledger Risk

/-! ## Quotes and configuration -/

/-- What `_build_quote` lets through: positive output and a dollar value that is not negative. -/
def QuoteResponse.Executable (quote : QuoteResponse) : Prop :=
  0 < quote.outAmount ∧ (∀ usd ∈ quote.outAmountUsd, 0 ≤ usd) ∧ 0 ≤ quote.latencyMs

/-- A quote of the quote provider. -/
abbrev ExecutableQuote := { quote : QuoteResponse // quote.Executable }

/-- The settings of a broker; its constructor checks the range of `adverse_fill_bps`. -/
structure BrokerConfig where
  adverseFillBps : Int
  bps_nonneg : 0 ≤ adverseFillBps
  bps_lt : adverseFillBps < 10000
  strategyVersion : String
  configHash : String
  risk : RiskConfig
  zone : TimeZone
  ownedRun : Option String

def BrokerConfig.adverseFactor (config : BrokerConfig) : ℚ := 1 - (config.adverseFillBps : ℚ) / 10000

/-- `atomic_entry_limits` -/
def BrokerConfig.entryLimits (config : BrokerConfig) (at' : Time) : EntryLimits where
  maxPositionUsdc := config.risk.maxPositionUsdc
  maxExposureUsdc := config.risk.maxExposureUsdc
  maxOpenPositions := config.risk.maxOpenPositions
  dailyLossLimitUsdc := config.risk.dailyLossLimitUsdc
  maxTradesPerDay := config.risk.maxTradesPerDay
  dayKey := config.zone.dateKey at'
  dayStart := (config.zone.dayBounds at').1
  dayEnd := (config.zone.dayBounds at').2

/-- The two copies of the account. -/
structure BrokerState where
  ledger : LedgerState
  db : PaperDb

inductive BrokerError
  /-- `ExecutionBlockedError` -/
  | blocked (reason : String)
  /-- `ValueError` -/
  | invalid (reason : String)
  | quoteUnavailable
  | database (e : PaperError)
  | ledger (e : LedgerError)
  deriving DecidableEq, Repr

structure ExecutionResult where
  positionId : String
  orderId : String
  tokenMint : String
  fillId : String
  usdNotional : ℚ
  tokenAmount : ℚ
  direction : FillType
  deriving DecidableEq, Repr

/-- A call answers or raises, and leaves a state. -/
abbrev Outcome := Except BrokerError ExecutionResult × BrokerState

/-! ## Repeated orders -/

/-- `get_fill_by_order` -/
def fillByOrder (s : LedgerState) (orderId : String) : Option FillRecord :=
  s.fills.reverse.find? fun fill => fill.orderId = orderId

/-- `get_position_by_order`, where an empty id counts as missing. -/
def positionByOrder (s : LedgerState) (orderId : String) : Option PositionRecord :=
  match (s.orderIdIndex.get? orderId).filter (· ≠ "") with
  | some positionId => s.positions.get? positionId
  | none => ((s.closeOrderIdIndex.get? orderId).filter (· ≠ "")).bind s.positions.get?

/-- The fill of an earlier call with a given order id. -/
def repeatedFill (s : LedgerState) (orderId : Option String) (fillType : FillType) :
    Option FillRecord :=
  (orderId.bind (fillByOrder s)).filter fun fill => fill.fillType = fillType

/-- The answer to a repeated call. -/
def repeatedAnswer (s : LedgerState) (tokenMint : String) (fill : FillRecord) :
    Except BrokerError ExecutionResult :=
  match positionByOrder s fill.orderId with
  | none => .error (.blocked "inconsistent ledger state for idempotent order")
  | some position => .ok
      { positionId := position.positionId, orderId := fill.orderId, tokenMint := tokenMint
        fillId := fill.fillId, usdNotional := fill.usdNotional, tokenAmount := fill.tokenAmount
        direction := fill.fillType }

/-- `order_id or self._id_factory()` -/
def chosenOrder (given : Option String) (drawn : String) : String :=
  (given.filter (· ≠ "")).getD drawn

/-! ## Opening -/

/-- The arguments of `open`, the ids and clock readings it draws, and the buy quote it gets. -/
structure OpenRequest where
  tokenMint : String
  usdcAmount : ℚ
  orderId : Option String
  candidateId : Option String
  poolAddress : Option String
  entryScore : Option ℚ := none
  entryLiquidityUsd : Option ℚ := none
  entryPoolAgeSeconds : Option ℚ := none
  roundTripCostPct : Option ℚ := none
  drawnOrderId : String
  positionId : String
  fillId : String
  quoteId : String
  now : Time
  filledAt : Time
  quote : Option ExecutableQuote

namespace OpenRequest

variable (config : BrokerConfig) (req : OpenRequest)

def order : String := chosenOrder req.orderId req.drawnOrderId

def tokenAmount (quote : QuoteResponse) : ℚ := quote.outAmount * config.adverseFactor

/-- The arguments of the commit. -/
def entryArgs (quote : QuoteResponse) (candidateId poolAddress : String) : EntryArgs where
  strategyVersionId := config.strategyVersion
  configHash := config.configHash
  candidateId := candidateId
  poolAddress := poolAddress
  mint := req.tokenMint
  orderId := req.order
  positionId := req.positionId
  fillId := req.fillId
  quoteId := req.quoteId
  quote := quote
  requestedUsd := req.usdcAmount
  filledTokenAmount := tokenAmount config quote
  adverseFillBps := config.adverseFillBps
  filledAt := req.filledAt
  limits := config.entryLimits req.filledAt
  ownedRun := config.ownedRun

/-- The arguments of the ledger, with the ids that the commit returned. -/
def openArgs (quote : QuoteResponse) (committed : Committed) : OpenArgs where
  tokenMint := req.tokenMint
  usdAmount := req.usdcAmount
  tokenAmount := tokenAmount config quote
  orderId := req.order
  quoteId := committed.quoteId
  positionId := committed.positionId
  fillId := committed.fillId
  createdAt := committed.filledAt
  context :=
    { candidateId := req.candidateId, poolAddress := req.poolAddress, entryScore := req.entryScore
      entryLiquidityUsd := req.entryLiquidityUsd, entryPoolAgeSeconds := req.entryPoolAgeSeconds
      strategyVersion := some config.strategyVersion }
  costs :=
    { priceImpactPct := quote.priceImpactPct, platformFeeUsd := quote.platformFeeUsd
      networkFeeUsd := quote.estimatedNetworkFeeUsd
      otherCostUsd := req.usdcAmount * config.adverseFillBps / 10000
      adverseFillBps := config.adverseFillBps, quoteLatencyMs := quote.latencyMs }
  roundTripCostPct := req.roundTripCostPct

end OpenRequest

/-- How a failed commit of an entry is reported. -/
def entryError (e : PaperError) : BrokerError :=
  if textStartsWith "risk limit:" e.text then .blocked e.text else .database e

/-- `open` from the buy quote on; `s` is the state after the risk check. -/
def fillEntry (config : BrokerConfig) (s : BrokerState) (req : OpenRequest)
    (quote : QuoteResponse) : Outcome :=
  match req.candidateId.filter (· ≠ ""), req.poolAddress.filter (· ≠ "") with
  | some candidateId, some poolAddress =>
      if config.strategyVersion = "" then
        (.error (.blocked "persistent paper entry context is incomplete"), s)
      else match commitPaperEntry (req.entryArgs config quote candidateId poolAddress) s.db with
        | (.error e, db) => (.error (entryError e), { s with db := db })
        | (.ok committed, db) =>
            match openPosition s.ledger (req.openArgs config quote committed) with
            | .error e => (.error (.ledger e), { s with db := db })
            | .ok (ledger, position) =>
                (.ok
                  { positionId := position.positionId, orderId := req.order
                    tokenMint := req.tokenMint, fillId := committed.fillId
                    usdNotional := req.usdcAmount
                    tokenAmount := OpenRequest.tokenAmount config quote
                    direction := .entry },
                  ⟨ledger, db⟩)
  | _, _ => (.error (.blocked "persistent paper entry context is incomplete"), s)

/-- `PaperBroker.open` -/
def brokerOpen (config : BrokerConfig) (s : BrokerState) (req : OpenRequest) : Outcome :=
  match repeatedFill s.ledger req.orderId .entry with
  | some fill => (repeatedAnswer s.ledger req.tokenMint fill, s)
  | none =>
      match evaluateEntry config.risk config.zone req.now s.ledger req.usdcAmount req.tokenMint with
      | (.error reason, ledger) => (.error (.blocked reason), { s with ledger := ledger })
      | (.ok (.block reason), ledger) => (.error (.blocked reason), { s with ledger := ledger })
      | (.ok .allow, ledger) =>
          match req.quote with
          | none => (.error .quoteUnavailable, { s with ledger := ledger })
          | some quote => fillEntry config { s with ledger := ledger } req quote.1

/-! ## Closing -/

structure CloseRequest where
  tokenMint : String
  tokenAmount : ℚ
  orderId : Option String
  exitReason : Option String := none
  drawnOrderId : String
  fillId : String
  quoteId : String
  filledAt : Time
  quote : Option ExecutableQuote

namespace CloseRequest

variable (config : BrokerConfig) (req : CloseRequest)

def order : String := chosenOrder req.orderId req.drawnOrderId

def quotedUsd : ℚ := (req.quote.map fun quote => quote.1.quotedUsd).getD 0

def sellPriceUsd : ℚ := req.quotedUsd * config.adverseFactor

def finalReason : String :=
  match req.quote with
  | none => "UNRECOVERABLE"
  | some _ => (req.exitReason.filter (· ≠ "")).getD "UNKNOWN_EXIT"

def exitArgs : ExitArgs where
  strategyVersionId := config.strategyVersion
  configHash := config.configHash
  mint := req.tokenMint
  orderId := req.order
  fillId := req.fillId
  quoteId := req.quoteId
  tokenAmount := req.tokenAmount
  usdReceived := req.sellPriceUsd config
  quote := req.quote.map Subtype.val
  adverseFillBps := config.adverseFillBps
  exitReason := req.finalReason
  filledAt := req.filledAt
  ownedRun := config.ownedRun

def closeArgs (committed : Committed) : CloseArgs where
  tokenMint := req.tokenMint
  usdReceived := req.sellPriceUsd config
  tokenClosed := req.tokenAmount
  orderId := req.order
  quoteId := committed.quoteId
  exitReason := some req.finalReason
  closeFillId := committed.fillId
  createdAt := committed.filledAt
  costs :=
    { priceImpactPct := (req.quote.map fun quote => quote.1.priceImpactPct).getD 1
      platformFeeUsd := (req.quote.map fun quote => quote.1.platformFeeUsd).getD 0
      networkFeeUsd := (req.quote.map fun quote => quote.1.estimatedNetworkFeeUsd).getD 0
      otherCostUsd := max 0 (req.quotedUsd - req.sellPriceUsd config)
      adverseFillBps := config.adverseFillBps
      quoteLatencyMs := (req.quote.map fun quote => quote.1.latencyMs).getD 0 }

end CloseRequest

/-- `close` after the quote loop. -/
def fillExit (config : BrokerConfig) (s : BrokerState) (req : CloseRequest) : Outcome :=
  match commitPaperExit (req.exitArgs config) s.db with
  | (.error e, db) => (.error (.database e), { s with db := db })
  | (.ok committed, db) =>
      match closePosition config.zone.dateKey s.ledger (req.closeArgs config committed) with
      | .error e => (.error (.ledger e), { s with db := db })
      | .ok (ledger, closed) =>
          (.ok
            { positionId := closed.positionId, orderId := req.order, tokenMint := req.tokenMint
              fillId := committed.fillId, usdNotional := req.sellPriceUsd config
              tokenAmount := req.tokenAmount, direction := .exit },
            ⟨ledger, db⟩)

/-- `PaperBroker.close` -/
def brokerClose (config : BrokerConfig) (s : BrokerState) (req : CloseRequest) : Outcome :=
  if req.tokenAmount ≤ 0 then (.error (.invalid "token_amount must be greater 0"), s)
  else match repeatedFill s.ledger req.orderId .exit with
    | some fill => (repeatedAnswer s.ledger req.tokenMint fill, s)
    | none =>
        match s.ledger.openPositions.find? fun position => position.tokenMint = req.tokenMint with
        | none => (.error (.invalid "no position to close"), s)
        | some position =>
            if req.tokenAmount > position.remainingTokenAmount then
              (.error (.invalid "token_amount exceeds remaining position"), s)
            else fillExit config s req

/-! ## Marking -/

/-- `executable_usd` of the exit loop. -/
def QuoteResponse.executableUsd (quote : QuoteResponse) : ℚ :=
  match quote.outAmountUsd with
  | none => quote.outAmount
  | some usd => if usd ≠ 0 then usd else quote.outAmount

/-- The price of one token in the quote of a whole position. -/
def quotedPrice (values : Dict String ℚ) (position : PositionRecord) : Option ℚ :=
  (values.get? position.positionId).map fun value =>
    if position.remainingTokenAmount > 0 then value / position.remainingTokenAmount else 0

/-- The price map that the quotes of one pass give. -/
def quotedPrices (values : Dict String ℚ) (positions : List PositionRecord) : Dict String ℚ :=
  Dict.collect (·.tokenMint) (quotedPrice values) positions Dict.empty

/-- The row of a position after `update_paper_marks`. -/
def markedRow (values : Dict String ℚ) (item : PositionRecord) (row : PositionRow) : PositionRow :=
  { row with
    unrealizedPnl := (values.get? item.positionId).getD 0 - item.remainingCostUsd
    mfePct := item.mfePct
    maePct := item.maePct
    highestExecutableValue := item.highestExecutableValueUsd
    lowestExecutableValue := item.lowestExecutableValueUsd.getD 0
    tp1Taken := item.tp1Taken
    tp2Taken := item.tp2Taken
    lastNewHighAt := item.lastNewHighAt }

/-- The account after `update_paper_marks`: the snapshot of the ledger. -/
def AccountRow.marked (account : AccountRow) (snapshot : LedgerState) (observedAt : Time) :
    AccountRow :=
  { account with
    equity := snapshot.equityUsd
    peakEquity := snapshot.peakEquityUsd
    unrealizedPnl := snapshot.unrealizedPnlUsd
    lockedCapital := snapshot.lockedCapitalUsd
    drawdownPct :=
      if snapshot.peakEquityUsd > 0 then
        (snapshot.peakEquityUsd - snapshot.equityUsd) / snapshot.peakEquityUsd
      else 0
    updatedAt := observedAt }

/-- The rows after `update_paper_marks`. -/
def PaperDb.marked (db : PaperDb) (account : AccountRow) (values : Dict String ℚ)
    (snapshot : LedgerState) (observedAt : Time) : PaperDb :=
  { db with
    account := some (account.marked snapshot observedAt)
    equityMarks := db.equityMarks ++ [(account.marked snapshot observedAt).equityMark observedAt]
    positions := snapshot.openPositions.foldl
      (fun rows item => rows.update item.positionId (markedRow values item)) db.positions }

/-- `update_paper_marks` with the open positions and the snapshot of a ledger. -/
def updatePaperMarks (ownedRun : Option String) (values : Dict String ℚ) (snapshot : LedgerState)
    (observedAt : Time) : PaperDb → Except PaperError Unit × PaperDb :=
  transaction fun db =>
    match db.account with
    | none => (.error .marksAccount, db)
    | some account =>
        match runtimeOwnerError db.activeRun ownedRun with
        | some e => (.error e, db)
        | none => (.ok (), db.marked account values snapshot observedAt)

/-- The mark update of the exit loop: nothing unless every open position has a quote. -/
def markUpdate (config : BrokerConfig) (s : BrokerState) (quotes : Dict String ExecutableQuote)
    (now : Time) : BrokerState :=
  let values := quotes.mapValues fun _ quote => quote.1.executableUsd
  let prices := quotedPrices values s.ledger.openPositions
  if prices.entries.length ≠ 0 ∧ prices.entries.length = s.ledger.openPositions.length then
    let ledger := markToMarket config.zone.dateKey s.ledger prices now
    ⟨ledger, (updatePaperMarks config.ownedRun values ledger now s.db).2⟩
  else s

/-! ## Operations of a run -/

inductive BrokerOp
  | openPosition (req : OpenRequest)
  | closePosition (req : CloseRequest)
  | mark (quotes : Dict String ExecutableQuote) (now : Time)

def BrokerState.apply (config : BrokerConfig) (s : BrokerState) : BrokerOp → BrokerState
  | .openPosition req => (brokerOpen config s req).2
  | .closePosition req => (brokerClose config s req).2
  | .mark quotes now => markUpdate config s quotes now

/-- A new ledger and a new account with the same starting equity, under the broker's run. -/
def BrokerState.init (config : BrokerConfig) (startingEquity : ℚ) (now : Time) : BrokerState :=
  ⟨LedgerState.init startingEquity,
    initializePaperAccount startingEquity now { activeRun := config.ownedRun }⟩

end SniperBot.Paper
