import SniperBot.Domain
import SniperBot.Basis.Dict
import Mathlib.Algebra.Order.Ring.Rat

/-!
# The paper account in the database

The rows behind paper trading (`db_models.py`) and the transactions that write them
(`database.py`): `initialize_paper_account`, `commit_paper_entry`, `commit_paper_exit`,
`update_paper_marks` and `record_operational_cost`.

There is one account row, `paper-main`. A transaction body may write rows and raise later;
`transaction` rolls such writes back. Risk events and stored quotes are only ever written and
are left out. Amounts are exact rationals, where the columns keep 18 decimal places
(`NUMERIC(38, 18)`).
-/

namespace SniperBot.Paper

open Basis

/-! ## Rows -/

theorem no_fee : (0 : ℚ) ≤ 0 := le_rfl

/-- The columns of a Jupiter quote that paper execution reads, with the bounds of its model. -/
structure QuoteResponse where
  requestedAt : Time := 0
  latencyMs : Int := 0
  inAmount : ℚ
  outAmount : ℚ
  inAmountUsd : Option ℚ := none
  outAmountUsd : Option ℚ := none
  priceImpactPct : ℚ := 0
  platformFeeUsd : ℚ := 0
  estimatedNetworkFeeUsd : ℚ := 0
  platformFee_nonneg : 0 ≤ platformFeeUsd := by first | exact no_fee | decide
  networkFee_nonneg : 0 ≤ estimatedNetworkFeeUsd := by first | exact no_fee | decide

structure AccountRow where
  startingEquity : ℚ
  cashBalance : ℚ
  lockedCapital : ℚ
  realizedPnl : ℚ
  unrealizedPnl : ℚ
  simulatedCosts : ℚ
  operationalCosts : ℚ
  equity : ℚ
  peakEquity : ℚ
  drawdownPct : ℚ
  haltReason : Option String
  pauseUntil : Option Time
  dailyHaltDate : Option String
  updatedAt : Time
  deriving DecidableEq, Repr

structure EquityMarkRow where
  equity : ℚ
  realizedPnl : ℚ
  unrealizedPnl : ℚ
  lockedCapital : ℚ
  observedAt : Time
  deriving DecidableEq, Repr

structure OperationalCostRow where
  category : String
  amountUsd : ℚ
  incurredAt : Time
  sourceReferenceSha256 : String
  createdAt : Time
  deriving DecidableEq, Repr

inductive Side
  | buy | sell
  deriving DecidableEq, Repr

inductive OrderStatus
  | filled | expired
  deriving DecidableEq, Repr

/-- An order; its id is also its idempotency key. -/
structure OrderRow where
  candidateId : Option String
  positionId : Option String
  side : Side
  status : OrderStatus
  requestedUsd : Option ℚ
  requestedTokenRaw : Option ℚ
  quoteRequestId : Option String
  createdAt : Time
  filledAt : Time
  rejectReason : Option String
  deriving DecidableEq, Repr

structure FillRow where
  orderId : String
  side : Side
  inputRawAmount : ℚ
  outputRawAmount : ℚ
  inputUsd : ℚ
  outputUsd : ℚ
  executionPrice : ℚ
  quotedPrice : ℚ
  adverseFillBps : Int
  priceImpactPct : ℚ
  platformFeeUsd : ℚ
  networkFeeUsd : ℚ
  otherCostUsd : ℚ
  costBasisUsd : ℚ
  realizedPnlUsd : ℚ
  exitReason : Option String
  strategyVersionId : String
  configHash : String
  filledAt : Time
  deriving DecidableEq, Repr

/-- `OPEN`, `PARTIAL`, `CLOSED` and `UNRECOVERABLE`. -/
inductive RowStatus
  | opened | partly | closed | unrecoverable
  deriving DecidableEq, Repr

/-- The statuses of `status IN ('OPEN', 'PARTIAL')`. -/
def RowStatus.Live (status : RowStatus) : Prop := status = .opened ∨ status = .partly

instance (status : RowStatus) : Decidable status.Live := inferInstanceAs (Decidable (_ ∨ _))

structure PositionRow where
  mint : String
  poolAddress : String
  status : RowStatus
  strategyVersionId : String
  entryTime : Time
  closedAt : Option Time
  initialCostUsd : ℚ
  remainingCostUsd : ℚ
  initialTokenAmountRaw : ℚ
  tokenAmountRaw : ℚ
  openFillId : String
  realizedPnl : ℚ
  unrealizedPnl : ℚ
  mfePct : ℚ
  maePct : ℚ
  highestExecutableValue : ℚ
  lowestExecutableValue : ℚ
  tp1Taken : Bool
  tp2Taken : Bool
  lastNewHighAt : Option Time
  configHash : String
  exitReason : Option String
  deriving DecidableEq, Repr

/-- The tables, keyed by primary key, and the run that is not stopped. -/
structure PaperDb where
  account : Option AccountRow := none
  positions : Dict String PositionRow := Dict.empty
  orders : Dict String OrderRow := Dict.empty
  fills : Dict String FillRow := Dict.empty
  equityMarks : List EquityMarkRow := []
  operationalCosts : Dict String OperationalCostRow := Dict.empty
  activeRun : Option String := none

inductive PaperError
  | entryIncomplete | exitIncomplete | accountMissing | runtimeForeign | runtimeLost
  | accountHalted | consecutiveLossPause | maximumPosition | maximumExposure
  | maximumOpenPositions | maximumTradesPerDay | dailyLoss
  | duplicatePosition | insufficientCash
  | positionMissing | invalidTokenAmount
  | costNotPositive | costReference | costAccount | costRuntimeActive | costConflict
  | costMismatch | marksAccount | divisionByZero | uniqueViolation
  deriving DecidableEq, Repr

/-- The message of the raised exception; the last two come from the decimal library and from
the database driver. -/
def PaperError.text : PaperError → String
  | .entryIncomplete => "paper entry idempotency record is incomplete"
  | .exitIncomplete => "paper exit idempotency record is incomplete"
  | .accountMissing => "paper account is not initialized"
  | .runtimeForeign => "paper-account transaction is owned by another runtime"
  | .runtimeLost => "paper-account transaction lost runtime ownership"
  | .accountHalted => "risk limit: account halted"
  | .consecutiveLossPause => "risk limit: consecutive-loss pause"
  | .maximumPosition => "risk limit: maximum position"
  | .maximumExposure => "risk limit: maximum exposure"
  | .maximumOpenPositions => "risk limit: maximum open positions"
  | .maximumTradesPerDay => "risk limit: maximum trades per day"
  | .dailyLoss => "risk limit: daily loss"
  | .duplicatePosition => "an open paper position already exists for mint"
  | .insufficientCash => "paper account has insufficient cash"
  | .positionMissing => "paper position or account is unavailable"
  | .invalidTokenAmount => "invalid paper exit token amount"
  | .costNotPositive => "operational cost must be positive"
  | .costReference => "operational cost source reference must be SHA-256"
  | .costAccount => "paper account does not exist"
  | .costRuntimeActive => "stop the bot before recording operational costs"
  | .costConflict => "operational cost id conflicts with another source"
  | .costMismatch => "operational cost retry does not match the original record"
  | .marksAccount => "paper account is unavailable"
  | .divisionByZero => "DivisionByZero"
  | .uniqueViolation => "UNIQUE constraint failed"

/-! ## Transactions -/

/-- A transaction body: its answer or error, and the rows it has written by then. -/
abbrev Body (α : Type) := PaperDb → Except PaperError α × PaperDb

/-- `sessions.begin()`: commit when the body returns, roll back when it raises. -/
def transaction {α : Type} (body : Body α) (db : PaperDb) : Except PaperError α × PaperDb :=
  match body db with
  | (.ok value, written) => (.ok value, written)
  | (.error e, _) => (.error e, db)

theorem transaction_error {α : Type} {body : Body α} {db : PaperDb} {e : PaperError}
    (h : (transaction body db).1 = .error e) : (transaction body db).2 = db := by
  unfold transaction at h ⊢
  split
  · rename_i heq
    rw [heq] at h
    cases h
  · rfl

theorem transaction_of_ok {α : Type} {body : Body α} {db written : PaperDb} {value : α}
    (h : body db = (.ok value, written)) : transaction body db = (.ok value, written) := by
  simp [transaction, h]

theorem transaction_of_error {α : Type} {body : Body α} {db : PaperDb} {e : PaperError}
    (h : (body db).1 = .error e) : transaction body db = (.error e, db) := by
  unfold transaction
  split
  · rename_i heq
    rw [heq] at h
    cases h
  · rename_i e' written heq
    rw [heq] at h
    cases h
    rfl

/-- `_assert_transaction_runtime_owner` for a caller that owns the run `owned`. -/
def runtimeOwnerError (active owned : Option String) : Option PaperError :=
  match owned with
  | none => if active ≠ none then some .runtimeForeign else none
  | some run => if active ≠ some run then some .runtimeLost else none

/-- `_add_paper_equity_mark` -/
def AccountRow.equityMark (account : AccountRow) (observedAt : Time) : EquityMarkRow where
  equity := account.equity
  realizedPnl := account.realizedPnl
  unrealizedPnl := account.unrealizedPnl
  lockedCapital := account.lockedCapital
  observedAt := observedAt

/-- The open row of a mint; the index `uq_open_paper_position_mint` admits at most one. -/
def PaperDb.livePosition (db : PaperDb) (mint : String) : Option (String × PositionRow) :=
  db.positions.entries.find? fun e => e.2.mint = mint ∧ e.2.status.Live

/-- `initialize_paper_account` -/
def initializePaperAccount (startingEquity : ℚ) (now : Time) (db : PaperDb) : PaperDb :=
  match db.account with
  | some _ => db
  | none =>
      let account : AccountRow :=
        { startingEquity := startingEquity, cashBalance := startingEquity, lockedCapital := 0
          realizedPnl := 0, unrealizedPnl := 0, simulatedCosts := 0, operationalCosts := 0
          equity := startingEquity, peakEquity := startingEquity, drawdownPct := 0
          haltReason := none, pauseUntil := none, dailyHaltDate := none, updatedAt := now }
      { db with
        account := some account
        equityMarks := db.equityMarks ++ [account.equityMark now] }

/-- The answer of both commits. -/
structure Committed where
  positionId : String
  fillId : String
  quoteId : String
  filledAt : Time
  deriving DecidableEq, Repr

/-- The lookup that both commits start with: the answer of an earlier call with the order id. -/
def PaperDb.existingOrder (db : PaperDb) (orderId : String) (incomplete : PaperError) :
    Option (Except PaperError Committed) :=
  (db.orders.get? orderId).map fun existing =>
    match db.fills.entries.find? (fun e => e.2.orderId = orderId), existing.positionId with
    | some fill, some positionId =>
        .ok ⟨positionId, fill.1, existing.quoteRequestId.getD "", fill.2.filledAt⟩
    | _, _ => .error incomplete

/-! ## Entries -/

/-- `AtomicEntryLimits`; the defaults are those of `commit_paper_entry`. -/
structure EntryLimits where
  maxPositionUsdc : ℚ := 20
  maxExposureUsdc : ℚ := 50
  maxOpenPositions : Int := 3
  dailyLossLimitUsdc : ℚ := 10
  maxTradesPerDay : Int := 12
  dayKey : String
  dayStart : Time
  dayEnd : Time

/-- The arguments of `commit_paper_entry`; `quoteId` is the id drawn for the stored quote and
`ownedRun` the run of the calling runtime. -/
structure EntryArgs where
  strategyVersionId : String := ""
  configHash : String := ""
  candidateId : String
  poolAddress : String
  mint : String
  orderId : String
  positionId : String
  fillId : String
  quoteId : String
  quote : QuoteResponse
  requestedUsd : ℚ
  filledTokenAmount : ℚ
  adverseFillBps : Int
  filledAt : Time
  limits : EntryLimits
  ownedRun : Option String := none

namespace EntryArgs

variable (args : EntryArgs)

def entryCost : ℚ := args.requestedUsd + args.quote.estimatedNetworkFeeUsd

def otherCost : ℚ := args.requestedUsd * args.adverseFillBps / 10000

def executionPrice : ℚ := args.entryCost / args.filledTokenAmount

def order : OrderRow where
  candidateId := some args.candidateId
  positionId := some args.positionId
  side := .buy
  status := .filled
  requestedUsd := some args.requestedUsd
  requestedTokenRaw := none
  quoteRequestId := some args.quoteId
  createdAt := args.quote.requestedAt
  filledAt := args.filledAt
  rejectReason := none

def fill : FillRow where
  orderId := args.orderId
  side := .buy
  inputRawAmount := args.quote.inAmount
  outputRawAmount := args.filledTokenAmount
  inputUsd := args.entryCost
  outputUsd := args.requestedUsd
  executionPrice := args.executionPrice
  quotedPrice := if args.quote.outAmount > 0 then args.requestedUsd / args.quote.outAmount else 0
  adverseFillBps := args.adverseFillBps
  priceImpactPct := args.quote.priceImpactPct
  platformFeeUsd := args.quote.platformFeeUsd
  networkFeeUsd := args.quote.estimatedNetworkFeeUsd
  otherCostUsd := args.otherCost
  costBasisUsd := args.executionPrice
  realizedPnlUsd := 0
  exitReason := none
  strategyVersionId := args.strategyVersionId
  configHash := args.configHash
  filledAt := args.filledAt

def position : PositionRow where
  mint := args.mint
  poolAddress := args.poolAddress
  status := .opened
  strategyVersionId := args.strategyVersionId
  entryTime := args.filledAt
  closedAt := none
  initialCostUsd := args.entryCost
  remainingCostUsd := args.entryCost
  initialTokenAmountRaw := args.filledTokenAmount
  tokenAmountRaw := args.filledTokenAmount
  openFillId := args.fillId
  realizedPnl := 0
  unrealizedPnl := 0
  mfePct := 0
  maePct := 0
  highestExecutableValue := args.entryCost
  lowestExecutableValue := args.entryCost
  tp1Taken := false
  tp2Taken := false
  lastNewHighAt := some args.filledAt
  configHash := args.configHash
  exitReason := none

end EntryArgs

/-- The controls that have run out are cleared before an entry is checked. -/
def AccountRow.cleared (account : AccountRow) (filledAt : Time) (dayKey : String) : AccountRow :=
  let unpaused := { account with pauseUntil := account.pauseUntil.filter (filledAt < ·) }
  if account.dailyHaltDate.any fun date => date ≠ "" ∧ date ≠ dayKey then
    { unpaused with
      haltReason := account.haltReason.filter fun reason => !textStartsWith "daily:" reason
      dailyHaltDate := none }
  else unpaused

/-- Clearing touches the controls only. -/
theorem cleared_frame (account : AccountRow) (filledAt : Time) (dayKey : String) :
    ∃ halt pause date, account.cleared filledAt dayKey =
      { account with haltReason := halt, pauseUntil := pause, dailyHaltDate := date } := by
  unfold AccountRow.cleared
  dsimp only
  split <;> exact ⟨_, _, _, rfl⟩

/-- The rows with status `OPEN` or `PARTIAL`. -/
def PaperDb.livePositions (db : PaperDb) : List (String × PositionRow) :=
  db.positions.entries.filter fun e => e.2.status.Live

/-- The BUY orders filled in a risk day. -/
def PaperDb.buyOrders (db : PaperDb) (dayStart dayEnd : Time) : List (String × OrderRow) :=
  db.orders.entries.filter fun e =>
    e.2.side = .buy ∧ dayStart ≤ e.2.filledAt ∧ e.2.filledAt < dayEnd

/-- The mark with the greatest key among those that qualify. -/
def bestMark (qualifies : EquityMarkRow → Bool) (key : EquityMarkRow → Int)
    (marks : List EquityMarkRow) : Option EquityMarkRow :=
  (marks.filter qualifies).foldl (fun best mark =>
    match best with
    | none => some mark
    | some held => if key held < key mark then some mark else some held) none

/-- The equity that a day starts with: the last mark up to its start, else the first one
before its end. -/
def PaperDb.baselineEquity (db : PaperDb) (dayStart dayEnd : Time) : Option ℚ :=
  match bestMark (·.observedAt ≤ dayStart) (·.observedAt) db.equityMarks with
  | some mark => some mark.equity
  | none => (bestMark (·.observedAt < dayEnd) (-·.observedAt) db.equityMarks).map (·.equity)

/-- The checks of `commit_paper_entry` on the locked account, in their order. -/
def entryRefusal (db : PaperDb) (account : AccountRow) (args : EntryArgs) : Option PaperError :=
  let limits := args.limits
  if account.haltReason ≠ none then some .accountHalted
  else if account.pauseUntil ≠ none then some .consecutiveLossPause
  else if args.requestedUsd > limits.maxPositionUsdc then some .maximumPosition
  else if account.lockedCapital + args.entryCost > limits.maxExposureUsdc then
    some .maximumExposure
  else if (db.livePositions.length : Int) ≥ limits.maxOpenPositions then
    some .maximumOpenPositions
  else if ((db.buyOrders limits.dayStart limits.dayEnd).length : Int) ≥ limits.maxTradesPerDay then
    some .maximumTradesPerDay
  else if (db.baselineEquity limits.dayStart limits.dayEnd).any fun baseline =>
      account.equity - baseline ≤ -|limits.dailyLossLimitUsdc| then
    some .dailyLoss
  else if db.livePosition args.mint ≠ none then some .duplicatePosition
  else if account.cashBalance < args.entryCost then some .insufficientCash
  else if args.filledTokenAmount = 0 then some .divisionByZero
  else if db.orders.contains args.orderId ∨ db.fills.contains args.fillId ∨
      db.positions.contains args.positionId then some .uniqueViolation
  else none

/-- The account when the check refuses: a daily loss has written the halt. -/
def AccountRow.refused (account : AccountRow) (dayKey : String) (e : PaperError) : AccountRow :=
  if e = .dailyLoss then
    { account with
      dailyHaltDate := some dayKey
      haltReason := some ("daily:" ++ dayKey ++ ":DAILY_LOSS_LIMIT") }
  else account

def AccountRow.entered (account : AccountRow) (args : EntryArgs) : AccountRow :=
  { account with
    cashBalance := account.cashBalance - args.entryCost
    lockedCapital := account.lockedCapital + args.entryCost
    simulatedCosts := account.simulatedCosts +
      (args.quote.platformFeeUsd + args.quote.estimatedNetworkFeeUsd + args.otherCost)
    updatedAt := args.filledAt }

/-- The rows that a granted entry adds. -/
def PaperDb.entered (db : PaperDb) (account : AccountRow) (args : EntryArgs) : PaperDb :=
  { db with
    account := some (account.entered args)
    orders := db.orders.set args.orderId args.order
    fills := db.fills.set args.fillId args.fill
    positions := db.positions.set args.positionId args.position
    equityMarks := db.equityMarks ++ [(account.entered args).equityMark args.filledAt] }

/-- `commit_paper_entry` from the lock on the account row to the end. -/
def lockedEntry (args : EntryArgs) : Body Committed := fun db =>
  match db.account with
  | none => (.error .accountMissing, db)
  | some stored =>
      match runtimeOwnerError db.activeRun args.ownedRun with
      | some e => (.error e, db)
      | none =>
          let account := stored.cleared args.filledAt args.limits.dayKey
          match entryRefusal db account args with
          | some e => (.error e, { db with account := some (account.refused args.limits.dayKey e) })
          | none =>
              (.ok ⟨args.positionId, args.fillId, args.quoteId, args.filledAt⟩,
                db.entered account args)

/-- `commit_paper_entry` -/
def commitPaperEntry (args : EntryArgs) : PaperDb → Except PaperError Committed × PaperDb :=
  transaction fun db =>
    match db.existingOrder args.orderId .entryIncomplete with
    | some answer => (answer, db)
    | none => lockedEntry args db

/-! ## Exits -/

/-- The arguments of `commit_paper_exit`; `quoteId` is the id drawn for a stored quote. -/
structure ExitArgs where
  strategyVersionId : String := ""
  configHash : String := ""
  mint : String
  orderId : String
  fillId : String
  quoteId : String
  tokenAmount : ℚ
  usdReceived : ℚ
  quote : Option QuoteResponse
  adverseFillBps : Int
  exitReason : String
  filledAt : Time
  ownedRun : Option String := none

def PositionRow.costPerToken (row : PositionRow) : ℚ := row.remainingCostUsd / row.tokenAmountRaw

namespace ExitArgs

variable (args : ExitArgs) (row : PositionRow)

def closedFraction : ℚ := args.tokenAmount / row.tokenAmountRaw

def remainingFraction : ℚ := 1 - args.closedFraction row

def closedUnrealized : ℚ := row.unrealizedPnl * args.closedFraction row

def proportionalCost : ℚ := row.costPerToken * args.tokenAmount

def networkFee : ℚ := (args.quote.map (·.estimatedNetworkFeeUsd)).getD 0

def platformFee : ℚ := (args.quote.map (·.platformFeeUsd)).getD 0

def netReceived : ℚ := max 0 (args.usdReceived - args.networkFee)

def realizedDelta : ℚ := args.netReceived - args.proportionalCost row

end ExitArgs

/-- The dollar value of a sell quote, or the raw output where it has none. -/
def QuoteResponse.quotedUsd (quote : QuoteResponse) : ℚ :=
  match quote.outAmountUsd with
  | none => quote.outAmount
  | some usd => if usd > 0 then usd else quote.outAmount

namespace ExitArgs

variable (args : ExitArgs) (row : PositionRow)

def quotedOutput : ℚ := (args.quote.map (·.quotedUsd)).getD 0

def otherCost : ℚ := max 0 (args.quotedOutput - args.usdReceived)

def storedQuoteId : Option String := args.quote.map fun _ => args.quoteId

def order (positionId : String) : OrderRow where
  candidateId := none
  positionId := some positionId
  side := .sell
  status := if args.quote.isSome then .filled else .expired
  requestedUsd := none
  requestedTokenRaw := some args.tokenAmount
  quoteRequestId := args.storedQuoteId
  createdAt := args.filledAt
  filledAt := args.filledAt
  rejectReason := if args.quote.isSome then none else some "NO_SELL_ROUTE"

def fill : FillRow where
  orderId := args.orderId
  side := .sell
  inputRawAmount := args.tokenAmount
  outputRawAmount :=
    (args.quote.map fun quote => quote.outAmount * (1 - (args.adverseFillBps : ℚ) / 10000)).getD 0
  inputUsd := args.proportionalCost row
  outputUsd := args.netReceived
  executionPrice := if args.tokenAmount > 0 then args.netReceived / args.tokenAmount else 0
  quotedPrice := if args.tokenAmount > 0 then args.quotedOutput / args.tokenAmount else 0
  adverseFillBps := args.adverseFillBps
  priceImpactPct := (args.quote.map (·.priceImpactPct)).getD 1
  platformFeeUsd := args.platformFee
  networkFeeUsd := args.networkFee
  otherCostUsd := args.otherCost
  costBasisUsd := row.costPerToken
  realizedPnlUsd := args.realizedDelta row
  exitReason := some args.exitReason
  strategyVersionId := args.strategyVersionId
  configHash := args.configHash
  filledAt := args.filledAt

/-- Nothing is left of the position after the exit. -/
def Final : Prop := row.tokenAmountRaw - args.tokenAmount ≤ 0

instance : Decidable (args.Final row) := inferInstanceAs (Decidable (_ ≤ _))

/-- The status after the exit: without a quote it is `UNRECOVERABLE`, whatever is left. -/
def newStatus : RowStatus :=
  if args.quote.isNone then .unrecoverable else if args.Final row then .closed else .partly

def exitedRow : PositionRow :=
  { row with
    tokenAmountRaw := row.tokenAmountRaw - args.tokenAmount
    remainingCostUsd := row.remainingCostUsd - args.proportionalCost row
    realizedPnl := row.realizedPnl + args.realizedDelta row
    unrealizedPnl := row.unrealizedPnl - args.closedUnrealized row
    highestExecutableValue := row.highestExecutableValue * args.remainingFraction row
    lowestExecutableValue := row.lowestExecutableValue * args.remainingFraction row
    tp1Taken := row.tp1Taken || args.exitReason = "TP1"
    tp2Taken := row.tp2Taken || args.exitReason = "TP2"
    status := args.newStatus row
    closedAt := if args.Final row ∨ args.quote = none then some args.filledAt else none
    exitReason := if args.Final row ∨ args.quote = none then some args.exitReason else none }

end ExitArgs

def AccountRow.exited (account : AccountRow) (args : ExitArgs) (row : PositionRow) : AccountRow :=
  let equity := account.equity + (args.realizedDelta row - args.closedUnrealized row)
  let peak := max account.peakEquity equity
  { account with
    cashBalance := account.cashBalance + args.netReceived
    lockedCapital := account.lockedCapital - args.proportionalCost row
    realizedPnl := account.realizedPnl + args.realizedDelta row
    unrealizedPnl := account.unrealizedPnl - args.closedUnrealized row
    equity := equity
    peakEquity := peak
    drawdownPct := if peak > 0 then (peak - equity) / peak else 0
    simulatedCosts :=
      account.simulatedCosts + (args.platformFee + args.networkFee + args.otherCost)
    updatedAt := args.filledAt }

/-- The rows after an exit of the stored row `row`. -/
def PaperDb.exited (db : PaperDb) (account : AccountRow) (args : ExitArgs) (positionId : String)
    (row : PositionRow) : PaperDb :=
  { db with
    account := some (account.exited args row)
    orders := db.orders.set args.orderId (args.order positionId)
    fills := db.fills.set args.fillId (args.fill row)
    positions := db.positions.set positionId (args.exitedRow row)
    equityMarks := db.equityMarks ++ [(account.exited args row).equityMark args.filledAt] }

/-- `commit_paper_exit` from the locks on the position and the account to the end. -/
def lockedExit (args : ExitArgs) : Body Committed := fun db =>
  match db.livePosition args.mint, db.account with
  | some (positionId, row), some account =>
      match runtimeOwnerError db.activeRun args.ownedRun with
      | some e => (.error e, db)
      | none =>
          if args.tokenAmount ≤ 0 ∨ args.tokenAmount > row.tokenAmountRaw then
            (.error .invalidTokenAmount, db)
          else if db.orders.contains args.orderId ∨ db.fills.contains args.fillId then
            (.error .uniqueViolation, db)
          else
            (.ok ⟨positionId, args.fillId, args.storedQuoteId.getD "unrecoverable", args.filledAt⟩,
              db.exited account args positionId row)
  | _, _ => (.error .positionMissing, db)

/-- `commit_paper_exit` -/
def commitPaperExit (args : ExitArgs) : PaperDb → Except PaperError Committed × PaperDb :=
  transaction fun db =>
    match db.existingOrder args.orderId .exitIncomplete with
    | some answer => (answer, db)
    | none => lockedExit args db

/-! ## Operational costs -/

/-- The arguments of `record_operational_cost`; `source` is the lower-cased reference. -/
structure CostArgs where
  costId : String
  category : String
  amountUsd : ℚ
  incurredAt : Time
  source : String
  recordedAt : Time

/-- `[0-9a-f]{64}` -/
def isSha256 (text : String) : Bool :=
  text.toList.length = 64 && text.toList.all fun c => c ∈ "0123456789abcdef".toList

/-- Rounding to six decimals for the comparison of a retry. -/
def micros (amount : ℚ) : Int :=
  let scaled := amount * 1000000
  let below := scaled.floor
  -- `quantize` rounds half to even
  if scaled - below < 1 / 2 then below
  else if 1 / 2 < scaled - below then below + 1
  else if below % 2 = 0 then below else below + 1

def CostArgs.row (args : CostArgs) : OperationalCostRow where
  category := args.category
  amountUsd := args.amountUsd
  incurredAt := args.incurredAt
  sourceReferenceSha256 := args.source
  createdAt := args.recordedAt

def AccountRow.charged (account : AccountRow) (args : CostArgs) : AccountRow :=
  let equity := account.equity - args.amountUsd
  { account with
    operationalCosts := account.operationalCosts + args.amountUsd
    cashBalance := account.cashBalance - args.amountUsd
    equity := equity
    drawdownPct :=
      if account.peakEquity ≤ 0 then 100
      else max 0 ((account.peakEquity - equity) / account.peakEquity * 100)
    updatedAt := args.recordedAt }

/-- The rows after a new cost is recorded. -/
def PaperDb.charged (db : PaperDb) (account : AccountRow) (args : CostArgs) : PaperDb :=
  { db with
    account := some (account.charged args)
    operationalCosts := db.operationalCosts.set args.costId args.row
    equityMarks := db.equityMarks ++ [(account.charged args).equityMark args.recordedAt] }

/-- `record_operational_cost` from the lock on the account row to the end. -/
def lockedCost (args : CostArgs) : Body Bool := fun db =>
  match db.account with
  | none => (.error .costAccount, db)
  | some account =>
      if db.activeRun ≠ none then (.error .costRuntimeActive, db)
      else match db.operationalCosts.entries.find? fun e =>
          e.2.sourceReferenceSha256 = args.source with
        | some (_, existing) =>
            if existing.category ≠ args.category ∨
                micros existing.amountUsd ≠ micros args.amountUsd ∨
                existing.incurredAt ≠ args.incurredAt then
              (.error .costMismatch, db)
            else (.ok false, db)
        | none =>
            if db.operationalCosts.contains args.costId then (.error .costConflict, db)
            else (.ok true, db.charged account args)

/-- `record_operational_cost`: whether the cost is new. -/
def recordOperationalCost (args : CostArgs) (db : PaperDb) : Except PaperError Bool × PaperDb :=
  if args.amountUsd ≤ 0 then (.error .costNotPositive, db)
  else if !isSha256 args.source then (.error .costReference, db)
  else transaction (lockedCost args) db

/-! ## What a commit does -/

section Cases

variable {db : PaperDb}

theorem ite_refuse_eq_none {α : Type} {c : Prop} [Decidable c] {e : α} {rest : Option α} :
    (if c then some e else rest) = none ↔ ¬ c ∧ rest = none := by
  by_cases h : c <;> simp [h]

theorem livePosition_some {mint id : String} {row : PositionRow}
    (h : db.livePosition mint = some (id, row)) :
    db.positions.get? id = some row ∧ row.mint = mint ∧ row.status.Live := by
  have hmem := List.mem_of_find?_eq_some h
  have hprop := List.find?_some h
  simp only [decide_eq_true_eq] at hprop
  exact ⟨Dict.mem_entries.mp hmem, hprop.1, hprop.2⟩

theorem livePosition_none {mint id : String} {row : PositionRow}
    (h : db.livePosition mint = none) (hget : db.positions.get? id = some row)
    (hlive : row.status.Live) : row.mint ≠ mint := by
  intro hmint
  have hmem := List.find?_eq_none.mp h (id, row) (Dict.mem_entries.mpr hget)
  exact hmem (decide_eq_true ⟨hmint, hlive⟩)

/-- The situation in which an entry is granted; `account` is the row with its controls cleared. -/
structure EntryCase (db : PaperDb) (args : EntryArgs) (account : AccountRow) : Prop where
  stored : ∃ row, db.account = some row ∧
    account = row.cleared args.filledAt args.limits.dayKey
  exposure : account.lockedCapital + args.entryCost ≤ args.limits.maxExposureUsdc
  openCount : (db.livePositions.length : Int) < args.limits.maxOpenPositions
  trades : ((db.buyOrders args.limits.dayStart args.limits.dayEnd).length : Int) <
    args.limits.maxTradesPerDay
  noDuplicate : db.livePosition args.mint = none
  cash : args.entryCost ≤ account.cashBalance
  tokens : args.filledTokenAmount ≠ 0
  freshOrder : db.orders.get? args.orderId = none
  freshFill : db.fills.get? args.fillId = none
  freshPosition : db.positions.get? args.positionId = none

theorem lockedEntry_cases (args : EntryArgs) (db : PaperDb) :
    (∃ e, (lockedEntry args db).1 = .error e) ∨
    ∃ account, EntryCase db args account ∧ lockedEntry args db =
      (.ok ⟨args.positionId, args.fillId, args.quoteId, args.filledAt⟩,
        db.entered account args) := by
  unfold lockedEntry
  cases haccount : db.account with
  | none => exact Or.inl ⟨_, rfl⟩
  | some row =>
      cases howner : runtimeOwnerError db.activeRun args.ownedRun with
      | some e => exact Or.inl ⟨e, rfl⟩
      | none =>
          dsimp only
          cases hrefusal : entryRefusal db (row.cleared args.filledAt args.limits.dayKey) args with
          | some e => exact Or.inl ⟨e, rfl⟩
          | none =>
              refine Or.inr ⟨_, ?_, rfl⟩
              simp only [entryRefusal, ite_refuse_eq_none, not_or, Bool.not_eq_true,
                Dict.contains_eq_false] at hrefusal
              obtain ⟨-, -, -, hexposure, hopen, htrades, -, hduplicate, hcash, htokens,
                ⟨horder, hfill, hposition⟩, -⟩ := hrefusal
              exact ⟨⟨row, haccount, rfl⟩, not_lt.mp hexposure, not_le.mp hopen,
                not_le.mp htrades, not_not.mp hduplicate, not_lt.mp hcash, htokens, horder, hfill,
                hposition⟩

/-- The situation in which an exit is booked on the row `row`. -/
structure ExitCase (db : PaperDb) (args : ExitArgs) (account : AccountRow) (positionId : String)
    (row : PositionRow) : Prop where
  account : db.account = some account
  found : db.livePosition args.mint = some (positionId, row)
  amount : 0 < args.tokenAmount
  available : args.tokenAmount ≤ row.tokenAmountRaw
  freshOrder : db.orders.get? args.orderId = none
  freshFill : db.fills.get? args.fillId = none

theorem lockedExit_cases (args : ExitArgs) (db : PaperDb) :
    (∃ e, (lockedExit args db).1 = .error e) ∨
    ∃ account positionId row, ExitCase db args account positionId row ∧ lockedExit args db =
      (.ok ⟨positionId, args.fillId, args.storedQuoteId.getD "unrecoverable", args.filledAt⟩,
        db.exited account args positionId row) := by
  unfold lockedExit
  split
  · rename_i positionId row account hfound haccount
    split
    · exact Or.inl ⟨_, rfl⟩
    · split
      · exact Or.inl ⟨_, rfl⟩
      · rename_i hamount
        split
        · exact Or.inl ⟨_, rfl⟩
        · rename_i hfresh
          simp only [not_or, Bool.not_eq_true, Dict.contains_eq_false] at hamount hfresh
          exact Or.inr ⟨account, positionId, row, ⟨haccount, hfound, not_le.mp hamount.1,
            not_lt.mp hamount.2, hfresh.1, hfresh.2⟩, rfl⟩
  · exact Or.inl ⟨_, rfl⟩

theorem existingOrder_eq_none {orderId : String} {e : PaperError} :
    db.existingOrder orderId e = none ↔ db.orders.get? orderId = none := by
  simp [PaperDb.existingOrder]

/-- With a new order id the commit is its locked part. -/
theorem commitPaperEntry_new {args : EntryArgs} (h : db.orders.get? args.orderId = none) :
    commitPaperEntry args db = transaction (lockedEntry args) db := by
  simp only [commitPaperEntry, transaction, existingOrder_eq_none.mpr h]

theorem commitPaperExit_new {args : ExitArgs} (h : db.orders.get? args.orderId = none) :
    commitPaperExit args db = transaction (lockedExit args) db := by
  simp only [commitPaperExit, transaction, existingOrder_eq_none.mpr h]

theorem transaction_of_cases {α : Type} {body : Body α} {P : PaperDb → Prop} (hsame : P db)
    (hbody : (∃ e, (body db).1 = .error e) ∨ P (body db).2) : P (transaction body db).2 := by
  unfold transaction
  split
  · rename_i heq
    rcases hbody with ⟨e, he⟩ | hnew
    · rw [heq] at he
      cases he
    · rwa [heq] at hnew
  · exact hsame

/-- What holds of the rows before an entry and after a granted one holds after every call. -/
theorem commitPaperEntry_rule {P : PaperDb → Prop} (args : EntryArgs) (hsame : P db)
    (hentered : ∀ account, EntryCase db args account → P (db.entered account args)) :
    P (commitPaperEntry args db).2 := by
  refine transaction_of_cases hsame ?_
  split
  · exact Or.inr hsame
  · rcases lockedEntry_cases args db with herror | ⟨account, hcase, heq⟩
    · exact Or.inl herror
    · rw [heq]
      exact Or.inr (hentered account hcase)

theorem commitPaperExit_rule {P : PaperDb → Prop} (args : ExitArgs) (hsame : P db)
    (hexited : ∀ account id row, ExitCase db args account id row →
      P (db.exited account args id row)) :
    P (commitPaperExit args db).2 := by
  refine transaction_of_cases hsame ?_
  split
  · exact Or.inr hsame
  · rcases lockedExit_cases args db with herror | ⟨account, id, row, hcase, heq⟩
    · exact Or.inl herror
    · rw [heq]
      exact Or.inr (hexited account id row hcase)

/-- A granted cost has a new id. -/
theorem recordOperationalCost_new_rule {P : PaperDb → Prop} (args : CostArgs) (hsame : P db)
    (hcharged : ∀ account, db.account = some account →
      db.operationalCosts.get? args.costId = none → P (db.charged account args)) :
    P (recordOperationalCost args db).2 := by
  unfold recordOperationalCost
  split
  · exact hsame
  · split
    · exact hsame
    · refine transaction_of_cases hsame ?_
      unfold lockedCost
      split
      · exact Or.inl ⟨_, rfl⟩
      · rename_i account haccount
        split
        · exact Or.inl ⟨_, rfl⟩
        · split
          · split
            · exact Or.inl ⟨_, rfl⟩
            · exact Or.inr hsame
          · split
            · exact Or.inl ⟨_, rfl⟩
            · rename_i hnew
              rw [Bool.not_eq_true, Dict.contains_eq_false] at hnew
              exact Or.inr (hcharged account haccount hnew)

theorem recordOperationalCost_rule {P : PaperDb → Prop} (args : CostArgs) (hsame : P db)
    (hcharged : ∀ account, db.account = some account → P (db.charged account args)) :
    P (recordOperationalCost args db).2 :=
  recordOperationalCost_new_rule args hsame fun account haccount _ => hcharged account haccount

end Cases

end SniperBot.Paper
