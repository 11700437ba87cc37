import SniperBot.Domain
import SniperBot.Basis.DecimalContext
import SniperBot.Basis.JsonText
import SniperBot.Basis.Text
import Mathlib.Data.Prod.Lex

/-!
# The statistical stage

`evaluate_statistical_stage` (`acceptance.py`): from the closed trades, the equity marks and the
operational costs of a frozen cohort, the metrics of its out-of-sample part, a criterion for each
of twenty-one requirements, and a digest of the inputs. Amounts are `Decimal`s of the default
context, which keeps 28 digits.

The dates of a time zone come from its data, which is not part of the program; so do the texts of
a `datetime`.
-/

namespace SniperBot.Acceptance

open Basis

/-! ## Inputs -/

/-- A `datetime` with a time zone, as its instant, or without one. -/
inductive Datetime
  | aware (instant : Time)
  | naive (clock : Int)
  deriving DecidableEq, Repr

/-- What an evaluation raises. -/
inductive Failure
  | valueError (message : String)
  | invalidOperation
  | validationError
  | keyError
  deriving DecidableEq, Repr

/-- `if not condition: raise ValueError(message)` -/
def require (condition : Bool) (message : String) : Except Failure Unit :=
  if condition then .ok () else .error (.valueError message)

/-- `_as_utc` -/
def asUtc : Datetime → Except Failure Time
  | .aware instant => .ok instant
  | .naive _ => .error (.valueError "database timestamp must be timezone-aware")

/-- `re.fullmatch(r"[0-9a-f]{64}", text)` -/
def isSha256 (text : String) : Bool :=
  text.length = 64 && text.toList.all fun c => ('0' ≤ c && c ≤ '9') || ('a' ≤ c && c ≤ 'f')

@[ext]
structure OperationalCostEvidence where
  accountId : String
  category : String
  amountUsd : Decimal
  incurredAt : Time
  sourceReferenceSha256 : String
  named : accountId ≠ "" ∧ category ≠ "" ∧ category.length ≤ 64
  positive : 0 < amountUsd.value
  hashed : isSha256 sourceReferenceSha256 = true
  deriving DecidableEq

structure StatisticalProtocol where
  revision : String
  strategyVersionId : String
  configHash : String
  frozenAt : Time
  collectionStartedAt : Time
  oosStartedAt : Time
  collectionEndedAt : Time
  minimumNegativeLaunches : Int
  minimumOosTrades : Int
  maximumEquityMarkGapSeconds : Int
  dailyOperationalCostUsd : Decimal
  timeZone : String
  ordered : frozenAt < collectionStartedAt ∧ collectionStartedAt < oosStartedAt ∧
    oosStartedAt < collectionEndedAt
  bounded : 300 ≤ minimumNegativeLaunches ∧ 100 ≤ minimumOosTrades ∧
    1 ≤ maximumEquityMarkGapSeconds ∧ maximumEquityMarkGapSeconds ≤ 3600
  positive : 0 < dailyOperationalCostUsd.value

@[ext]
structure ClosedTrade where
  positionId : String
  entryTime : Datetime
  closedAt : Datetime
  pnlUsd : Decimal
  developerCluster : Option String
  clusterEvaluated : Bool
  deriving DecidableEq, Repr

@[ext]
structure EquityPoint where
  observedAt : Datetime
  equityUsd : Decimal
  sequenceId : String := ""
  deriving DecidableEq, Repr

structure StatisticalInputs where
  fixedRevisionStrategyCohort : Bool
  discoveredPoolCount : Int
  materializedPoolCount : Int
  missingMaterializedPoolCount : Int
  missingFinalPoolOutcomeCount : Int
  negativeLaunchCount : Int
  censoredPositionCount : Int
  recordedOperationalCostUsd : Decimal
  startingEquities : List Decimal
  closedTrades : List ClosedTrade
  equityPoints : List EquityPoint
  operationalCosts : List OperationalCostEvidence := []

/-- The code and the data that an evaluation uses and that are not its own. -/
structure Environment where
  /-- The date of an instant in a time zone, as a day number. -/
  localDay : String → Time → Int
  /-- `isoformat` of an instant in UTC -/
  isoformat : Time → String
  /-- An instant in the JSON dump of a model. -/
  modelDatetime : Time → String
  /-- `hashlib.sha256(data).hexdigest()` -/
  sha256 : ByteArray → String

/-! ## Arithmetic -/

/-- The digits of the default context. -/
abbrev precision : Nat := 28

def zero : Decimal := Decimal.ofNat 0

def plus : Decimal → Decimal → Decimal := Decimal.add precision

def minus : Decimal → Decimal → Decimal := Decimal.sub precision

def times : Decimal → Decimal → Decimal := Decimal.mul precision

def divided : Decimal → Decimal → Decimal := Decimal.div precision

/-- `max(a, b)`, which is `a` among equals. -/
def larger (a b : Decimal) : Decimal := if a.value < b.value then b else a

/-- `max(values, default=default)` -/
def largest (default : Decimal) : List Decimal → Decimal
  | [] => default
  | value :: values => values.foldl larger value

/-! ## Equity -/

/-- The items with their times in UTC. -/
def dated {α : Type} (time : α → Datetime) (items : List α) : Except Failure (List (Time × α)) :=
  items.mapM fun item => (asUtc (time item)).map (·, item)

def pointKey (point : Time × EquityPoint) : Time ×ₗ String := toLex (point.1, point.2.sequenceId)

/-- The marks by time and sequence id. -/
def sortedPoints (points : List EquityPoint) : Except Failure (List (Time × EquityPoint)) :=
  sortedBy pointKey <$> dated (·.observedAt) points

/-- One mark on the path: the peak and the deepest drawdown so far. -/
def drawdownStep (state : Decimal × Decimal) (point : Time × EquityPoint) : Decimal × Decimal :=
  let peak := larger state.1 point.2.equityUsd
  let drawdown :=
    if peak.value ≤ 0 then Decimal.ofNat 100
    else larger zero (times (divided (minus peak point.2.equityUsd) peak) (Decimal.ofNat 100))
  (peak, larger state.2 drawdown)

/-- Whether the marks follow one another without a gap from the start of the path. -/
def noGap (gap : Int) : Time → List (Time × EquityPoint) → Bool
  | _, [] => true
  | previous, point :: points => decide (point.1 - previous ≤ gap) && noGap gap point.1 points

/-- `_equity_drawdown` -/
def equityDrawdown (points : List EquityPoint) (protocol : StatisticalProtocol) :
    Except Failure (Bool × Decimal × Nat) := do
  let ordered ← sortedPoints points
  if ¬ (ordered.map pointKey).Nodup then return (false, Decimal.ofNat 100, 0)
  let baseline := ordered.filter fun point => point.1 ≤ protocol.oosStartedAt
  let observed := ordered.filter fun point =>
    protocol.oosStartedAt < point.1 ∧ point.1 ≤ protocol.collectionEndedAt
  match baseline.getLast?, observed.getLast? with
  | some first, some last =>
      let maxGap := seconds protocol.maximumEquityMarkGapSeconds
      let coverage := decide (protocol.oosStartedAt - first.1 ≤ maxGap) &&
        decide (last.1 ≥ protocol.collectionEndedAt - maxGap) && noGap maxGap first.1 observed
      return (coverage, (observed.foldl drawdownStep (first.2.equityUsd, zero)).2, observed.length)
  | _, _ => return (false, Decimal.ofNat 100, observed.length)

/-! ## Metrics -/

structure StatisticalMetrics where
  fixedRevisionStrategyCohort : Bool
  paperAccountCount : Int
  startingEquityUsd : Option Decimal
  discoveredPumpswapPoolCount : Int
  materializedPumpswapPoolCount : Int
  missingMaterializedPoolCount : Int
  missingFinalPoolOutcomeCount : Int
  negativeLaunchCount : Int
  closedTradeCount : Int
  inSampleTradeCount : Int
  oosTradeCount : Int
  censoredPositionCount : Int
  oosEquityMarkCount : Int
  oosEquityMarkCoverage : Bool
  oosOperationalCostUsd : Decimal
  recordedOperationalCostUsd : Decimal
  operationalCostsReconciled : Bool
  oosNetPnlAfterAllCostsUsd : Decimal
  oosGrossProfitAfterAllCostsUsd : Decimal
  oosGrossLossAfterAllCostsUsd : Decimal
  oosProfitFactor : String
  oosMaxDrawdownPct : Decimal
  oosExpectancyAfterAllCostsUsd : Decimal
  largestTradeProfitSharePct : Decimal
  netPnlWithoutBestDayUsd : Decimal
  netPnlWithoutBestDeveloperClusterUsd : Decimal
  missingDeveloperClusterTrades : Int
  deriving DecidableEq, Repr

/-- The fields that may not be negative. -/
def StatisticalMetrics.valid (m : StatisticalMetrics) : Bool :=
  [m.paperAccountCount, m.discoveredPumpswapPoolCount, m.materializedPumpswapPoolCount,
    m.missingMaterializedPoolCount, m.missingFinalPoolOutcomeCount, m.negativeLaunchCount,
    m.closedTradeCount, m.inSampleTradeCount, m.oosTradeCount, m.censoredPositionCount,
    m.oosEquityMarkCount, m.missingDeveloperClusterTrades].all (fun count => decide (0 ≤ count)) &&
  [m.oosOperationalCostUsd, m.recordedOperationalCostUsd, m.oosGrossProfitAfterAllCostsUsd,
    m.oosGrossLossAfterAllCostsUsd, m.oosMaxDrawdownPct, m.largestTradeProfitSharePct].all
      fun amount => decide (0 ≤ amount.value)

/-! ## Trades -/

/-- A trade with its times in UTC. -/
structure DatedTrade where
  entryTime : Time
  closedAt : Time
  trade : ClosedTrade
  deriving DecidableEq, Repr

def tradeKey (trade : Time × ClosedTrade) : Time ×ₗ String := toLex (trade.1, trade.2.positionId)

/-- The trades by entry time and position. -/
def sortedTrades (trades : List ClosedTrade) : Except Failure (List (Time × ClosedTrade)) :=
  sortedBy tradeKey <$> dated (·.entryTime) trades

/-- The body of the loop that checks the times of the trades. -/
def checkTrade (protocol : StatisticalProtocol) (trade : ClosedTrade) :
    Except Failure DatedTrade := do
  let entryTime ← asUtc trade.entryTime
  let closedAt ← asUtc trade.closedAt
  require (protocol.collectionStartedAt ≤ entryTime ∧ entryTime ≤ protocol.collectionEndedAt)
    "trade entry falls outside the frozen collection interval"
  require (entryTime ≤ closedAt ∧ closedAt ≤ protocol.collectionEndedAt)
    "trade closure falls outside the frozen collection interval"
  return ⟨entryTime, closedAt, trade⟩

/-- The sorted trades with their times checked. -/
def checkedTrades (trades : List ClosedTrade) (protocol : StatisticalProtocol) :
    Except Failure (List DatedTrade) := do
  (← sortedTrades trades).mapM fun trade => checkTrade protocol trade.2

/-- The cluster that a trade counts for. -/
def clusterOf (trade : ClosedTrade) : Option String :=
  if trade.clusterEvaluated then trade.developerCluster.filter fun name => Text.strip name ≠ ""
  else none

/-- `totals[key] += amount` -/
def addTo {κ : Type} [DecidableEq κ] (totals : Dict κ Decimal) (key : κ) (amount : Decimal) :
    Dict κ Decimal :=
  totals.set key (plus ((totals.get? key).getD zero) amount)

/-- What remains of the net PnL without the best of at least two groups. -/
def withoutBest {κ : Type} [DecidableEq κ] (netPnl : Decimal) (totals : Dict κ Decimal) : Decimal :=
  if 2 ≤ totals.entries.length then minus netPnl (largest zero totals.values) else zero

/-! ## Costs -/

/-- The local days of the out-of-sample period. -/
def oosDays (env : Environment) (protocol : StatisticalProtocol) : Int :=
  env.localDay protocol.timeZone protocol.collectionEndedAt -
    env.localDay protocol.timeZone protocol.oosStartedAt + 1

def plannedOperationalCost (env : Environment) (protocol : StatisticalProtocol) : Decimal :=
  times protocol.dailyOperationalCostUsd (Decimal.ofInt (oosDays env protocol))

/-- The operational costs by their source. -/
def sortedCosts (costs : List OperationalCostEvidence) : List OperationalCostEvidence :=
  sortedBy (·.sourceReferenceSha256) costs

/-- The total of the receipts, in millionths. -/
def receiptTotal (costs : List OperationalCostEvidence) : Option Decimal :=
  (Decimal.sum precision zero (costs.map (·.amountUsd))).quantize precision (-6)

/-- A cost was incurred in the out-of-sample period. -/
def inPeriod (protocol : StatisticalProtocol) (cost : OperationalCostEvidence) : Bool :=
  protocol.oosStartedAt ≤ cost.incurredAt && cost.incurredAt ≤ protocol.collectionEndedAt

def costsReconciled (protocol : StatisticalProtocol) (costs : List OperationalCostEvidence)
    (total recorded planned : Decimal) : Bool :=
  !costs.isEmpty && decide (costs.map (·.sourceReferenceSha256)).Nodup &&
    costs.all (inPeriod protocol) && decide (total.value = recorded.value) &&
    decide (planned.value ≤ recorded.value)

/-! ## Economic results -/

/-- The economic PnL of each trade, after its share of the operational cost. -/
def economicPnls (oos : List DatedTrade) (operationalCost : Decimal) : List Decimal :=
  let allocatedCost :=
    if oos.isEmpty then zero else divided operationalCost (Decimal.ofNat oos.length)
  oos.map fun trade => minus trade.trade.pnlUsd allocatedCost

def netPnl (oos : List DatedTrade) (operationalCost : Decimal) (pnls : List Decimal) : Decimal :=
  Decimal.sum precision (if oos.isEmpty then Decimal.neg precision operationalCost else zero) pnls

def grossProfit (pnls : List Decimal) : Decimal :=
  Decimal.sum precision zero (pnls.filter fun pnl => 0 < pnl.value)

def grossLoss (oos : List DatedTrade) (operationalCost : Decimal) (pnls : List Decimal) : Decimal :=
  if oos.isEmpty ∧ 0 < operationalCost.value then operationalCost
  else Decimal.neg precision (Decimal.sum precision zero (pnls.filter fun pnl => pnl.value < 0))

def profitFactorText (profit loss : Decimal) : String :=
  if loss.value = 0 ∧ 0 < profit.value then "Infinity"
  else Decimal.text (if loss.value = 0 then zero else divided profit loss)

def expectancy (oos : List DatedTrade) (net : Decimal) : Decimal :=
  if oos.isEmpty then zero else divided net (Decimal.ofNat oos.length)

def largestShare (pnls : List Decimal) (profit : Decimal) : Decimal :=
  if profit.value ≤ 0 then Decimal.ofNat 100
  else times (divided (largest zero (pnls.filter fun pnl => 0 < pnl.value)) profit)
    (Decimal.ofNat 100)

/-- The PnL of each local day, and of each cluster. -/
def pnlByDay (env : Environment) (protocol : StatisticalProtocol)
    (results : List (DatedTrade × Decimal)) : Dict Int Decimal :=
  results.foldl (fun totals (trade, pnl) =>
    addTo totals (env.localDay protocol.timeZone trade.closedAt) pnl) Dict.empty

def pnlByCluster (results : List (DatedTrade × Decimal)) : Dict String Decimal :=
  results.foldl (fun totals (trade, pnl) =>
    match clusterOf trade.trade with
    | some name => addTo totals name pnl
    | none => totals) Dict.empty

/-- The metrics of checked trades and of the marks. -/
def metricsOf (env : Environment) (inputs : StatisticalInputs) (protocol : StatisticalProtocol)
    (trades : List DatedTrade) (reconciled : Bool) (equity : Bool × Decimal × Nat) :
    StatisticalMetrics :=
  let inSample := trades.filter fun trade => trade.entryTime < protocol.oosStartedAt
  let oos := trades.filter fun trade => trade.entryTime ≥ protocol.oosStartedAt
  let operationalCost :=
    larger (plannedOperationalCost env protocol) inputs.recordedOperationalCostUsd
  let pnls := economicPnls oos operationalCost
  let net := netPnl oos operationalCost pnls
  let profit := grossProfit pnls
  let loss := grossLoss oos operationalCost pnls
  let results := oos.zip pnls
  { fixedRevisionStrategyCohort := inputs.fixedRevisionStrategyCohort
    paperAccountCount := inputs.startingEquities.length
    startingEquityUsd :=
      if inputs.startingEquities.length = 1 then inputs.startingEquities.head? else none
    discoveredPumpswapPoolCount := inputs.discoveredPoolCount
    materializedPumpswapPoolCount := inputs.materializedPoolCount
    missingMaterializedPoolCount := inputs.missingMaterializedPoolCount
    missingFinalPoolOutcomeCount := inputs.missingFinalPoolOutcomeCount
    negativeLaunchCount := inputs.negativeLaunchCount
    closedTradeCount := trades.length
    inSampleTradeCount := inSample.length
    oosTradeCount := oos.length
    censoredPositionCount := inputs.censoredPositionCount
    oosEquityMarkCount := equity.2.2
    oosEquityMarkCoverage := equity.1
    oosOperationalCostUsd := operationalCost
    recordedOperationalCostUsd := inputs.recordedOperationalCostUsd
    operationalCostsReconciled := reconciled
    oosNetPnlAfterAllCostsUsd := net
    oosGrossProfitAfterAllCostsUsd := profit
    oosGrossLossAfterAllCostsUsd := loss
    oosProfitFactor := profitFactorText profit loss
    oosMaxDrawdownPct := equity.2.1
    oosExpectancyAfterAllCostsUsd := expectancy oos net
    largestTradeProfitSharePct := largestShare pnls profit
    netPnlWithoutBestDayUsd := withoutBest net (pnlByDay env protocol results)
    netPnlWithoutBestDeveloperClusterUsd := withoutBest net (pnlByCluster results)
    missingDeveloperClusterTrades := oos.countP fun trade => (clusterOf trade.trade).isNone }

/-! ## Criteria -/

inductive ProfitFactor
  | infinite
  | finite (value : Decimal)

/-- `_profit_factor_value` -/
def profitFactorValue (text : String) : Except Failure ProfitFactor :=
  if text = "Infinity" then .ok .infinite
  else
    match Decimal.read text with
    | some value => .ok (.finite value)
    | none => .error (.valueError "invalid profit factor")

def ProfitFactor.atLeast (bound : ℚ) : ProfitFactor → Bool
  | .infinite => true
  | .finite value => bound ≤ value.value

/-- `_statistical_pass_map` -/
def statisticalPassMap (m : StatisticalMetrics) (protocol : StatisticalProtocol) :
    Except Failure (List (String × Bool)) := do
  let factor ← profitFactorValue m.oosProfitFactor
  return [
    ("fixed_revision_strategy_cohort", m.fixedRevisionStrategyCohort),
    ("single_paper_account", m.paperAccountCount = 1),
    ("starting_equity_500", m.startingEquityUsd.any fun equity => equity.value = 500),
    ("pool_retention_complete", m.missingMaterializedPoolCount = 0),
    ("all_discovered_pools_evaluated", m.missingFinalPoolOutcomeCount = 0),
    ("minimum_new_pools", m.discoveredPumpswapPoolCount ≥ 3000),
    ("minimum_closed_trades", m.closedTradeCount ≥ 300),
    ("minimum_negative_launches", m.negativeLaunchCount ≥ protocol.minimumNegativeLaunches),
    ("minimum_oos_trades", m.oosTradeCount ≥ protocol.minimumOosTrades),
    ("no_censored_positions", m.censoredPositionCount = 0),
    ("separate_oos_period", m.inSampleTradeCount > 0 ∧ m.oosTradeCount > 0),
    ("equity_mark_coverage", m.oosEquityMarkCoverage),
    ("operational_costs_reconciled", m.operationalCostsReconciled),
    ("oos_net_pnl_after_all_costs_positive", m.oosNetPnlAfterAllCostsUsd.value > 0),
    ("profit_factor", factor.atLeast (115 / 100)),
    ("max_drawdown", m.oosMaxDrawdownPct.value ≤ 10),
    ("positive_expectancy", m.oosExpectancyAfterAllCostsUsd.value > 0),
    ("single_trade_concentration", m.largestTradeProfitSharePct.value ≤ 20),
    ("day_independence", m.netPnlWithoutBestDayUsd.value > 0),
    ("cluster_attribution_complete", m.missingDeveloperClusterTrades = 0),
    ("developer_cluster_independence", m.netPnlWithoutBestDeveloperClusterUsd.value > 0)]

/-- The value that a criterion displays. -/
inductive Actual
  | none
  | bool (value : Bool)
  | int (value : Int)
  | text (value : String)
  deriving DecidableEq, Repr

/-- `_criterion_details`: the actual value of each criterion and the expected one. -/
def criterionDetails (m : StatisticalMetrics) (protocol : StatisticalProtocol) :
    List (String × Actual × String) := [
  ("fixed_revision_strategy_cohort", .bool m.fixedRevisionStrategyCohort,
    "strategy/config/revision match the frozen protocol"),
  ("single_paper_account", .int m.paperAccountCount, "exactly 1"),
  ("starting_equity_500",
    match m.startingEquityUsd with
    | some equity => .text equity.text
    | none => .none, "500 USDC"),
  ("pool_retention_complete", .int m.missingMaterializedPoolCount,
    "0 discovered PumpSwap pools missing from pools"),
  ("all_discovered_pools_evaluated", .int m.missingFinalPoolOutcomeCount,
    "0 discovered PumpSwap pools without a terminal candidate outcome"),
  ("minimum_new_pools", .int m.discoveredPumpswapPoolCount,
    ">= 3000 distinct discovered PumpSwap pools"),
  ("minimum_closed_trades", .int m.closedTradeCount, ">= 300"),
  ("minimum_negative_launches", .int m.negativeLaunchCount,
    ">= " ++ toString protocol.minimumNegativeLaunches),
  ("minimum_oos_trades", .int m.oosTradeCount, ">= " ++ toString protocol.minimumOosTrades),
  ("no_censored_positions", .int m.censoredPositionCount,
    "0 cohort positions unresolved at collection cutoff"),
  ("separate_oos_period", .bool (m.inSampleTradeCount > 0 ∧ m.oosTradeCount > 0),
    "both entry-time IS and OOS trades"),
  ("equity_mark_coverage", .bool m.oosEquityMarkCoverage,
    "full OOS executable-equity path with gaps <= " ++
      toString protocol.maximumEquityMarkGapSeconds ++ "s"),
  ("operational_costs_reconciled", .bool m.operationalCostsReconciled,
    "ledger operational costs cover the frozen cost floor"),
  ("oos_net_pnl_after_all_costs_positive", .text m.oosNetPnlAfterAllCostsUsd.text,
    "> 0 USDC after simulated and operational costs"),
  ("profit_factor", .text m.oosProfitFactor, ">= 1.15 after allocated operational costs"),
  ("max_drawdown", .text m.oosMaxDrawdownPct.text, "<= 10% from durable executable-equity marks"),
  ("positive_expectancy", .text m.oosExpectancyAfterAllCostsUsd.text, "> 0 USDC after all costs"),
  ("single_trade_concentration", .text m.largestTradeProfitSharePct.text,
    "<= 20% of gross economic profit"),
  ("day_independence", .text m.netPnlWithoutBestDayUsd.text,
    "economic net PnL remains > 0 without the best day"),
  ("cluster_attribution_complete", .int m.missingDeveloperClusterTrades,
    "0 trades without a known funding cluster"),
  ("developer_cluster_independence", .text m.netPnlWithoutBestDeveloperClusterUsd.text,
    "economic net PnL remains > 0 without the best cluster")]

/-- `REQUIRED_STATISTICAL_CRITERIA` -/
def requiredStatisticalCriteria : List String := [
  "fixed_revision_strategy_cohort", "single_paper_account", "starting_equity_500",
  "pool_retention_complete", "all_discovered_pools_evaluated", "minimum_new_pools",
  "minimum_closed_trades", "minimum_negative_launches", "minimum_oos_trades",
  "no_censored_positions", "separate_oos_period", "equity_mark_coverage",
  "operational_costs_reconciled", "oos_net_pnl_after_all_costs_positive", "profit_factor",
  "max_drawdown", "positive_expectancy", "single_trade_concentration", "day_independence",
  "cluster_attribution_complete", "developer_cluster_independence"]

structure CriterionResult where
  name : String
  passed : Bool
  actual : Actual
  expected : String
  deriving DecidableEq, Repr

/-- The result of one criterion; its name is a key of both tables. -/
def criterionResult (passMap : List (String × Bool)) (details : List (String × Actual × String))
    (name : String) : Except Failure CriterionResult :=
  match Dict.find passMap name, Dict.find details name with
  | some passed, some (actual, expected) => .ok ⟨name, passed, actual, expected⟩
  | _, _ => .error .keyError

/-! ## The digest of the inputs -/

/-- `cost.model_dump(mode="json")` -/
def costJson (env : Environment) (cost : OperationalCostEvidence) : Json := .object [
  ("account_id", .text cost.accountId),
  ("category", .text cost.category),
  ("amount_usd", .text cost.amountUsd.text),
  ("incurred_at", .text (env.modelDatetime cost.incurredAt)),
  ("source_reference_sha256", .text cost.sourceReferenceSha256)]

/-- The entry of a trade, whose times are given in UTC. -/
def tradeObject (env : Environment) (entryTime closedAt : Time) (trade : ClosedTrade) : Json :=
  .object [
    ("position_id", .text trade.positionId),
    ("entry_time", .text (env.isoformat entryTime)),
    ("closed_at", .text (env.isoformat closedAt)),
    ("pnl_usd", .text trade.pnlUsd.text),
    ("developer_cluster",
      match trade.developerCluster with
      | some name => .text name
      | none => .null),
    ("cluster_evaluated", .bool trade.clusterEvaluated)]

def tradeJson (env : Environment) (trade : ClosedTrade) : Except Failure Json := do
  let entryTime ← asUtc trade.entryTime
  let closedAt ← asUtc trade.closedAt
  return tradeObject env entryTime closedAt trade

def pointJson (env : Environment) (point : Time × EquityPoint) : Json := .object [
  ("observed_at", .text (env.isoformat point.1)),
  ("equity_usd", .text point.2.equityUsd.text),
  ("sequence_id", .text point.2.sequenceId)]

/-- The payload of `_statistical_input_digest`. -/
def digestPayload (env : Environment) (inputs : StatisticalInputs) : Except Failure Json := do
  let trades ← (sortedBy (·.positionId) inputs.closedTrades).mapM (tradeJson env)
  let points ← sortedPoints inputs.equityPoints
  return .object [
    ("fixed_revision_strategy_cohort", .bool inputs.fixedRevisionStrategyCohort),
    ("discovered_pool_count", .int inputs.discoveredPoolCount),
    ("materialized_pool_count", .int inputs.materializedPoolCount),
    ("missing_materialized_pool_count", .int inputs.missingMaterializedPoolCount),
    ("missing_final_pool_outcome_count", .int inputs.missingFinalPoolOutcomeCount),
    ("negative_launch_count", .int inputs.negativeLaunchCount),
    ("censored_position_count", .int inputs.censoredPositionCount),
    ("recorded_operational_cost_usd", .text inputs.recordedOperationalCostUsd.text),
    ("operational_costs", .list ((sortedCosts inputs.operationalCosts).map (costJson env))),
    ("starting_equities", .list (inputs.startingEquities.map fun equity => .text equity.text)),
    ("closed_trades", .list trades),
    ("equity_points", .list (points.map (pointJson env)))]

/-- `_statistical_input_digest` -/
def statisticalInputDigest (env : Environment) (inputs : StatisticalInputs) :
    Except Failure String := do
  let payload ← digestPayload env inputs
  return env.sha256 payload.sortKeys.dumps.toUTF8

/-! ## The report -/

structure StatisticalReport where
  revision : String
  generatedAt : Time
  protocolSha256 : String
  inputSnapshotSha256 : String
  strategyVersionId : String
  configHash : String
  collectionStartedAt : Time
  oosStartedAt : Time
  collectionEndedAt : Time
  operationalCosts : List OperationalCostEvidence
  metrics : StatisticalMetrics
  criteria : List CriterionResult
  passed : Bool
  deriving DecidableEq

/-- The names of the criteria are the required ones, each once. -/
def criteriaComplete (criteria : List CriterionResult) : Bool :=
  decide (criteria.map (·.name)).Nodup &&
    (criteria.map (·.name)).all (· ∈ requiredStatisticalCriteria) &&
    requiredStatisticalCriteria.all (· ∈ criteria.map (·.name))

/-- The validators of a report. -/
def StatisticalReport.valid (report : StatisticalReport) : Bool :=
  criteriaComplete report.criteria && decide (report.collectionEndedAt ≤ report.generatedAt) &&
    decide (report.operationalCosts.map (·.sourceReferenceSha256)).Nodup &&
    report.operationalCosts.all fun cost =>
      decide (report.oosStartedAt ≤ cost.incurredAt ∧ cost.incurredAt ≤ report.collectionEndedAt)

/-- A model that its validators accept. -/
def validated {α : Type} (valid : α → Bool) (model : α) : Except Failure α :=
  if valid model then .ok model else .error .validationError

/-- `evaluate_statistical_stage` at the clock `generatedAt` -/
def evaluateStatisticalStage (env : Environment) (inputs : StatisticalInputs)
    (protocol : StatisticalProtocol) (protocolSha256 : String) (generatedAt : Time) :
    Except Failure StatisticalReport := do
  require (isSha256 protocolSha256) "protocol_sha256 must be lowercase hexadecimal"
  require (protocol.collectionEndedAt ≤ generatedAt) "statistical collection has not ended"
  let trades ← checkedTrades inputs.closedTrades protocol
  let costs := sortedCosts inputs.operationalCosts
  let total ← (receiptTotal costs).elim (.error .invalidOperation) .ok
  let reconciled := costsReconciled protocol costs total inputs.recordedOperationalCostUsd
    (plannedOperationalCost env protocol)
  let equity ← equityDrawdown inputs.equityPoints protocol
  let metrics ← validated StatisticalMetrics.valid
    (metricsOf env inputs protocol trades reconciled equity)
  let passMap ← statisticalPassMap metrics protocol
  let criteria ← (sortedBy id requiredStatisticalCriteria).mapM
    (criterionResult passMap (criterionDetails metrics protocol))
  let digest ← statisticalInputDigest env inputs
  validated StatisticalReport.valid
    { revision := protocol.revision
      generatedAt := generatedAt
      protocolSha256 := protocolSha256
      inputSnapshotSha256 := digest
      strategyVersionId := protocol.strategyVersionId
      configHash := protocol.configHash
      collectionStartedAt := protocol.collectionStartedAt
      oosStartedAt := protocol.oosStartedAt
      collectionEndedAt := protocol.collectionEndedAt
      operationalCosts := costs
      metrics := metrics
      criteria := criteria
      passed := passMap.all (·.2) }

/-- Days of equal length, numbers as texts of times, and the bytes themselves as their hash. -/
def sampleEnvironment : Environment where
  localDay _ t := t / 86400000000
  isoformat t := (Json.int t).dumps
  modelDatetime t := (Json.int t).dumps
  sha256 bytes := (Json.list (bytes.data.toList.map fun b => .int b.toNat)).dumps

theorem tenCents_pos : (0 : ℚ) < (⟨false, 10, -2⟩ : Decimal).value := by decide +kernel

/-- A day of collection in the sample and a day out of it. -/
def sampleProtocol : StatisticalProtocol where
  revision := "0123456789012345678901234567890123456789"
  strategyVersionId := "strategy"
  configHash := "0123456789abcdef0123456789abcdef0123456789abcdef0123456789abcdef"
  frozenAt := 0
  collectionStartedAt := seconds 86400
  oosStartedAt := seconds 172800
  collectionEndedAt := seconds 259199
  minimumNegativeLaunches := 300
  minimumOosTrades := 100
  maximumEquityMarkGapSeconds := 3600
  dailyOperationalCostUsd := ⟨false, 10, -2⟩
  timeZone := "UTC"
  ordered := by decide
  bounded := by decide
  positive := tenCents_pos

def sampleTrade (positionId : String) (entry : Int) (pnl : Decimal) : ClosedTrade where
  positionId := positionId
  entryTime := .aware (seconds entry)
  closedAt := .aware (seconds (entry + 60))
  pnlUsd := pnl
  developerCluster := some "cluster"
  clusterEvaluated := true

def sampleCost (amount : Decimal) (h : 0 < amount.value) : OperationalCostEvidence where
  accountId := "paper"
  category := "server"
  amountUsd := amount
  incurredAt := seconds 172800
  sourceReferenceSha256 := "0123456789abcdef0123456789abcdef0123456789abcdef0123456789abcdef"
  named := by decide
  positive := h
  hashed := by decide +kernel

def sampleInputs (trades : List ClosedTrade) (costs : List OperationalCostEvidence)
    (recorded : Decimal) : StatisticalInputs where
  fixedRevisionStrategyCohort := true
  discoveredPoolCount := 1
  materializedPoolCount := 1
  missingMaterializedPoolCount := 0
  missingFinalPoolOutcomeCount := 0
  negativeLaunchCount := 0
  censoredPositionCount := 0
  recordedOperationalCostUsd := recorded
  startingEquities := [Decimal.ofNat 500]
  closedTrades := trades
  equityPoints := [⟨.aware (seconds 172800), Decimal.ofNat 500, "first"⟩,
    ⟨.aware (seconds 176400), Decimal.ofNat 501, "second"⟩]
  operationalCosts := costs

def sampleSha256 : String := "fedcba9876543210fedcba9876543210fedcba9876543210fedcba9876543210"

/-! ## What a report says -/

section Report

variable {α β : Type} {env : Environment} {inputs : StatisticalInputs}
  {protocol : StatisticalProtocol} {protocolSha256 : String} {generatedAt : Time}
  {report : StatisticalReport}

theorem exists_of_bind_eq_ok {x : Except Failure α} {f : α → Except Failure β} {b : β}
    (h : (x >>= f) = .ok b) : ∃ a, x = .ok a ∧ f a = .ok b := by
  cases x with
  | error e => cases h
  | ok a => exact ⟨a, rfl, h⟩

theorem validated_eq_ok {valid : α → Bool} {model result : α}
    (h : validated valid model = .ok result) : result = model ∧ valid model = true := by
  rw [validated] at h
  split at h
  · next hvalid => exact ⟨(Except.ok.inj h).symm, hvalid⟩
  · cases h

/-- The steps of an evaluation that returns a report. -/
theorem evaluate_eq_ok
    (h : evaluateStatisticalStage env inputs protocol protocolSha256 generatedAt = .ok report) :
    ∃ trades total equity passMap criteria,
      checkedTrades inputs.closedTrades protocol = .ok trades ∧
      receiptTotal (sortedCosts inputs.operationalCosts) = some total ∧
      equityDrawdown inputs.equityPoints protocol = .ok equity ∧
      report.metrics = metricsOf env inputs protocol trades
        (costsReconciled protocol (sortedCosts inputs.operationalCosts) total
          inputs.recordedOperationalCostUsd (plannedOperationalCost env protocol)) equity ∧
      report.metrics.valid = true ∧
      statisticalPassMap report.metrics protocol = .ok passMap ∧
      (sortedBy id requiredStatisticalCriteria).mapM
        (criterionResult passMap (criterionDetails report.metrics protocol)) = .ok criteria ∧
      report.criteria = criteria ∧
      statisticalInputDigest env inputs = .ok report.inputSnapshotSha256 ∧
      report.operationalCosts = sortedCosts inputs.operationalCosts ∧
      report.oosStartedAt = protocol.oosStartedAt ∧
      report.collectionEndedAt = protocol.collectionEndedAt ∧ report.valid = true := by
  obtain ⟨_, -, h⟩ := exists_of_bind_eq_ok h
  obtain ⟨_, -, h⟩ := exists_of_bind_eq_ok h
  obtain ⟨trades, htrades, h⟩ := exists_of_bind_eq_ok h
  obtain ⟨total, htotal, h⟩ := exists_of_bind_eq_ok h
  obtain ⟨equity, hequity, h⟩ := exists_of_bind_eq_ok h
  obtain ⟨metrics, hmetrics, h⟩ := exists_of_bind_eq_ok h
  obtain ⟨rfl, hvalid⟩ := validated_eq_ok hmetrics
  obtain ⟨passMap, hpass, h⟩ := exists_of_bind_eq_ok h
  obtain ⟨criteria, hcriteria, h⟩ := exists_of_bind_eq_ok h
  obtain ⟨digest, hdigest, h⟩ := exists_of_bind_eq_ok h
  obtain ⟨rfl, hreport⟩ := validated_eq_ok h
  have htotal' : receiptTotal (sortedCosts inputs.operationalCosts) = some total := by
    cases hsum : receiptTotal (sortedCosts inputs.operationalCosts) with
    | none =>
        rw [hsum] at htotal
        cases htotal
    | some other =>
        rw [hsum] at htotal
        exact congrArg some (Except.ok.inj htotal)
  exact ⟨trades, total, equity, passMap, criteria, htrades, htotal', hequity, rfl, hvalid, hpass,
    hcriteria, rfl, hdigest, rfl, rfl, rfl, hreport⟩

end Report

end SniperBot.Acceptance
