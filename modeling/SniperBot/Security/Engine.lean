import SniperBot.Domain
import Mathlib.Data.List.Dedup
import Mathlib.Algebra.Order.Ring.Rat

/-!
# The security engine

`SecurityEngine.evaluate` of `security.py`: every check appends its reason, the reasons are
deduplicated in order, and the result is a hard reject exactly when a reason is left. All
thresholds are parameters of the engine.
-/

namespace SniperBot.Security

inductive RejectReason
  | invalidTokenProgram | mintAuthorityActive | freezeAuthorityActive | token2022
  | invalidSupply | supplyChanged | invalidDecimals | unsupportedQuoteMint
  | lowQuoteLiquidity | noBuyRoute | noSellRoute | roundTripTooExpensive
  | highBuyPriceImpact | highSellPriceImpact | insufficientExternalSellers
  | highHolderConcentration | devClusterTooLarge | relatedClusterTooLarge
  | devHoldingTooLarge | unknownOwnerSupply | holderDataUnavailable | holderDataStale
  | devSold | poolTooOld | poolTooNew | liquidityDeclining | staleData | staleQuote
  | unknownProtocolLayout | apiUnavailable | previousRugs | washTradingPattern
  | overextendedPrice | scoreTooLow | entryWindowExpired | dailyRiskLimit
  | maxOpenPositions | positionTooSmallAfterCosts | riskManagerBlocked
  deriving DecidableEq, Repr

def splTokenProgramId : String := "TokenkegQfeZyiNwAJbNbGKPFXCWuBvf9Ss623VQ5DA"

def token2022ProgramId : String := "TokenzQdBNbLqP5VEhdkAS6EPFLC1PHnBqCXEpPxuEb"

def wsolMint : String := "So11111111111111111111111111111111111111112"

def usdcMint : String := "EPjFWdd5AufqSSqeM2qN1xzybapC8G4wEGGkZwyTDt1v"

def supportedQuoteMints : List String := [wsolMint, usdcMint]

structure MintInfo where
  tokenProgram : String
  decimals : Int
  totalSupplyRaw : ℚ
  mintAuthority : Option String := none
  freezeAuthority : Option String := none
  supplyChanged : Bool := false

structure HolderMetrics where
  largestHolderPct : ℚ := 0
  top5HoldersPct : ℚ := 0
  top10HoldersPct : ℚ := 0
  devHoldingPct : ℚ := 0
  devClusterHoldingPct : ℚ := 0
  earlyBuyersHoldingPct : ℚ := 0
  relatedClusterHoldingPct : ℚ := 0
  unknownOwnerSupplyPct : ℚ := 0
  holderCount : Nat := 0

structure ExecutionChecks where
  buyRouteAvailable : Bool
  sellRouteAvailable : Bool
  roundTripLossPct : ℚ
  buyPriceImpactPct : ℚ
  sellPriceImpactPct : ℚ
  quoteObservedAt : Time

structure SecurityContext where
  mint : MintInfo
  holders : Option HolderMetrics
  holdersObservedAt : Option Time
  execution : ExecutionChecks
  quoteMint : String
  quoteLiquidityUsd : ℚ
  liquidityChange30s : ℚ
  poolAgeSeconds : ℚ
  externalSuccessfulSellers : Int
  streamObservedAt : Time
  devSold : Bool := false
  previousRugs : Int := 0
  protocolLayoutKnown : Bool := true
  criticalApiAvailable : Bool := true
  washTradingPattern : Bool := false
  returnSincePoolCreation : ℚ := 0

structure SecurityResult where
  checkedAt : Time
  hardReject : Bool
  rejectReasons : List RejectReason
  holderMetrics : Option HolderMetrics

/-- The thresholds of one engine, with the defaults of its constructor. -/
structure SecurityEngine where
  minimumQuoteLiquidityUsd : ℚ := 40000
  minimumPoolAgeSeconds : ℚ := 45
  maximumPoolAgeSeconds : ℚ := 180
  maximumRoundTripLossPct : ℚ := 8 / 100
  maximumBuyPriceImpactPct : ℚ := 25 / 1000
  maximumSellPriceImpactPct : ℚ := 35 / 1000
  minimumExternalSellers : Int := 5
  maximumLargestHolderPct : ℚ := 7 / 100
  maximumTop5Pct : ℚ := 22 / 100
  maximumTop10Pct : ℚ := 30 / 100
  maximumDevHoldingPct : ℚ := 2 / 100
  maximumDevClusterPct : ℚ := 5 / 100
  maximumRelatedClusterPct : ℚ := 15 / 100
  maximumUnknownSupplyPct : ℚ := 5 / 100
  maximumLiquidityDropPct : ℚ := 3 / 100
  maximumReturnSinceCreation : ℚ := 250 / 100
  maximumStreamAgeSeconds : ℚ := 3
  maximumQuoteAgeSeconds : ℚ := 15 / 10

/-- `_age`, for timezone-aware arguments. -/
def age (now observedAt : Time) : ℚ := max 0 (totalSeconds (now - observedAt))

/-- One check: its reason when the condition holds. -/
def flag (condition : Bool) (reason : RejectReason) : List RejectReason :=
  if condition then [reason] else []

def tokenProgramReasons (mint : MintInfo) : List RejectReason :=
  if mint.tokenProgram = token2022ProgramId then [.token2022]
  else flag (mint.tokenProgram ≠ splTokenProgramId) .invalidTokenProgram

def holderReasons (engine : SecurityEngine) (context : SecurityContext) (now : Time) :
    List RejectReason :=
  match context.holders with
  | none => [.holderDataUnavailable]
  | some holders =>
      flag (context.holdersObservedAt.all fun at' => age now at' > 15) .holderDataStale
      ++ flag (holders.largestHolderPct > engine.maximumLargestHolderPct
          || holders.top5HoldersPct > engine.maximumTop5Pct
          || holders.top10HoldersPct > engine.maximumTop10Pct) .highHolderConcentration
      ++ flag (holders.devHoldingPct > engine.maximumDevHoldingPct) .devHoldingTooLarge
      ++ flag (holders.devClusterHoldingPct > engine.maximumDevClusterPct) .devClusterTooLarge
      ++ flag (holders.relatedClusterHoldingPct > engine.maximumRelatedClusterPct)
          .relatedClusterTooLarge
      ++ flag (holders.unknownOwnerSupplyPct > engine.maximumUnknownSupplyPct)
          .unknownOwnerSupply

/-- The list `reasons` of `SecurityEngine.evaluate`, in the order of its checks. -/
def reasons (engine : SecurityEngine) (context : SecurityContext) (now : Time) :
    List RejectReason :=
  let mint := context.mint
  let execution := context.execution
  tokenProgramReasons mint
  ++ flag mint.mintAuthority.isSome .mintAuthorityActive
  ++ flag mint.freezeAuthority.isSome .freezeAuthorityActive
  ++ flag (mint.totalSupplyRaw ≤ 0) .invalidSupply
  ++ flag mint.supplyChanged .supplyChanged
  ++ flag (mint.decimals < 0 || mint.decimals > 18) .invalidDecimals
  ++ flag (context.quoteMint ∉ supportedQuoteMints) .unsupportedQuoteMint
  ++ flag (context.quoteLiquidityUsd < engine.minimumQuoteLiquidityUsd) .lowQuoteLiquidity
  ++ flag (!execution.buyRouteAvailable) .noBuyRoute
  ++ flag (!execution.sellRouteAvailable) .noSellRoute
  ++ flag (execution.roundTripLossPct > engine.maximumRoundTripLossPct) .roundTripTooExpensive
  ++ flag (execution.buyPriceImpactPct > engine.maximumBuyPriceImpactPct) .highBuyPriceImpact
  ++ flag (execution.sellPriceImpactPct > engine.maximumSellPriceImpactPct)
      .highSellPriceImpact
  ++ flag (context.externalSuccessfulSellers < engine.minimumExternalSellers)
      .insufficientExternalSellers
  ++ holderReasons engine context now
  ++ flag context.devSold .devSold
  ++ flag (context.poolAgeSeconds < engine.minimumPoolAgeSeconds) .poolTooNew
  ++ flag (context.poolAgeSeconds > engine.maximumPoolAgeSeconds) .poolTooOld
  ++ flag (context.liquidityChange30s < -engine.maximumLiquidityDropPct) .liquidityDeclining
  ++ flag (age now context.streamObservedAt > engine.maximumStreamAgeSeconds) .staleData
  ++ flag (age now execution.quoteObservedAt > engine.maximumQuoteAgeSeconds) .staleQuote
  ++ flag (!context.protocolLayoutKnown) .unknownProtocolLayout
  ++ flag (!context.criticalApiAvailable) .apiUnavailable
  ++ flag (context.previousRugs ≥ 2) .previousRugs
  ++ flag context.washTradingPattern .washTradingPattern
  ++ flag (context.returnSincePoolCreation > engine.maximumReturnSinceCreation)
      .overextendedPrice

/-- `list(dict.fromkeys(xs))`: the first occurrences, in order. -/
def fromKeys {α : Type} [DecidableEq α] (xs : List α) : List α :=
  xs.foldl (fun seen x => if x ∈ seen then seen else seen ++ [x]) []

def SecurityEngine.evaluate (engine : SecurityEngine) (context : SecurityContext) (now : Time) :
    SecurityResult :=
  let uniqueReasons := fromKeys (reasons engine context now)
  { checkedAt := now
    hardReject := !uniqueReasons.isEmpty
    rejectReasons := uniqueReasons
    holderMetrics := context.holders }

/-- A result that some engine returns for some context. -/
def EngineResult : Type :=
  { result : SecurityResult //
    ∃ (engine : SecurityEngine) (context : SecurityContext) (now : Time),
      engine.evaluate context now = result }

/-- A hard reject carries its first reason. -/
theorem EngineResult.exists_first_reason (result : EngineResult)
    (h : result.1.hardReject = true) :
    ∃ reason rest, result.1.rejectReasons = reason :: rest := by
  obtain ⟨_, engine, context, now, rfl⟩ := result
  simp only [SecurityEngine.evaluate, Bool.not_eq_true'] at h ⊢
  cases hr : fromKeys (reasons engine context now) with
  | nil => simp [hr] at h
  | cons reason rest => exact ⟨reason, rest, rfl⟩

end SniperBot.Security
