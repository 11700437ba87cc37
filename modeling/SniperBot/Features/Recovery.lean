import SniperBot.Features.Filter
import SniperBot.Features.Engine
import SniperBot.Basis.Run

/-!
# Events applied live, and applied again after a restart

`_apply_event` of `pipeline.py` with what it calls, the same-funder flag that `_observe_event` of
`runtime.py` puts into the payload, and the recovery of `SniperRuntime.start`: the pool creations
of the tracked pools first, then the processed events of the recovery window.

A processed event is kept with the quote prices that were known when it was applied, and they are
known again when it is applied after the restart.
-/

namespace SniperBot.Features

open Basis Candidates

/-! ## The wallet analyzer -/

structure WalletProfile where
  walletAddress : String
  initialFunder : Option String := none
  deriving DecidableEq, Repr

structure WalletAnalyzer where
  profiles : Dict String WalletProfile := Dict.empty
  /-- the wallets of the buys of a mint -/
  buyers : Dict String (List String) := Dict.empty
  seenEventIds : List String := []

namespace WalletAnalyzer

variable (analyzer : WalletAnalyzer)

/-- `_touch_profile` -/
def touchProfile (wallet : String) (initialFunder : Option String) : WalletAnalyzer :=
  match analyzer.profiles.get? wallet with
  | none =>
      { analyzer with
        profiles := analyzer.profiles.set wallet
          { walletAddress := wallet, initialFunder := initialFunder } }
  | some current =>
      if current.initialFunder.isNone then
        { analyzer with
          profiles := analyzer.profiles.set wallet { current with initialFunder := initialFunder } }
      else analyzer

/-- The wallet of the event, with the funder that the event names. -/
def touchWallet (event : EventEnvelope) : WalletAnalyzer :=
  match text (orText event.payload.user event.payload.creator) with
  | none => analyzer
  | some wallet => analyzer.touchProfile wallet
      (text (orText event.payload.initialFunder event.payload.funder))

/-- `_rebuild_developer_profile` of a `TOKEN_CREATED` event creates the profile. -/
def touchCreator (event : EventEnvelope) : WalletAnalyzer :=
  match event.mint?, text event.payload.creator with
  | some _, some creator =>
      if event.eventType = .tokenCreated then analyzer.touchProfile creator none else analyzer
  | _, _ => analyzer

/-- `_observe_buyer` -/
def observeBuyer (event : EventEnvelope) : WalletAnalyzer :=
  match event.mint?, text (orText event.payload.user event.payload.creator) with
  | some mint, some wallet =>
      if event.eventType = .swapBuy then
        { analyzer with
          buyers := analyzer.buyers.set mint ((analyzer.buyers.get? mint).getD [] ++ [wallet]) }
      else analyzer
  | _, _ => analyzer

/-- `observe` -/
def observe (event : EventEnvelope) : WalletAnalyzer :=
  if event.eventId ∈ analyzer.seenEventIds then analyzer
  else
    ((({ analyzer with
      seenEventIds := analyzer.seenEventIds ++ [event.eventId] }).touchWallet
        event).touchCreator event).observeBuyer event

/-- `is_same_funder_cluster` -/
def isSameFunderCluster (mint wallet : String) : Bool :=
  match ((analyzer.profiles.get? wallet).bind (·.initialFunder)).filter (· ≠ "") with
  | none => false
  | some funder =>
      2 ≤ ((analyzer.buyers.get? mint).getD []).dedup.countP fun buyer =>
        (analyzer.profiles.get? buyer).bind (·.initialFunder) = some funder

end WalletAnalyzer

/-! ## Applying an event -/

structure PipelineConfig extends FilterConfig where
  /-- `isoformat` -/
  isoformat : Time → String
  /-- the text of `normalize` -/
  normalized : ℚ → String

/-- The memory of the process. -/
structure Memory where
  pools : PoolStateTracker := ⟨Dict.empty, Dict.empty, Dict.empty⟩
  tokens : Tokens := Dict.empty
  features : EventTimeFeatureEngine := {}
  candidates : Dict String Candidate := Dict.empty
  wallets : WalletAnalyzer := {}

/-- `NON_TRADABLE_EVENT_SOURCES` -/
def nonTradableEventSources : List EventSource := [.baselineWss, .rpcRecovery]

/-- `supported_quote_pair` -/
def SupportedQuotePair (pool : PoolRecord) : Prop :=
  pool.quoteMint ∈ supportedQuoteMints ∧ pool.baseMint ∉ supportedQuoteMints

instance (pool : PoolRecord) : Decidable (SupportedQuotePair pool) :=
  inferInstanceAs (Decidable (_ ∧ _))

/-- `_with_known_pool_mint` -/
def withKnownPoolMint (pools : Dict String PoolRecord) (event : EventEnvelope) : EventEnvelope :=
  match event.mint, event.pool?.bind pools.get? with
  | none, some pool => { event with mint := some pool.baseMint }
  | _, _ => event

/-- `effective_event` -/
def effectiveEvent (pool : Option PoolRecord) (event : EventEnvelope) : EventEnvelope :=
  match pool with
  | some pool => { event with mint := some pool.baseMint }
  | none => event

/-- The payload is changed in place, so later readers of the event see the flag. -/
def EventEnvelope.withSameFunder (event : EventEnvelope) (flag : Bool) : EventEnvelope :=
  { event with payload := { event.payload with sameFunderCluster := flag } }

/-- The flag that `_observe_event` leaves in the payload. -/
def sameFunderFlag (wallets : WalletAnalyzer) (event : EventEnvelope) : Bool :=
  match event.mint?, event.payload.user.filter (· ≠ "") with
  | some mint, some wallet => (wallets.observe event).isSameFunderCluster mint wallet
  | _, _ => event.payload.sameFunderCluster

/-- The candidate of a pool creation. -/
def createdCandidate (config : FilterConfig) (pool : Option PoolRecord) (event : EventEnvelope) :
    Option Candidate :=
  match pool, event.pool?, event.mint? with
  | some pool, some poolAddress, some mint =>
      if event.source ∉ nonTradableEventSources ∧ SupportedQuotePair pool ∧
          event.eventType = .poolCreated then
        some
          { candidateId := config.candidateId mint poolAddress
            mint := mint
            poolAddress := poolAddress
            detectedAt := event.blockTime
            updatedAt := event.observedAt }
      else none
  | _, _, _ => none

/-- The candidate of the pool of the event gets the time of the event. -/
def touchCandidate (config : FilterConfig) (candidates : Dict String Candidate)
    (event : EventEnvelope) : Dict String Candidate :=
  match event.mint?, event.pool? with
  | some mint, some poolAddress =>
      candidates.update (config.candidateId mint poolAddress)
        ({ · with updatedAt := event.observedAt })
  | _, _ => candidates

/-- The pool of a creation is registered. -/
def registerCreated (features : EventTimeFeatureEngine) (event : EventEnvelope) :
    EventTimeFeatureEngine :=
  match event.pool?, event.mint? with
  | some poolAddress, some _ =>
      if event.eventType = .poolCreated then features.registerPool poolAddress event.blockTime
      else features
  | _, _ => features

def liquidityObservation (event : EventEnvelope) (state : PoolState) : LiquidityObservation where
  eventId := event.eventId ++ ":liquidity"
  poolAddress := state.poolAddress
  eventTime := event.blockTime
  quoteLiquidityUsd := max state.quoteReserveUsd 0
  marketCapUsd := state.marketCapEstimateUsd

/-- The quote amount and the side of a swap; a pool that was turned around lists its quote asset
as base. -/
def swapAmount (pool : PoolRecord) (event : EventEnvelope) : Option ℚ × TradeSide :=
  if pool.sourceOrientationReversed then
    if event.eventType = .swapBuy then (event.payload.baseAmountOut, .sell)
    else (event.payload.baseAmountIn, .buy)
  else
    ((event.payload.quoteAmountIn.filter (· ≠ 0)).orElse fun _ => event.payload.quoteAmountOut,
      if event.eventType = .swapBuy then .buy else .sell)

/-- The trade of a swap in a pool with a price; `price` is that of its quote asset, `creator` that
of its token. -/
def tradeObservation (pool : PoolRecord) (price : Option QuoteAssetPrice) (creator : Option String)
    (event : EventEnvelope) (state : PoolState) : TradeObservation :=
  let amount := swapAmount pool event
  let quoteUsd := (price.map (·.priceUsd)).getD 0
  let wallet := (event.payload.user.filter (· ≠ "")).getD "unknown"
  { eventId := event.eventId ++ ":trade"
    poolAddress := state.poolAddress
    eventTime := event.blockTime
    side := amount.2
    wallet := wallet
    volumeUsd := max (amount.1.getD 0 / 10 ^ pool.quoteDecimals * quoteUsd) 0
    priceUsd := state.marginalPriceUsd
    external := wallet ≠ "unknown" ∧ some wallet ≠ creator
    sameFunderCluster := event.payload.sameFunderCluster }

/-- `token.creator_address`; an unknown token and a token without a creator have none. -/
def creatorOf (tokens : Tokens) (mint : String) : Option String :=
  (tokens.get? mint).bind (·.creatorAddress)

/-- `_ingest_pool_features` -/
def ingestPoolFeatures (pools : PoolStateTracker) (tokens : Tokens)
    (features : EventTimeFeatureEngine) (event : EventEnvelope) (state : PoolState) :
    EventTimeFeatureEngine :=
  let features := features.ingestLiquidity (liquidityObservation event state)
  match pools.pools.get? state.poolAddress with
  | none => features
  | some pool =>
      if event.eventType.Swap ∧ state.marginalPriceUsd > 0 then
        features.ingestTrade
          (tradeObservation pool (pools.quotePrices.get? pool.quoteMint)
            (creatorOf tokens state.baseMint) event state)
      else features

/-- `_apply_event` after the pool registry and the observer; `persist` writes the second
component. -/
def applyEffective (config : FilterConfig) (memory : Memory) (pools : PoolStateTracker)
    (state : Option PoolState) (event : EventEnvelope) : Memory × Option Candidate :=
  let (tokens, token) := applyToken memory.tokens event
  let candidate := createdCandidate config (event.pool?.bind pools.pools.get?) event
  let features := registerCreated memory.features event
  let candidates := match candidate with
    | some candidate => memory.candidates.setDefault candidate.candidateId candidate
    | none => memory.candidates
  ({ memory with
      pools := pools
      tokens := tokens
      features := match state with
        | some state => ingestPoolFeatures pools tokens features event state
        | none => features
      candidates := if token.isSome then touchCandidate config candidates event else candidates },
    candidate)

/-- `_apply_event` with `observe=True` -/
def applyObserved (config : FilterConfig) (memory : Memory) (event : EventEnvelope) :
    Except RegistryError (Memory × Option Candidate) :=
  (memory.pools.apply event).map fun (pools, state) =>
    let effective := effectiveEvent (event.pool?.bind pools.pools.get?) event
    let flag := sameFunderFlag memory.wallets effective
    applyEffective config { memory with wallets := memory.wallets.observe effective } pools state
      (effective.withSameFunder flag)

/-- `_apply_event` with `observe=False` -/
def applyUnobserved (config : FilterConfig) (memory : Memory) (event : EventEnvelope) :
    Except RegistryError (Memory × Option Candidate) :=
  (memory.pools.apply event).map fun (pools, state) =>
    applyEffective config memory pools state
      (effectiveEvent (event.pool?.bind pools.pools.get?) event)

/-! ## The live process -/

/-- A processed event, with the quote prices that were known. -/
structure LogEntry where
  event : EventEnvelope
  quotePrices : Dict String QuoteAssetPrice

/-- The memory, and what is durable: the rows of the candidates and the processed events. -/
structure LiveProcess where
  memory : Memory := {}
  rows : Dict String Candidate := Dict.empty
  log : List LogEntry := []

inductive LiveStep
  /-- `process_event` -/
  | processEvent (event : EventEnvelope)
  | setQuotePrice (price : QuoteAssetPrice)
  | applyEnrichment (mint : String) (name symbol : Option String) (observedAt : Time)
  | applyMintState (mint tokenProgram : String) (decimals : Nat) (totalSupplyRaw : ℚ)
      (observedAt : Time)
  | updatePoolSupply (poolAddress : String) (totalSupplyRaw : ℚ) (observedAt : Time)
  /-- the observation of `_build_security_context` for a candidate -/
  | ingestHolders (candidateId : String) (holders : HolderObservation)
  /-- `self.candidates[candidate_id] = candidate` of an evaluation or a transition -/
  | setCandidate (candidate : Candidate)
  /-- `upsert_candidate` of an evaluation or a transition -/
  | upsertCandidate (candidate : Candidate)

/-- A later version of a candidate: evaluations and transitions keep its identity. -/
def SameIdentity (candidate other : Candidate) : Prop :=
  candidate.mint = other.mint ∧ candidate.poolAddress = other.poolAddress ∧
    candidate.detectedAt = other.detectedAt

instance (candidate other : Candidate) : Decidable (SameIdentity candidate other) :=
  inferInstanceAs (Decidable (_ ∧ _))

/-- `update_pool_supply` -/
def updatePoolSupply (config : PipelineConfig) (memory : Memory) (poolAddress : String)
    (totalSupplyRaw : ℚ) (observedAt : Time) : Memory :=
  match memory.pools.applyBaseSupply poolAddress totalSupplyRaw with
  | (_, none) => memory
  | (pools, some state) =>
      { memory with
        pools := pools
        features := memory.features.ingestLiquidity
          { eventId := poolAddress ++ ":supply:" ++ config.normalized totalSupplyRaw
            poolAddress := poolAddress
            eventTime := observedAt
            quoteLiquidityUsd := max state.quoteReserveUsd 0
            marketCapUsd := state.marketCapEstimateUsd } }

namespace LiveProcess

variable (live : LiveProcess)

/-- `record_event` refuses an id that it has. -/
def Processed (event : EventEnvelope) : Prop := event.eventId ∈ live.log.map (·.event.eventId)

instance (event : EventEnvelope) : Decidable (live.Processed event) :=
  inferInstanceAs (Decidable (_ ∈ _))

/-- The event is marked as processed with the mint that is known for its pool. -/
def logged (event : EventEnvelope) : List LogEntry :=
  live.log ++ [⟨event, live.memory.pools.quotePrices⟩]

/-- `process_event`. An event that the registry refuses changes nothing: it stays unprocessed, and
the process asks for its restart. -/
def processEvent (config : FilterConfig) (event : EventEnvelope) : LiveProcess :=
  if live.Processed event then live
  else
    let event := withKnownPoolMint live.memory.pools.pools event
    match eventStateFilterReason config live.memory.pools.pools live.memory.candidates event with
    | some _ => { live with log := live.logged event }
    | none =>
        match applyObserved config live.memory event with
        | .error _ => live
        | .ok (memory, candidate) =>
            { memory := memory
              rows := match candidate with
                | some candidate => live.rows.set candidate.candidateId candidate
                | none => live.rows
              log := live.logged event }

/-- One step of the live process. -/
def step (config : PipelineConfig) (live : LiveProcess) : LiveStep → LiveProcess
  | .processEvent event => live.processEvent config.toFilterConfig event
  | .setQuotePrice price =>
      { live with memory := { live.memory with pools := live.memory.pools.setQuotePrice price } }
  | .applyEnrichment mint name symbol observedAt =>
      { live with
        memory := { live.memory with
          tokens := applyEnrichment live.memory.tokens mint name symbol observedAt } }
  | .applyMintState mint tokenProgram decimals totalSupplyRaw observedAt =>
      { live with
        memory := { live.memory with
          tokens := applyMintState live.memory.tokens mint tokenProgram decimals totalSupplyRaw
            observedAt } }
  | .updatePoolSupply poolAddress totalSupplyRaw observedAt =>
      { live with
        memory := updatePoolSupply config live.memory poolAddress totalSupplyRaw observedAt }
  | .ingestHolders candidateId holders =>
      { live with
        memory := { live.memory with
          features := live.memory.features.ingestHolders
            { holders with
              eventId := "holders:" ++ candidateId ++ ":" ++ config.isoformat holders.eventTime } } }
  | .setCandidate candidate =>
      match live.memory.candidates.get? candidate.candidateId with
      | some current =>
          if SameIdentity candidate current then
            { live with
              memory := { live.memory with
                candidates := live.memory.candidates.set candidate.candidateId candidate } }
          else live
      | none => live
  | .upsertCandidate candidate =>
      match live.memory.candidates.get? candidate.candidateId with
      | some current =>
          if SameIdentity candidate current then
            { live with rows := live.rows.set candidate.candidateId candidate }
          else live
      | none => live

end LiveProcess

/-! ## The restart -/

inductive RecoveryError
  /-- `RecoveryStateError`: active candidate pool state is unavailable for recovery -/
  | poolStateUnavailable
  | registry (error : RegistryError)
  deriving DecidableEq, Repr

/-- `restore_candidates` -/
def restoreCandidates (candidates : List Candidate) : Dict String Candidate :=
  Dict.collect (·.candidateId) some candidates Dict.empty

/-- `rehydrate_event`, and the analyzer when the event was applied. -/
def rehydrateEvent (config : FilterConfig) (memory : Memory) (entry : LogEntry) :
    Except RegistryError Memory :=
  let memory :=
    { memory with pools := { memory.pools with quotePrices := entry.quotePrices } }
  match eventStateFilterReason config memory.pools.pools memory.candidates entry.event with
  | some _ => .ok memory
  | none =>
      (applyUnobserved config memory entry.event).map fun (memory, _) =>
        { memory with wallets := memory.wallets.observe entry.event }

/-- `tracked_pool_addresses` -/
def trackedPoolAddresses (candidates : List Candidate) : List String :=
  (candidates.filter fun candidate => ¬ Terminal candidate.state).map (·.poolAddress)

/-- `load_processed_pool_creation_events` -/
def poolBootstrapEvents (log : List LogEntry) (addresses : List String) : List LogEntry :=
  log.filter fun entry =>
    entry.event.eventType = .poolCreated ∧ ∃ address ∈ addresses,
      entry.event.poolAddress = some address

/-- `load_processed_events_since`, less the events of the bootstrap. -/
def eventsSince (log bootstrap : List LogEntry) (since : Time) : List LogEntry :=
  log.filter fun entry =>
    since ≤ entry.event.blockTime ∧ entry.event.eventId ∉ bootstrap.map (·.event.eventId)

/-- The recovery of `SniperRuntime.start`; `wallets` is the restored analyzer. -/
def recover (config : FilterConfig) (wallets : WalletAnalyzer) (rows : Dict String Candidate)
    (log : List LogEntry) (since : Time) : Except RecoveryError Memory :=
  let tracked := trackedPoolAddresses rows.values
  let bootstrap := poolBootstrapEvents log tracked
  if ∃ address ∈ tracked, ∀ entry ∈ bootstrap, entry.event.poolAddress ≠ some address then
    .error .poolStateUnavailable
  else
    ((bootstrap ++ eventsSince log bootstrap since).foldlM (rehydrateEvent config)
      { candidates := restoreCandidates rows.values, wallets := wallets }).mapError .registry

end SniperBot.Features
