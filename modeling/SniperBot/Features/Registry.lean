import SniperBot.Domain
import SniperBot.Basis.Dict
import SniperBot.Basis.Text
import Mathlib.Algebra.Order.Ring.Rat

/-!
# Chain events and the registries they feed

`events.py` and `registry.py`: the event envelope, the records of tokens and pools, and the
calculated state of a pool. `PoolStateTracker.apply` raises when a pool creation lacks a mint or
its decimals; the text values of a payload are stripped, and an empty one counts as missing.
-/

namespace SniperBot.Features

open Basis

/-! ## Events -/

inductive EventSource
  | heliusWss | solanaWss | baselineWss | rpcRecovery | replay
  deriving DecidableEq, Repr

inductive Protocol
  | pump | pumpswap
  deriving DecidableEq, Repr

inductive ChainEventType
  | tokenCreated | swapBuy | swapSell | bondingCurveCompleted | migration | poolCreated
  | liquidityAdded | liquidityRemoved | poolStateChanged | unknown
  deriving DecidableEq, Repr

/-- `event_type in {SWAP_BUY, SWAP_SELL}` -/
def ChainEventType.Swap (eventType : ChainEventType) : Prop :=
  eventType = .swapBuy ∨ eventType = .swapSell

instance (eventType : ChainEventType) : Decidable eventType.Swap :=
  inferInstanceAs (Decidable (_ ∨ _))

/-- The payload entries that the registries and the features read. -/
structure Payload where
  baseMint : Option String := none
  quoteMint : Option String := none
  baseVault : Option String := none
  quoteVault : Option String := none
  baseMintDecimals : Option Nat := none
  quoteMintDecimals : Option Nat := none
  poolBaseAmount : Option ℚ := none
  poolQuoteAmount : Option ℚ := none
  poolBaseTokenReserves : Option ℚ := none
  poolQuoteTokenReserves : Option ℚ := none
  virtualQuoteReserves : Option ℚ := none
  /-- an unsigned field of the decoder -/
  baseSupply : Option Nat := none
  quoteAmountIn : Option ℚ := none
  quoteAmountOut : Option ℚ := none
  baseAmountIn : Option ℚ := none
  baseAmountOut : Option ℚ := none
  user : Option String := none
  creator : Option String := none
  tokenProgram : Option String := none
  name : Option String := none
  symbol : Option String := none
  tokenTotalSupply : Option ℚ := none
  uri : Option String := none
  bondingCurve : Option String := none
  pool : Option String := none
  initialFunder : Option String := none
  funder : Option String := none
  sameFunderCluster : Bool := false
  deriving DecidableEq, Repr

structure EventEnvelope where
  eventId : String
  source : EventSource
  protocol : Protocol
  eventType : ChainEventType
  slot : Nat
  signature : String
  blockTime : Time
  observedAt : Time
  mint : Option String := none
  poolAddress : Option String := none
  payload : Payload := {}
  deriving DecidableEq, Repr

/-- `if event.pool_address` -/
def EventEnvelope.pool? (event : EventEnvelope) : Option String :=
  event.poolAddress.filter (· ≠ "")

/-- `if event.mint` -/
def EventEnvelope.mint? (event : EventEnvelope) : Option String := event.mint.filter (· ≠ "")

/-- `_text` -/
def text (value : Option String) : Option String := (value.map Text.strip).filter (· ≠ "")

/-- `a or b` on two text values -/
def orText (a b : Option String) : Option String := (a.filter (· ≠ "")).orElse fun _ => b

def wsolMint : String := "So11111111111111111111111111111111111111112"

def usdcMint : String := "EPjFWdd5AufqSSqeM2qN1xzybapC8G4wEGGkZwyTDt1v"

/-- `SUPPORTED_QUOTE_MINTS` -/
def supportedQuoteMints : List String := [wsolMint, usdcMint]

/-! ## Tokens -/

structure TokenRecord where
  mint : String
  tokenProgram : Option String := none
  name : Option String := none
  symbol : Option String := none
  decimals : Option Nat := none
  totalSupplyRaw : Option ℚ := none
  creatorAddress : Option String := none
  creationSignature : Option String := none
  creationSlot : Option Nat := none
  creationTime : Option Time := none
  metadataUri : Option String := none
  /-- the entries `name` and `symbol` of the payload, once there is one -/
  enrichment : Option (Option String × Option String) := none
  enrichedAt : Option Time := none
  bondingCurveAddress : Option String := none
  bondingCurveComplete : Bool := false
  migrationTime : Option Time := none
  firstPoolAddress : Option String := none
  firstPoolTime : Option Time := none
  updatedAt : Time
  deriving DecidableEq, Repr

/-- The map of `TokenRegistry`. -/
abbrev Tokens := Dict String TokenRecord

/-- `TokenRegistry.apply_enrichment`, with the name and the symbol of the payload. -/
def applyEnrichment (tokens : Tokens) (mint : String) (name symbol : Option String)
    (observedAt : Time) : Tokens :=
  match tokens.get? mint with
  | none => tokens
  | some token => tokens.set mint
      { token with
        name := orText token.name name, symbol := orText token.symbol symbol
        enrichment := some (name, symbol)
        enrichedAt := some observedAt, updatedAt := max token.updatedAt observedAt }

/-- `TokenRegistry.apply_mint_state` -/
def applyMintState (tokens : Tokens) (mint tokenProgram : String) (decimals : Nat)
    (totalSupplyRaw : ℚ) (observedAt : Time) : Tokens :=
  match tokens.get? mint with
  | none => tokens
  | some token => tokens.set mint
      { token with
        tokenProgram := some tokenProgram, decimals := some decimals
        totalSupplyRaw := some totalSupplyRaw, updatedAt := max token.updatedAt observedAt }

/-- The record of a `TOKEN_CREATED` event. -/
def createdToken (event : EventEnvelope) (mint : String) : TokenRecord where
  mint := mint
  tokenProgram := text event.payload.tokenProgram
  name := text event.payload.name
  symbol := text event.payload.symbol
  totalSupplyRaw := event.payload.tokenTotalSupply
  creatorAddress := text (orText event.payload.creator event.payload.user)
  creationSignature := some event.signature
  creationSlot := some event.slot
  creationTime := some event.blockTime
  metadataUri := text event.payload.uri
  bondingCurveAddress := text event.payload.bondingCurve
  updatedAt := event.observedAt

/-- The record after any other event. -/
def TokenRecord.after (token : TokenRecord) (event : EventEnvelope) : TokenRecord :=
  match event.eventType with
  | .bondingCurveCompleted =>
      { token with bondingCurveComplete := true, updatedAt := event.observedAt }
  | .migration =>
      { token with
        migrationTime := some event.blockTime, firstPoolAddress := text event.payload.pool
        firstPoolTime := some event.blockTime, updatedAt := event.observedAt }
  | .poolCreated =>
      if (token.firstPoolAddress.filter (· ≠ "")).isSome then
        { token with updatedAt := event.observedAt }
      else
        { token with
          firstPoolAddress := event.poolAddress, firstPoolTime := some event.blockTime
          updatedAt := event.observedAt }
  | _ => { token with updatedAt := event.observedAt }

/-- `TokenRegistry.apply` -/
def applyToken (tokens : Tokens) (event : EventEnvelope) : Tokens × Option TokenRecord :=
  match event.mint with
  | none => (tokens, none)
  | some mint =>
      let record :=
        if event.eventType = .tokenCreated ∧ mint ≠ "" then createdToken event mint
        else ((tokens.get? mint).getD { mint := mint, updatedAt := event.observedAt }).after event
      (tokens.set mint record, some record)

/-! ## Pools -/

structure PoolRecord where
  poolAddress : String
  baseMint : String
  quoteMint : String
  protocol : Protocol
  baseVault : Option String
  quoteVault : Option String
  creationSignature : String
  creationSlot : Nat
  creationTime : Time
  baseDecimals : Nat
  quoteDecimals : Nat
  sourceOrientationReversed : Bool
  updatedAt : Time
  deriving DecidableEq, Repr

inductive QualityFlag
  | negativeEffectiveBaseReserves | negativeEffectiveQuoteReserves | quotePriceUnavailable
  | staleQuoteAssetPrice | unsupportedQuoteMint
  deriving DecidableEq, Repr

structure PoolState where
  poolAddress : String
  baseMint : String
  quoteMint : String
  rawBaseReserves : ℚ
  rawQuoteReserves : ℚ
  virtualBaseReserves : ℚ
  virtualQuoteReserves : ℚ
  effectiveBaseReserves : ℚ
  effectiveQuoteReserves : ℚ
  quoteReserveUsd : ℚ
  baseReserveUsd : ℚ
  marginalPriceUsd : ℚ
  marketCapEstimateUsd : Option ℚ
  poolAgeSeconds : ℚ
  lastTradeTime : Option Time
  lastUpdateTime : Time
  quotePriceUpdatedAt : Time
  baseSupplyRaw : Option ℚ
  sourceOrientationReversed : Bool
  dataQualityFlags : List QualityFlag
  deriving DecidableEq, Repr

/-- `price_usd` has a field check `gt=0`. -/
structure QuoteAssetPrice where
  mint : String
  priceUsd : ℚ
  observedAt : Time
  price_pos : 0 < priceUsd

/-- `is_stale` with its default age -/
def QuoteAssetPrice.Stale (price : QuoteAssetPrice) (now : Time) : Prop :=
  totalSeconds (now - price.observedAt) > 15

instance (price : QuoteAssetPrice) (now : Time) : Decidable (price.Stale now) :=
  inferInstanceAs (Decidable (_ > _))

structure PoolStateTracker where
  pools : Dict String PoolRecord
  states : Dict String PoolState
  quotePrices : Dict String QuoteAssetPrice

inductive RegistryError
  /-- `pool event is missing {key}` -/
  | missing (key : String)
  /-- `payload[key]` -/
  | keyError (key : String)
  deriving DecidableEq, Repr

/-- `_required_text` -/
def requiredText (value : Option String) (key : String) : Except RegistryError String :=
  match text value with
  | some value => .ok value
  | none => .error (.missing key)

def requiredDecimals (value : Option Nat) (key : String) : Except RegistryError Nat :=
  match value with
  | some value => .ok value
  | none => .error (.keyError key)

/-- The record of a `POOL_CREATED` event; a pool that lists its quote asset as base is turned
around. -/
def createdPool (event : EventEnvelope) (poolAddress : String) :
    Except RegistryError PoolRecord := do
  let payload := event.payload
  let sourceBase ← requiredText payload.baseMint "base_mint"
  let sourceQuote ← requiredText payload.quoteMint "quote_mint"
  let reversed := decide (sourceBase ∈ supportedQuoteMints ∧ sourceQuote ∉ supportedQuoteMints)
  let baseDecimals ←
    if reversed then requiredDecimals payload.quoteMintDecimals "quote_mint_decimals"
    else requiredDecimals payload.baseMintDecimals "base_mint_decimals"
  let quoteDecimals ←
    if reversed then requiredDecimals payload.baseMintDecimals "base_mint_decimals"
    else requiredDecimals payload.quoteMintDecimals "quote_mint_decimals"
  return {
    poolAddress := poolAddress
    baseMint := if reversed then sourceQuote else sourceBase
    quoteMint := if reversed then sourceBase else sourceQuote
    protocol := event.protocol
    baseVault := text (if reversed then payload.quoteVault else payload.baseVault)
    quoteVault := text (if reversed then payload.baseVault else payload.quoteVault)
    creationSignature := event.signature
    creationSlot := event.slot
    creationTime := event.blockTime
    baseDecimals := baseDecimals
    quoteDecimals := quoteDecimals
    sourceOrientationReversed := reversed
    updatedAt := event.observedAt }

/-- `_reserve_fields` -/
def reserveFields (event : EventEnvelope) (reversed : Bool) : Option ℚ × Option ℚ :=
  let source :=
    if event.eventType = .poolCreated then
      (event.payload.poolBaseAmount, event.payload.poolQuoteAmount)
    else (event.payload.poolBaseTokenReserves, event.payload.poolQuoteTokenReserves)
  if reversed then (source.2, source.1) else source

/-- The state of a pool after an event; `previous` is its last one, `price` that of its quote
asset. -/
def poolState (pool : PoolRecord) (previous : Option PoolState) (price : Option QuoteAssetPrice)
    (event : EventEnvelope) (poolAddress : String) : PoolState :=
  let reserves := reserveFields event pool.sourceOrientationReversed
  let rawBase := (reserves.1.orElse fun _ => previous.map (·.rawBaseReserves)).getD 0
  let rawQuote := (reserves.2.orElse fun _ => previous.map (·.rawQuoteReserves)).getD 0
  let virtual : Option ℚ × Option ℚ :=
    if pool.sourceOrientationReversed then (event.payload.virtualQuoteReserves, some 0)
    else (some 0, event.payload.virtualQuoteReserves)
  let virtualBase := (virtual.1.orElse fun _ => previous.map (·.virtualBaseReserves)).getD 0
  let virtualQuote := (virtual.2.orElse fun _ => previous.map (·.virtualQuoteReserves)).getD 0
  let effectiveBase := rawBase + virtualBase
  let effectiveQuote := rawQuote + virtualQuote
  let quoteUsd := (price.map (·.priceUsd)).getD 0
  let normalizedBase := max effectiveBase 0 / 10 ^ pool.baseDecimals
  let normalizedQuote := max effectiveQuote 0 / 10 ^ pool.quoteDecimals
  let marginalPrice :=
    if normalizedBase > 0 ∧ quoteUsd > 0 then normalizedQuote / normalizedBase * quoteUsd else 0
  let sourceSupply : Option ℚ :=
    if pool.sourceOrientationReversed then none else event.payload.baseSupply.map Nat.cast
  let baseSupply := sourceSupply.orElse fun _ => previous.bind (·.baseSupplyRaw)
  { poolAddress := poolAddress
    baseMint := pool.baseMint
    quoteMint := pool.quoteMint
    rawBaseReserves := rawBase
    rawQuoteReserves := rawQuote
    virtualBaseReserves := virtualBase
    virtualQuoteReserves := virtualQuote
    effectiveBaseReserves := effectiveBase
    effectiveQuoteReserves := effectiveQuote
    quoteReserveUsd := normalizedQuote * quoteUsd
    baseReserveUsd := normalizedBase * marginalPrice
    marginalPriceUsd := marginalPrice
    marketCapEstimateUsd :=
      if marginalPrice > 0 then
        baseSupply.map fun supply => supply / 10 ^ pool.baseDecimals * marginalPrice
      else none
    poolAgeSeconds := max 0 (totalSeconds (event.blockTime - pool.creationTime))
    lastTradeTime :=
      if event.eventType.Swap then some event.blockTime else previous.bind (·.lastTradeTime)
    lastUpdateTime := event.blockTime
    quotePriceUpdatedAt := (price.map (·.observedAt)).getD 0
    baseSupplyRaw := baseSupply
    sourceOrientationReversed := pool.sourceOrientationReversed
    dataQualityFlags :=
      (if effectiveBase < 0 then [.negativeEffectiveBaseReserves] else []) ++
      (if effectiveQuote < 0 then [.negativeEffectiveQuoteReserves] else []) ++
      (match price with
        | none => [.quotePriceUnavailable]
        | some price => if price.Stale event.observedAt then [.staleQuoteAssetPrice] else []) ++
      (if pool.quoteMint ∉ supportedQuoteMints then [.unsupportedQuoteMint] else []) }

namespace PoolStateTracker

variable (tracker : PoolStateTracker)

/-- `set_quote_price` -/
def setQuotePrice (price : QuoteAssetPrice) : PoolStateTracker :=
  { tracker with quotePrices := tracker.quotePrices.set price.mint price }

/-- `apply_base_supply` -/
def applyBaseSupply (poolAddress : String) (totalSupplyRaw : ℚ) :
    PoolStateTracker × Option PoolState :=
  match tracker.states.get? poolAddress, tracker.pools.get? poolAddress with
  | some state, some pool =>
      let updated :=
        { state with
          baseSupplyRaw := some totalSupplyRaw
          marketCapEstimateUsd :=
            if state.marginalPriceUsd > 0 then
              some (totalSupplyRaw / 10 ^ pool.baseDecimals * state.marginalPriceUsd)
            else none }
      ({ tracker with states := tracker.states.set poolAddress updated }, some updated)
  | _, _ => (tracker, none)

/-- The pool record that an event meets. -/
def poolFor (event : EventEnvelope) (poolAddress : String) :
    Except RegistryError (Option PoolRecord) :=
  if event.eventType = .poolCreated then (createdPool event poolAddress).map some
  else .ok (tracker.pools.get? poolAddress)

/-- `apply` -/
def apply (event : EventEnvelope) :
    Except RegistryError (PoolStateTracker × Option PoolState) :=
  match event.pool? with
  | none => .ok (tracker, none)
  | some address =>
      (tracker.poolFor event address).map fun
        | none => (tracker, none)
        | some pool =>
            let state := poolState pool (tracker.states.get? address)
              (tracker.quotePrices.get? pool.quoteMint) event address
            ({ tracker with
                pools := tracker.pools.set address { pool with updatedAt := event.observedAt }
                states := tracker.states.set address state },
              some state)

end PoolStateTracker

end SniperBot.Features
