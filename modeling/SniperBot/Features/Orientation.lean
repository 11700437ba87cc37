import SniperBot.Features.Rebuild

/-!
# A pool and its mirror image

A pool creation that lists the quote asset as base is turned around, and every later event of the
pool is read through that orientation: the reserves, the amount of a swap and its side. The
mirror image of a stream exchanges base and quote and buys and sells. `Mirrors` relates the two
trackers; one event keeps it and gives the same reading on both sides.
-/

namespace SniperBot.Features

open Basis

/-! ## The mirror image of an event -/

def ChainEventType.mirror : ChainEventType → ChainEventType
  | .swapBuy => .swapSell
  | .swapSell => .swapBuy
  | eventType => eventType

def Payload.mirror (payload : Payload) : Payload :=
  { payload with
    baseMint := payload.quoteMint
    quoteMint := payload.baseMint
    baseVault := payload.quoteVault
    quoteVault := payload.baseVault
    baseMintDecimals := payload.quoteMintDecimals
    quoteMintDecimals := payload.baseMintDecimals
    poolBaseAmount := payload.poolQuoteAmount
    poolQuoteAmount := payload.poolBaseAmount
    poolBaseTokenReserves := payload.poolQuoteTokenReserves
    poolQuoteTokenReserves := payload.poolBaseTokenReserves
    quoteAmountIn := payload.baseAmountIn
    quoteAmountOut := payload.baseAmountOut
    baseAmountIn := payload.quoteAmountIn
    baseAmountOut := payload.quoteAmountOut }

/-- The event type is part of the key that is hashed, so the mirror image has its own id. -/
def EventEnvelope.mirror (event : EventEnvelope) (eventId : String) : EventEnvelope :=
  { event with
    eventId := eventId
    eventType := event.eventType.mirror
    payload := event.payload.mirror }

/-- Of the two mints, where both are there, one is a supported quote asset and one is not. -/
def Payload.OneQuote (payload : Payload) : Prop :=
  ∀ base ∈ text payload.baseMint, ∀ quote ∈ text payload.quoteMint,
    base ∈ supportedQuoteMints ↔ quote ∉ supportedQuoteMints

/-- An event of one pool without virtual reserves and supply. `BuyEvent` of the interface
description has the amounts `base_amount_out` and `quote_amount_in`, `SellEvent` has
`base_amount_in` and `quote_amount_out`. -/
structure SourceEvent (pool : String) where
  event : EventEnvelope
  of_pool : event.poolAddress = some pool
  one_quote : event.eventType = .poolCreated → event.payload.OneQuote
  bought : event.eventType = .swapBuy →
    event.payload.baseAmountIn = none ∧ event.payload.quoteAmountOut = none
  sold : event.eventType = .swapSell →
    event.payload.baseAmountOut = none ∧ event.payload.quoteAmountIn = none
  no_virtual : event.payload.virtualQuoteReserves = none
  no_supply : event.payload.baseSupply = none

namespace ChainEventType

variable (eventType : ChainEventType)

@[simp] theorem mirror_mirror : eventType.mirror.mirror = eventType := by
  cases eventType <;> rfl

@[simp] theorem mirror_eq_poolCreated :
    eventType.mirror = .poolCreated ↔ eventType = .poolCreated := by
  cases eventType <;> decide

@[simp] theorem mirror_eq_swapBuy : eventType.mirror = .swapBuy ↔ eventType = .swapSell := by
  cases eventType <;> decide

@[simp] theorem mirror_eq_swapSell : eventType.mirror = .swapSell ↔ eventType = .swapBuy := by
  cases eventType <;> decide

@[simp] theorem mirror_swap : eventType.mirror.Swap ↔ eventType.Swap := by
  simp only [Swap, mirror_eq_swapBuy, mirror_eq_swapSell, or_comm]

end ChainEventType

theorem Payload.OneQuote.mirror {payload : Payload} (h : payload.OneQuote) :
    payload.mirror.OneQuote := by
  intro base hbase quote hquote
  have := h quote hquote base hbase
  tauto

def SourceEvent.mirror {pool : String} (source : SourceEvent pool) (eventId : String) :
    SourceEvent pool where
  event := source.event.mirror eventId
  of_pool := source.of_pool
  one_quote h := (source.one_quote ((ChainEventType.mirror_eq_poolCreated _).mp h)).mirror
  bought h := (source.sold ((ChainEventType.mirror_eq_swapBuy _).mp h)).symm
  sold h := (source.bought ((ChainEventType.mirror_eq_swapSell _).mp h)).symm
  no_virtual := source.no_virtual
  no_supply := source.no_supply

/-! ## What a step produces -/

/-- The trade that `_ingest_pool_features` hands to the engine. -/
def poolTrade (pools : PoolStateTracker) (tokens : Tokens) (event : EventEnvelope)
    (state : PoolState) : Option TradeObservation :=
  match pools.pools.get? state.poolAddress with
  | none => none
  | some pool =>
      if event.eventType.Swap ∧ state.marginalPriceUsd > 0 then
        some (tradeObservation pool (pools.quotePrices.get? pool.quoteMint)
          (creatorOf tokens state.baseMint) event state)
      else none

theorem ingestPoolFeatures_eq (pools : PoolStateTracker) (tokens : Tokens)
    (features : EventTimeFeatureEngine) (event : EventEnvelope) (state : PoolState) :
    ingestPoolFeatures pools tokens features event state =
      (poolTrade pools tokens event state).elim
        (features.ingestLiquidity (liquidityObservation event state))
        (features.ingestLiquidity (liquidityObservation event state)).ingestTrade := by
  unfold ingestPoolFeatures poolTrade
  cases pools.pools.get? state.poolAddress with
  | none => rfl
  | some pool =>
      by_cases htrade : event.eventType.Swap ∧ state.marginalPriceUsd > 0
      · simp only [if_pos htrade, Option.elim_some]
      · simp only [if_neg htrade, Option.elim_none]

structure TradeReading where
  side : TradeSide
  volumeUsd : ℚ
  wallet : String
  deriving DecidableEq, Repr

/-- What is compared of a step: the pool, its state, and the two observations. -/
structure PoolReading where
  targetMint : String
  baseDecimals : Nat
  quoteDecimals : Nat
  effectiveBaseReserves : ℚ
  effectiveQuoteReserves : ℚ
  marginalPriceUsd : ℚ
  quoteReserveUsd : ℚ
  baseReserveUsd : ℚ
  quoteLiquidityUsd : ℚ
  trade : Option TradeReading
  deriving DecidableEq, Repr

def TradeObservation.reading (trade : TradeObservation) : TradeReading where
  side := trade.side
  volumeUsd := trade.volumeUsd
  wallet := trade.wallet

def PoolStateTracker.reading (pools : PoolStateTracker) (tokens : Tokens) (event : EventEnvelope)
    (state : PoolState) : Option PoolReading :=
  (pools.pools.get? state.poolAddress).map fun pool =>
    { targetMint := pool.baseMint
      baseDecimals := pool.baseDecimals
      quoteDecimals := pool.quoteDecimals
      effectiveBaseReserves := state.effectiveBaseReserves
      effectiveQuoteReserves := state.effectiveQuoteReserves
      marginalPriceUsd := state.marginalPriceUsd
      quoteReserveUsd := state.quoteReserveUsd
      baseReserveUsd := state.baseReserveUsd
      quoteLiquidityUsd := (liquidityObservation event state).quoteLiquidityUsd
      trade := (poolTrade pools tokens event state).map (·.reading) }

/-- The steps of a stream: an event of the pool, with the tokens known at that time, and between
the events a new quote price or a supply that was read from the chain. -/
inductive Feed (pool : String)
  | event (source : SourceEvent pool) (tokens : Tokens)
  | quotePrice (price : QuoteAssetPrice)
  | supply (totalSupplyRaw : ℚ)

def Feed.mirror {pool : String} (eventId : EventEnvelope → String) : Feed pool → Feed pool
  | .event source tokens => .event (source.mirror (eventId source.event)) tokens
  | .quotePrice price => .quotePrice price
  | .supply totalSupplyRaw => .supply totalSupplyRaw

/-- A step; an event that raises leaves the registry as it was. -/
def PoolStateTracker.feed {pool : String} (tracker : PoolStateTracker) :
    Feed pool → PoolStateTracker × Except RegistryError (Option PoolReading)
  | .event source tokens =>
      match tracker.apply source.event with
      | .error error => (tracker, .error error)
      | .ok (tracker, none) => (tracker, .ok none)
      | .ok (tracker, some state) =>
          (tracker, .ok (tracker.reading tokens source.event state))
  | .quotePrice price => (tracker.setQuotePrice price, .ok none)
  | .supply totalSupplyRaw => ((tracker.applyBaseSupply pool totalSupplyRaw).1, .ok none)

/-- The readings of a stream, step by step. -/
def PoolStateTracker.readings {pool : String} (tracker : PoolStateTracker) :
    List (Feed pool) → List (Except RegistryError (Option PoolReading))
  | [] => []
  | step :: steps => (tracker.feed step).2 :: (tracker.feed step).1.readings steps

/-! ## Two trackers of mirrored streams -/

def PoolRecord.turned (pool : PoolRecord) : PoolRecord :=
  { pool with sourceOrientationReversed := !pool.sourceOrientationReversed }

def PoolState.turned (state : PoolState) : PoolState :=
  { state with sourceOrientationReversed := !state.sourceOrientationReversed }

/-- No virtual reserves on either side. -/
def PoolState.Plain (state : PoolState) : Prop :=
  state.virtualBaseReserves = 0 ∧ state.virtualQuoteReserves = 0

/-- The trackers know the same of the pool, but for its orientation. -/
structure Mirrors (pool : String) (tracker tracker' : PoolStateTracker) : Prop where
  pools : tracker'.pools.get? pool = (tracker.pools.get? pool).map PoolRecord.turned
  states : tracker'.states.get? pool = (tracker.states.get? pool).map PoolState.turned
  quotePrices : tracker'.quotePrices = tracker.quotePrices
  plain : ∀ state ∈ tracker.states.get? pool, state.Plain

theorem createdPool_mirror (event : EventEnvelope) (eventId pool : String)
    (hone : event.payload.OneQuote) :
    (createdPool (event.mirror eventId) pool).toOption =
      (createdPool event pool).toOption.map PoolRecord.turned := by
  cases hbase : text event.payload.baseMint with
  | none =>
      cases hquote : text event.payload.quoteMint <;>
        simp [createdPool, requiredText, EventEnvelope.mirror, Payload.mirror, hbase, hquote,
          Except.toOption, bind, Except.bind]
  | some base =>
      cases hquote : text event.payload.quoteMint with
      | none =>
          simp [createdPool, requiredText, EventEnvelope.mirror, Payload.mirror, hbase, hquote,
            Except.toOption, bind, Except.bind]
      | some quote =>
          have hside := hone base hbase quote hquote
          by_cases hmem : base ∈ supportedQuoteMints
          all_goals
            cases hdecimals : event.payload.baseMintDecimals <;>
              cases hdecimals' : event.payload.quoteMintDecimals <;>
                simp_all [createdPool, requiredText, requiredDecimals, EventEnvelope.mirror,
                  Payload.mirror, Except.toOption, bind, Except.bind, pure, Except.pure,
                  PoolRecord.turned]

theorem reserveFields_mirror (event : EventEnvelope) (eventId : String) (reversed : Bool) :
    reserveFields (event.mirror eventId) (!reversed) = reserveFields event reversed := by
  by_cases hcreated : event.eventType = .poolCreated <;> cases reversed <;>
    simp [reserveFields, EventEnvelope.mirror, Payload.mirror, hcreated]

/-- Without virtual reserves and supply in the payload and before it, only the orientation of the
state differs. -/
theorem poolState_mirror (record : PoolRecord) (previous : Option PoolState)
    (price : Option QuoteAssetPrice) {pool : String} (source : SourceEvent pool)
    (eventId address : String) (hplain : ∀ state ∈ previous, state.Plain) :
    poolState record.turned (previous.map PoolState.turned) price (source.event.mirror eventId)
        address = (poolState record previous price source.event address).turned ∧
      (poolState record previous price source.event address).Plain := by
  have hreserves := reserveFields_mirror source.event eventId record.sourceOrientationReversed
  have hblock : (source.event.mirror eventId).blockTime = source.event.blockTime := rfl
  have hobserved : (source.event.mirror eventId).observedAt = source.event.observedAt := rfl
  have hvirtual : (source.event.mirror eventId).payload.virtualQuoteReserves = none :=
    source.no_virtual
  have hsupply : (source.event.mirror eventId).payload.baseSupply = none := source.no_supply
  have hswap : (source.event.mirror eventId).eventType.Swap ↔ source.event.eventType.Swap :=
    ChainEventType.mirror_swap _
  cases horientation : record.sourceOrientationReversed
  all_goals
    simp only [horientation, Bool.not_false, Bool.not_true] at hreserves
    cases previous with
    | none =>
        constructor
        · simp [poolState, PoolRecord.turned, PoolState.turned, horientation, hreserves, hblock,
            hobserved, hvirtual, hsupply, hswap, source.no_virtual, source.no_supply]
        · simp [poolState, PoolState.Plain, horientation, source.no_virtual]
    | some state =>
        obtain ⟨hbase, hquote⟩ := hplain state rfl
        constructor
        · simp [poolState, PoolRecord.turned, PoolState.turned, horientation, hreserves, hblock,
            hobserved, hvirtual, hsupply, hswap, source.no_virtual, source.no_supply, hbase, hquote]
        · simp [poolState, PoolState.Plain, horientation, source.no_virtual, hbase, hquote]

/-- A mirrored swap changes hands of the same quote amount, on the same side of the target. -/
theorem swapAmount_mirror (record : PoolRecord) {pool : String} (source : SourceEvent pool)
    (eventId : String) (hswap : source.event.eventType.Swap) :
    (swapAmount record.turned (source.event.mirror eventId)).1.getD 0 =
        (swapAmount record source.event).1.getD 0 ∧
      (swapAmount record.turned (source.event.mirror eventId)).2 =
        (swapAmount record source.event).2 := by
  have hfilter : ∀ amount : Option ℚ,
      (amount.filter fun value => !decide (value = 0)).getD 0 = amount.getD 0 := by
    rintro (_ | amount)
    · rfl
    · by_cases hzero : amount = 0 <;> simp [Option.filter, hzero]
  rcases hswap with hbuy | hsell
  · obtain ⟨hin, hout⟩ := source.bought hbuy
    cases horientation : record.sourceOrientationReversed <;>
      simp [swapAmount, PoolRecord.turned, EventEnvelope.mirror, Payload.mirror,
        ChainEventType.mirror, horientation, hbuy, hin, hout, hfilter]
  · obtain ⟨hout, hin⟩ := source.sold hsell
    cases horientation : record.sourceOrientationReversed <;>
      simp [swapAmount, PoolRecord.turned, EventEnvelope.mirror, Payload.mirror,
        ChainEventType.mirror, horientation, hsell, hin, hout, hfilter]

theorem tradeReading_mirror (record : PoolRecord) (price : Option QuoteAssetPrice)
    (creator : Option String) {pool : String} (source : SourceEvent pool) (eventId : String)
    (state : PoolState) (hswap : source.event.eventType.Swap) :
    (tradeObservation record.turned price creator (source.event.mirror eventId)
        state.turned).reading =
      (tradeObservation record price creator source.event state).reading := by
  obtain ⟨hamount, hside⟩ := swapAmount_mirror record source eventId hswap
  have huser : (source.event.mirror eventId).payload.user = source.event.payload.user := rfl
  have hdecimals : record.turned.quoteDecimals = record.quoteDecimals := rfl
  simp only [tradeObservation, TradeObservation.reading, hamount, hside, huser, hdecimals]

/-- The reading of a step whose state and record are mirror images. -/
theorem reading_mirror {pool : String} {tracker tracker' : PoolStateTracker}
    (h : Mirrors pool tracker tracker') (tokens : Tokens) (source : SourceEvent pool)
    (eventId : String) (state : PoolState) (haddress : state.poolAddress = pool) :
    tracker'.reading tokens (source.event.mirror eventId) state.turned =
      tracker.reading tokens source.event state := by
  have haddress' : state.turned.poolAddress = pool := haddress
  unfold PoolStateTracker.reading poolTrade
  rw [haddress, haddress', h.pools, h.quotePrices]
  cases tracker.pools.get? pool with
  | none => rfl
  | some record =>
      have htrade : (if (source.event.mirror eventId).eventType.Swap ∧
            state.turned.marginalPriceUsd > 0 then
          some (tradeObservation record.turned (tracker.quotePrices.get? record.turned.quoteMint)
            (creatorOf tokens state.turned.baseMint) (source.event.mirror eventId) state.turned)
          else none).map (·.reading) =
        (if source.event.eventType.Swap ∧ state.marginalPriceUsd > 0 then
          some (tradeObservation record (tracker.quotePrices.get? record.quoteMint)
            (creatorOf tokens state.baseMint) source.event state)
          else none).map (·.reading) := by
        by_cases hswap : source.event.eventType.Swap
        · have hswap' : (source.event.mirror eventId).eventType.Swap :=
            (ChainEventType.mirror_swap _).mpr hswap
          have hprice : state.turned.marginalPriceUsd = state.marginalPriceUsd := rfl
          by_cases hpositive : state.marginalPriceUsd > 0
          · rw [if_pos ⟨hswap', hpositive⟩, if_pos ⟨hswap, hpositive⟩]
            exact congrArg some (tradeReading_mirror _ _ _ source eventId state hswap)
          · rw [if_neg fun h => hpositive h.2, if_neg fun h => hpositive h.2]
        · have hswap' : ¬ (source.event.mirror eventId).eventType.Swap :=
            fun h => hswap ((ChainEventType.mirror_swap _).mp h)
          rw [if_neg fun h => hswap' h.1, if_neg fun h => hswap h.1]
      exact congrArg some (congrArg (PoolReading.mk _ _ _ _ _ _ _ _ _) htrade)

theorem poolFor_mirror {pool : String} {tracker tracker' : PoolStateTracker}
    (h : Mirrors pool tracker tracker') (source : SourceEvent pool) (eventId : String) :
    (tracker'.poolFor (source.event.mirror eventId) pool).toOption =
      (tracker.poolFor source.event pool).toOption.map (Option.map PoolRecord.turned) := by
  by_cases hcreated : source.event.eventType = .poolCreated
  · have hcreated' : (source.event.mirror eventId).eventType = .poolCreated :=
      (ChainEventType.mirror_eq_poolCreated _).mpr hcreated
    have hrecord := createdPool_mirror source.event eventId pool (source.one_quote hcreated)
    simp only [PoolStateTracker.poolFor, if_pos hcreated, if_pos hcreated']
    cases hnew : createdPool source.event pool <;>
      cases hnew' : createdPool (source.event.mirror eventId) pool <;>
        simp_all [Except.toOption, Except.map]
  · have hcreated' : (source.event.mirror eventId).eventType ≠ .poolCreated :=
      fun h => hcreated ((ChainEventType.mirror_eq_poolCreated _).mp h)
    simp only [PoolStateTracker.poolFor, if_neg hcreated, if_neg hcreated', h.pools]
    rfl

theorem Mirrors.advance {pool : String} {tracker tracker' : PoolStateTracker}
    (h : Mirrors pool tracker tracker') (record : PoolRecord) (source : SourceEvent pool)
    (eventId : String) :
    Mirrors pool (tracker.advance record source.event pool)
        (tracker'.advance record.turned (source.event.mirror eventId) pool) ∧
      poolState record.turned (tracker'.states.get? pool)
          (tracker'.quotePrices.get? record.turned.quoteMint) (source.event.mirror eventId) pool =
        (poolState record (tracker.states.get? pool)
          (tracker.quotePrices.get? record.quoteMint) source.event pool).turned := by
  obtain ⟨hstate, hplain⟩ := poolState_mirror record (tracker.states.get? pool)
    (tracker.quotePrices.get? record.quoteMint) source eventId pool h.plain
  rw [← h.states, ← h.quotePrices] at hstate
  refine ⟨?_, hstate.trans (by rw [h.quotePrices])⟩
  constructor
  · simp only [PoolStateTracker.advance, Dict.get?_set_self, Option.map_some]
    rfl
  · simp only [PoolStateTracker.advance, Dict.get?_set_self, Option.map_some]
    exact congrArg some (hstate.trans (by rw [h.quotePrices]))
  · exact h.quotePrices
  · simp only [PoolStateTracker.advance, Dict.get?_set_self, Option.mem_some_iff]
    rintro state rfl
    exact hplain

/-- The step of an event on both sides. -/
theorem feed_event_mirror {pool : String} {tracker tracker' : PoolStateTracker}
    (h : Mirrors pool tracker tracker') (source : SourceEvent pool) (eventId : String)
    (tokens : Tokens) :
    (tracker'.feed (.event (source.mirror eventId) tokens)).2.toOption =
        (tracker.feed (.event source tokens)).2.toOption ∧
      Mirrors pool (tracker.feed (.event source tokens)).1
        (tracker'.feed (.event (source.mirror eventId) tokens)).1 := by
  have hevent : (source.mirror eventId).event = source.event.mirror eventId := rfl
  have hpool' : (source.event.mirror eventId).pool? = source.event.pool? := rfl
  simp only [PoolStateTracker.feed, hevent]
  cases hpool : source.event.pool? with
  | none =>
      simp only [PoolStateTracker.apply, hpool', hpool]
      exact ⟨trivial, h⟩
  | some address =>
      obtain rfl : pool = address := by
        rw [EventEnvelope.pool?, source.of_pool] at hpool
        exact Option.some.inj (Option.eq_some_of_filter_eq_some hpool)
      have hfor := poolFor_mirror h source eventId
      cases hknown : tracker.poolFor source.event pool with
      | error error =>
          cases hknown' : tracker'.poolFor (source.event.mirror eventId) pool with
          | error error' =>
              simp only [PoolStateTracker.apply, hpool', hpool, hknown, hknown', Except.map]
              exact ⟨rfl, h⟩
          | ok known' => rw [hknown, hknown'] at hfor; cases hfor
      | ok known =>
          cases hknown' : tracker'.poolFor (source.event.mirror eventId) pool with
          | error error' => rw [hknown, hknown'] at hfor; cases hfor
          | ok known' =>
              rw [hknown, hknown'] at hfor
              obtain rfl : known' = known.map PoolRecord.turned := Option.some.inj hfor
              cases known with
              | none =>
                  simp only [PoolStateTracker.apply, hpool', hpool, hknown, hknown', Except.map,
                    Option.map_none]
                  exact ⟨trivial, h⟩
              | some record =>
                  obtain ⟨hnext, hstate⟩ := h.advance record source eventId
                  rw [PoolStateTracker.apply_known hpool hknown,
                    PoolStateTracker.apply_known (hpool'.trans hpool) hknown', hstate]
                  refine ⟨congrArg some ?_, hnext⟩
                  exact reading_mirror hnext tokens source eventId _ rfl

theorem Mirrors.applyBaseSupply {pool : String} {tracker tracker' : PoolStateTracker}
    (h : Mirrors pool tracker tracker') (totalSupplyRaw : ℚ) :
    Mirrors pool (tracker.applyBaseSupply pool totalSupplyRaw).1
      (tracker'.applyBaseSupply pool totalSupplyRaw).1 := by
  cases hstate : tracker.states.get? pool with
  | none => simpa only [PoolStateTracker.applyBaseSupply, h.states, hstate, Option.map_none] using h
  | some state =>
      cases hrecord : tracker.pools.get? pool with
      | none =>
          simpa only [PoolStateTracker.applyBaseSupply, h.states, h.pools, hstate, hrecord,
            Option.map_some, Option.map_none] using h
      | some record =>
          simp only [PoolStateTracker.applyBaseSupply, h.states, h.pools, hstate, hrecord,
            Option.map_some]
          constructor
          · exact h.pools
          · simp only [Dict.get?_set_self, Option.map_some]
            rfl
          · exact h.quotePrices
          · simp only [Dict.get?_set_self, Option.mem_some_iff]
            rintro updated rfl
            exact h.plain state hstate

theorem feed_mirror {pool : String} (eventId : EventEnvelope → String)
    {tracker tracker' : PoolStateTracker} (h : Mirrors pool tracker tracker') (step : Feed pool) :
    (tracker'.feed (step.mirror eventId)).2.toOption = (tracker.feed step).2.toOption ∧
      Mirrors pool (tracker.feed step).1 (tracker'.feed (step.mirror eventId)).1 := by
  cases step with
  | event source tokens => exact feed_event_mirror h source _ tokens
  | quotePrice price =>
      exact ⟨rfl, h.pools, h.states, congrArg (·.set price.mint price) h.quotePrices, h.plain⟩
  | supply totalSupplyRaw => exact ⟨rfl, h.applyBaseSupply totalSupplyRaw⟩

theorem readings_mirror_of_mirrors {pool : String} (eventId : EventEnvelope → String)
    (steps : List (Feed pool)) {tracker tracker' : PoolStateTracker}
    (h : Mirrors pool tracker tracker') :
    (tracker'.readings (steps.map (Feed.mirror eventId))).map Except.toOption =
      (tracker.readings steps).map Except.toOption := by
  induction steps generalizing tracker tracker' with
  | nil => rfl
  | cons step steps ih =>
      obtain ⟨hreading, hnext⟩ := feed_mirror eventId h step
      simp only [List.map_cons, PoolStateTracker.readings, hreading, ih hnext]

/-- A pool that is unknown at first gives, at every step, the same reading as its mirror image: the
same target mint and decimals, reserves, price and liquidity in dollars, and the same trade. Where
one of the two events is refused, so is the other one. -/
theorem readings_mirror {pool : String} (eventId : EventEnvelope → String)
    (steps : List (Feed pool)) (tracker : PoolStateTracker)
    (hpools : tracker.pools.get? pool = none) (hstates : tracker.states.get? pool = none) :
    (tracker.readings (steps.map (Feed.mirror eventId))).map Except.toOption =
      (tracker.readings steps).map Except.toOption := by
  refine readings_mirror_of_mirrors eventId steps ⟨?_, ?_, rfl, ?_⟩
  · rw [hpools, Option.map_none]
  · rw [hstates, Option.map_none]
  · intro state hstate
    rw [hstates] at hstate
    cases hstate

/-! ## A pool of wrapped SOL, created, bought from and sold to -/

private def orientedEvent (eventType : ChainEventType) (payload : Payload) : EventEnvelope where
  eventId := "event"
  source := .heliusWss
  protocol := .pumpswap
  eventType := eventType
  slot := 1
  signature := "signature"
  blockTime := 0
  observedAt := 0
  poolAddress := some "pool"
  payload := payload

private def orientedCreation : SourceEvent "pool" where
  event := orientedEvent .poolCreated
    { baseMint := some "token", quoteMint := some wsolMint
      baseMintDecimals := some 6, quoteMintDecimals := some 9
      poolBaseAmount := some 1000000, poolQuoteAmount := some 4000000000 }
  of_pool := rfl
  one_quote _ := by
    intro base hbase quote hquote
    have htext : text (some "token") = some "token" ∧ text (some wsolMint) = some wsolMint := by
      decide +kernel
    obtain rfl : "token" = base := Option.some.inj (htext.1.symm.trans hbase)
    obtain rfl : wsolMint = quote := Option.some.inj (htext.2.symm.trans hquote)
    decide
  bought := nofun
  sold := nofun
  no_virtual := rfl
  no_supply := rfl

private def orientedBuy : SourceEvent "pool" where
  event := orientedEvent .swapBuy
    { poolBaseTokenReserves := some 500000, poolQuoteTokenReserves := some 8000000000
      baseAmountOut := some 500000, quoteAmountIn := some 4000000000, user := some "wallet" }
  of_pool := rfl
  one_quote := nofun
  bought _ := ⟨rfl, rfl⟩
  sold := nofun
  no_virtual := rfl
  no_supply := rfl

/-- Before the creation, with a price of 150 dollars. -/
private def orientedSteps : List (Feed "pool") :=
  [.event orientedBuy Dict.empty, .quotePrice ⟨wsolMint, 150, 0, by decide +kernel⟩,
    .event orientedCreation Dict.empty, .event orientedBuy Dict.empty]

theorem readings_mirror_sample :
    ((PoolStateTracker.mk Dict.empty Dict.empty Dict.empty).readings
        (orientedSteps.map (Feed.mirror fun _ => "mirrored"))).map Except.toOption =
      ((PoolStateTracker.mk Dict.empty Dict.empty Dict.empty).readings orientedSteps).map
        Except.toOption :=
  readings_mirror _ orientedSteps _ rfl rfl

end SniperBot.Features
