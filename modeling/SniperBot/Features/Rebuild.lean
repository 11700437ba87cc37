import SniperBot.Features.Recovery

/-!
# What an event does to one pool

The pool, its record and state, its registered creation and its observations, seen alone.
`PoolView.ingest` says what an event of the pool makes of it, and an applied event does exactly
that to its own pool and nothing to the others, whether the observer ran or not. Beyond the pool
an event only reads the quote price and the creator of the token.
-/

namespace SniperBot.Features

open Basis Candidates

/-! ## One pool -/

structure PoolView where
  record : Option PoolRecord
  state : Option PoolState
  created : Option Time
  trades : List TradeObservation
  liquidity : List LiquidityObservation

/-- What the memory holds of a pool, less its holders. -/
def Memory.view (memory : Memory) (address : String) : PoolView where
  record := memory.pools.pools.get? address
  state := memory.pools.states.get? address
  created := memory.features.poolCreated.get? address
  trades := memory.features.tradesOf address
  liquidity := memory.features.liquidityOf address

/-- A pool that no event was about. -/
def PoolView.unknown : PoolView where
  record := none
  state := none
  created := none
  trades := []
  liquidity := []

/-- The registered creation of a pool: the earliest one. -/
def earliest (current : Option Time) (created : Time) : Option Time :=
  match current with
  | some current => if created < current then some created else some current
  | none => some created

/-- The view after an event of the pool, whose record the event meets as `pool`. -/
def PoolView.ingest (view : PoolView) (address : String) (pool : PoolRecord)
    (price : Option QuoteAssetPrice) (creator : Option String) (event : EventEnvelope) :
    PoolView :=
  let state := poolState pool view.state price event address
  let pool := { pool with updatedAt := event.observedAt }
  { record := some pool
    state := some state
    created :=
      if event.eventType = .poolCreated ∧ event.mint?.isSome then
        earliest view.created event.blockTime
      else view.created
    trades :=
      if event.eventType.Swap ∧ state.marginalPriceUsd > 0 then
        insertOrdered (fun item => (item.eventTime, item.eventId)) view.trades
          (tradeObservation pool price creator event state)
      else view.trades
    liquidity :=
      insertOrdered (fun item => (item.eventTime, item.eventId)) view.liquidity
        (liquidityObservation event state) }

/-! ## The registry of pools -/

/-- The registry after an event of a known pool. -/
def PoolStateTracker.advance (tracker : PoolStateTracker) (pool : PoolRecord)
    (event : EventEnvelope) (address : String) : PoolStateTracker :=
  { tracker with
    pools := tracker.pools.set address { pool with updatedAt := event.observedAt }
    states := tracker.states.set address
      (poolState pool (tracker.states.get? address) (tracker.quotePrices.get? pool.quoteMint) event
        address) }

section Registry

variable {tracker pools : PoolStateTracker} {event : EventEnvelope} {state : Option PoolState}

/-- Everything that `apply` can do. -/
theorem PoolStateTracker.apply_cases (happly : tracker.apply event = .ok (pools, state)) :
    (pools = tracker ∧ state = none ∧
      ∀ address, event.pool? = some address → tracker.poolFor event address = .ok none) ∨
    ∃ address pool, event.pool? = some address ∧
      tracker.poolFor event address = .ok (some pool) ∧
      pools = tracker.advance pool event address ∧
      state = some (poolState pool (tracker.states.get? address)
        (tracker.quotePrices.get? pool.quoteMint) event address) := by
  unfold PoolStateTracker.apply at happly
  cases hpool : event.pool? with
  | none =>
      rw [hpool] at happly
      cases happly
      exact Or.inl ⟨rfl, rfl, fun _ h => nomatch h⟩
  | some address =>
      rw [hpool] at happly
      dsimp only at happly
      cases hfor : tracker.poolFor event address with
      | error error =>
          rw [hfor] at happly
          cases happly
      | ok known =>
          rw [hfor] at happly
          cases known with
          | none =>
              cases happly
              refine Or.inl ⟨rfl, rfl, ?_⟩
              intro other hother
              obtain rfl := Option.some.inj hother
              exact hfor
          | some pool =>
              cases happly
              exact Or.inr ⟨address, pool, rfl, hfor, rfl, rfl⟩

theorem PoolStateTracker.apply_known {address : String} {pool : PoolRecord}
    (hpool : event.pool? = some address) (hfor : tracker.poolFor event address = .ok (some pool)) :
    tracker.apply event =
      .ok (tracker.advance pool event address,
        some (poolState pool (tracker.states.get? address)
          (tracker.quotePrices.get? pool.quoteMint) event address)) := by
  unfold PoolStateTracker.apply
  rw [hpool]
  dsimp only
  rw [hfor]
  rfl

/-- Only a creation makes an address known, and decides the mint of its record. -/
theorem PoolStateTracker.apply_pools (happly : tracker.apply event = .ok (pools, state))
    {address : String} {pool : PoolRecord} (hget : pools.pools.get? address = some pool) :
    (∃ old, tracker.pools.get? address = some old ∧ old.baseMint = pool.baseMint) ∨
      (event.eventType = .poolCreated ∧ event.pool? = some address) ∧
        ∃ record, createdPool event address = .ok record ∧ record.baseMint = pool.baseMint := by
  rcases PoolStateTracker.apply_cases happly with ⟨rfl, -, -⟩ | ⟨own, met, hpool, hfor, rfl, -⟩
  · exact Or.inl ⟨pool, hget, rfl⟩
  · by_cases howner : own = address
    · subst howner
      obtain rfl := Option.some.inj ((Dict.get?_set_self _ _ _).symm.trans hget)
      unfold PoolStateTracker.poolFor at hfor
      split at hfor
      · rename_i hcreated
        cases hrecord : createdPool event own with
        | error error =>
            rw [hrecord] at hfor
            cases hfor
        | ok record =>
            rw [hrecord] at hfor
            obtain rfl := Option.some.inj (Except.ok.inj hfor)
            exact Or.inr ⟨⟨hcreated, hpool⟩, record, rfl, rfl⟩
      · exact Or.inl ⟨met, Except.ok.inj hfor, rfl⟩
    · exact Or.inl ⟨pool, (Dict.get?_set_ne _ howner _).symm.trans hget, rfl⟩

@[simp] theorem PoolStateTracker.advance_quotePrices (pool : PoolRecord) (address : String) :
    (tracker.advance pool event address).quotePrices = tracker.quotePrices := rfl

theorem PoolStateTracker.apply_quotePrices (happly : tracker.apply event = .ok (pools, state)) :
    pools.quotePrices = tracker.quotePrices := by
  rcases PoolStateTracker.apply_cases happly with ⟨rfl, -, -⟩ | ⟨_, _, -, -, rfl, -⟩ <;> rfl

/-- An event that the registry does not refuse. -/
theorem exists_createdPool (happly : tracker.apply event = .ok (pools, state))
    (hcreated : event.eventType = .poolCreated) {address : String}
    (hpool : event.pool? = some address) : ∃ pool, createdPool event address = .ok pool := by
  have hfor : ∃ known, tracker.poolFor event address = .ok known := by
    rcases PoolStateTracker.apply_cases happly with ⟨-, -, hfor⟩ | ⟨own, pool, hown, hfor, -, -⟩
    · exact ⟨none, hfor address hpool⟩
    · obtain rfl := Option.some.inj (hown.symm.trans hpool)
      exact ⟨some pool, hfor⟩
  obtain ⟨known, hknown⟩ := hfor
  unfold PoolStateTracker.poolFor at hknown
  rw [if_pos hcreated] at hknown
  cases hrecord : createdPool event address with
  | ok pool => exact ⟨pool, rfl⟩
  | error error =>
      rw [hrecord] at hknown
      cases hknown

/-- The registry refuses nothing but a creation. -/
theorem exists_apply (tracker : PoolStateTracker)
    (hcreated : event.eventType = .poolCreated → ∀ address, event.pool? = some address →
      ∃ pool, createdPool event address = .ok pool) :
    ∃ result, tracker.apply event = .ok result := by
  unfold PoolStateTracker.apply
  cases hpool : event.pool? with
  | none => exact ⟨_, rfl⟩
  | some address =>
      dsimp only
      unfold PoolStateTracker.poolFor
      split_ifs with hcreation
      · obtain ⟨pool, hrecord⟩ := hcreated hcreation address hpool
        rw [hrecord]
        exact ⟨_, rfl⟩
      · exact ⟨_, rfl⟩

end Registry

/-! ## The engine -/

section Engine

variable (engine : EventTimeFeatureEngine)

theorem registerPool_created (poolAddress address : String) (createdAt : Time) :
    (engine.registerPool poolAddress createdAt).poolCreated.get? address =
      if poolAddress = address then earliest (engine.poolCreated.get? address) createdAt
      else engine.poolCreated.get? address := by
  unfold EventTimeFeatureEngine.registerPool earliest
  by_cases hpool : poolAddress = address
  · subst hpool
    rw [if_pos rfl]
    cases hcurrent : engine.poolCreated.get? poolAddress with
    | none => exact Dict.get?_set_self _ _ _
    | some current =>
        dsimp only
        split_ifs
        · exact Dict.get?_set_self _ _ _
        · exact hcurrent
  · rw [if_neg hpool]
    cases engine.poolCreated.get? poolAddress with
    | none => exact Dict.get?_set_ne _ hpool _
    | some current =>
        dsimp only
        split_ifs
        · exact Dict.get?_set_ne _ hpool _
        · rfl

theorem registerPool_rest (poolAddress : String) (createdAt : Time) :
    (engine.registerPool poolAddress createdAt).trades = engine.trades ∧
      (engine.registerPool poolAddress createdAt).liquidity = engine.liquidity ∧
      (engine.registerPool poolAddress createdAt).seen = engine.seen := by
  unfold EventTimeFeatureEngine.registerPool
  split
  · split_ifs <;> exact ⟨rfl, rfl, rfl⟩
  · exact ⟨rfl, rfl, rfl⟩

theorem tradesOf_ingestTrade (event : TradeObservation) (address : String)
    (hnew : event.eventId ∉ engine.seen) :
    (engine.ingestTrade event).tradesOf address =
      if event.poolAddress = address then
        insertOrdered (fun item => (item.eventTime, item.eventId)) (engine.tradesOf address) event
      else engine.tradesOf address := by
  unfold EventTimeFeatureEngine.ingestTrade EventTimeFeatureEngine.tradesOf
  rw [if_neg hnew]
  dsimp only
  rw [Dict.get?_set]
  by_cases hpool : event.poolAddress = address
  · rw [if_pos hpool, if_pos hpool, hpool, Option.getD_some]
  · rw [if_neg hpool, if_neg hpool]

theorem liquidityOf_ingestLiquidity (event : LiquidityObservation) (address : String)
    (hnew : event.eventId ∉ engine.seen) :
    (engine.ingestLiquidity event).liquidityOf address =
      if event.poolAddress = address then
        insertOrdered (fun item => (item.eventTime, item.eventId)) (engine.liquidityOf address) event
      else engine.liquidityOf address := by
  unfold EventTimeFeatureEngine.ingestLiquidity EventTimeFeatureEngine.liquidityOf
  rw [if_neg hnew]
  dsimp only
  rw [Dict.get?_set]
  by_cases hpool : event.poolAddress = address
  · rw [if_pos hpool, if_pos hpool, hpool, Option.getD_some]
  · rw [if_neg hpool, if_neg hpool]

/-- An observation of another pool is not one of this pool, new or not. -/
theorem tradesOf_ingestTrade_ne (event : TradeObservation) {address : String}
    (hpool : event.poolAddress ≠ address) :
    (engine.ingestTrade event).tradesOf address = engine.tradesOf address := by
  by_cases hnew : event.eventId ∈ engine.seen
  · rw [EventTimeFeatureEngine.ingestTrade, if_pos hnew]
  · rw [tradesOf_ingestTrade engine event address hnew, if_neg hpool]

theorem liquidityOf_ingestLiquidity_ne (event : LiquidityObservation) {address : String}
    (hpool : event.poolAddress ≠ address) :
    (engine.ingestLiquidity event).liquidityOf address = engine.liquidityOf address := by
  by_cases hnew : event.eventId ∈ engine.seen
  · rw [EventTimeFeatureEngine.ingestLiquidity, if_pos hnew]
  · rw [liquidityOf_ingestLiquidity engine event address hnew, if_neg hpool]

theorem ingestTrade_rest (event : TradeObservation) :
    (engine.ingestTrade event).poolCreated = engine.poolCreated ∧
      (engine.ingestTrade event).liquidity = engine.liquidity := by
  unfold EventTimeFeatureEngine.ingestTrade
  split_ifs <;> exact ⟨rfl, rfl⟩

theorem ingestLiquidity_rest (event : LiquidityObservation) :
    (engine.ingestLiquidity event).poolCreated = engine.poolCreated ∧
      (engine.ingestLiquidity event).trades = engine.trades := by
  unfold EventTimeFeatureEngine.ingestLiquidity
  split_ifs <;> exact ⟨rfl, rfl⟩

theorem ingestHolders_rest (event : HolderObservation) :
    (engine.ingestHolders event).poolCreated = engine.poolCreated ∧
      (engine.ingestHolders event).trades = engine.trades ∧
      (engine.ingestHolders event).liquidity = engine.liquidity := by
  unfold EventTimeFeatureEngine.ingestHolders
  split_ifs <;> exact ⟨rfl, rfl, rfl⟩

/-- An ingestion adds its own id at most. -/
theorem mem_seen_ingest (id : String) :
    (∀ event, id ∈ (engine.ingestTrade event).seen → id ∈ engine.seen ∨ id = event.eventId) ∧
      (∀ event, id ∈ (engine.ingestLiquidity event).seen →
        id ∈ engine.seen ∨ id = event.eventId) ∧
      ∀ event, id ∈ (engine.ingestHolders event).seen →
        id ∈ engine.seen ∨ id = event.eventId := by
  refine ⟨?_, ?_, ?_⟩ <;> intro event hid
  · unfold EventTimeFeatureEngine.ingestTrade at hid
    split_ifs at hid
    · exact Or.inl hid
    · simpa using hid
  · unfold EventTimeFeatureEngine.ingestLiquidity at hid
    split_ifs at hid
    · exact Or.inl hid
    · simpa using hid
  · unfold EventTimeFeatureEngine.ingestHolders at hid
    split_ifs at hid
    · exact Or.inl hid
    · simpa using hid

end Engine

/-! ## Applying an event -/

/-- The event was applied, and `flag` is the same-funder flag that its trade took. -/
def Applies (config : FilterConfig) (memory : Memory) (event : EventEnvelope) (flag : Bool)
    (outcome : Memory × Option Candidate) : Prop :=
  ∃ pools state wallets, memory.pools.apply event = .ok (pools, state) ∧
    outcome = applyEffective config { memory with wallets := wallets } pools state
      ((effectiveEvent (event.pool?.bind pools.pools.get?) event).withSameFunder flag)

section Apply

variable {config : FilterConfig} {memory : Memory} {event : EventEnvelope} {flag : Bool}
  {outcome : Memory × Option Candidate} {address : String}

theorem applies_of_unobserved (happly : applyUnobserved config memory event = .ok outcome) :
    Applies config memory event event.payload.sameFunderCluster outcome := by
  unfold applyUnobserved at happly
  cases hpools : memory.pools.apply event with
  | error error =>
      rw [hpools] at happly
      cases happly
  | ok result =>
      obtain ⟨pools, state⟩ := result
      rw [hpools] at happly
      obtain rfl := Except.ok.inj happly
      refine ⟨pools, state, memory.wallets, hpools, ?_⟩
      dsimp only
      congr 1
      cases event.pool?.bind pools.pools.get? <;> rfl

/-- The observer only decides the flag. -/
theorem applies_of_observed (happly : applyObserved config memory event = .ok outcome) :
    ∃ pools state, memory.pools.apply event = .ok (pools, state) ∧
      Applies config memory event
        (sameFunderFlag memory.wallets
          (effectiveEvent (event.pool?.bind pools.pools.get?) event)) outcome := by
  unfold applyObserved at happly
  cases hpools : memory.pools.apply event with
  | error error =>
      rw [hpools] at happly
      cases happly
  | ok result =>
      obtain ⟨pools, state⟩ := result
      rw [hpools] at happly
      obtain rfl := Except.ok.inj happly
      exact ⟨pools, state, rfl, pools, state, _, hpools, rfl⟩

/-- The features after an event of a known pool. -/
theorem features_ingest (pools : PoolStateTracker) (tokens : Tokens)
    (features : EventTimeFeatureEngine) (event : EventEnvelope) (state : PoolState) :
    (ingestPoolFeatures pools tokens features event state).poolCreated = features.poolCreated ∧
      ∀ id ∈ (ingestPoolFeatures pools tokens features event state).seen,
        id ∈ features.seen ∨ id = event.eventId ++ ":liquidity" ∨
          id = event.eventId ++ ":trade" := by
  unfold ingestPoolFeatures
  dsimp only
  have hcreated := (ingestLiquidity_rest features (liquidityObservation event state)).1
  have hseen := fun id => (mem_seen_ingest features id).2.1 (liquidityObservation event state)
  split
  · exact ⟨hcreated, fun id hid => (hseen id hid).imp_right Or.inl⟩
  · split_ifs
    · refine ⟨(ingestTrade_rest _ _).1.trans hcreated, ?_⟩
      intro id hid
      rcases (mem_seen_ingest _ _).1 _ hid with hold | htrade
      · exact (hseen id hold).imp_right Or.inl
      · exact Or.inr (Or.inr htrade)
    · exact ⟨hcreated, fun id hid => (hseen id hid).imp_right Or.inl⟩

/-- The observations of another pool are as before. -/
theorem features_ingest_ne (pools : PoolStateTracker) (tokens : Tokens)
    (features : EventTimeFeatureEngine) (event : EventEnvelope) (state : PoolState)
    (hpool : state.poolAddress ≠ address) :
    (ingestPoolFeatures pools tokens features event state).tradesOf address =
        features.tradesOf address ∧
      (ingestPoolFeatures pools tokens features event state).liquidityOf address =
        features.liquidityOf address := by
  have htrades : (features.ingestLiquidity (liquidityObservation event state)).tradesOf address =
      features.tradesOf address := by
    unfold EventTimeFeatureEngine.tradesOf
    rw [(ingestLiquidity_rest features _).2]
  have hliquidity := liquidityOf_ingestLiquidity_ne features (liquidityObservation event state) hpool
  unfold ingestPoolFeatures
  dsimp only
  split
  · exact ⟨htrades, hliquidity⟩
  · split_ifs
    · refine ⟨(tradesOf_ingestTrade_ne _ _ hpool).trans htrades, ?_⟩
      unfold EventTimeFeatureEngine.liquidityOf
      rw [(ingestTrade_rest _ _).2]
      exact hliquidity
    · exact ⟨htrades, hliquidity⟩

/-- The two observations of an event have different ids, whichever the events are. -/
theorem trade_ne_liquidity (id other : String) : id ++ ":trade" ≠ other ++ ":liquidity" := by
  intro h
  have hlast := congrArg (fun name => name.toList.getLast?) h
  simp at hlast

/-- New observations of a pool are inserted. -/
theorem features_ingest_eq (pools : PoolStateTracker) (tokens : Tokens)
    (features : EventTimeFeatureEngine) (event : EventEnvelope) (state : PoolState)
    (address : String) {pool : PoolRecord} (haddress : state.poolAddress = address)
    (hget : pools.pools.get? address = some pool)
    (hliquidity : event.eventId ++ ":liquidity" ∉ features.seen)
    (htrade : event.eventId ++ ":trade" ∉ features.seen) :
    (ingestPoolFeatures pools tokens features event state).tradesOf address =
        (if event.eventType.Swap ∧ state.marginalPriceUsd > 0 then
          insertOrdered (fun item => (item.eventTime, item.eventId)) (features.tradesOf address)
            (tradeObservation pool (pools.quotePrices.get? pool.quoteMint)
              (creatorOf tokens state.baseMint) event state)
        else features.tradesOf address) ∧
      (ingestPoolFeatures pools tokens features event state).liquidityOf address =
        insertOrdered (fun item => (item.eventTime, item.eventId)) (features.liquidityOf address)
          (liquidityObservation event state) := by
  have hfirst := liquidityOf_ingestLiquidity features (liquidityObservation event state) address
    hliquidity
  rw [if_pos (show (liquidityObservation event state).poolAddress = address from haddress)] at hfirst
  have hkept : (features.ingestLiquidity (liquidityObservation event state)).tradesOf address =
      features.tradesOf address := by
    unfold EventTimeFeatureEngine.tradesOf
    rw [(ingestLiquidity_rest features _).2]
  unfold ingestPoolFeatures
  rw [haddress, hget]
  dsimp only
  split_ifs
  · have hnew : event.eventId ++ ":trade" ∉
        (features.ingestLiquidity (liquidityObservation event state)).seen := by
      intro hmem
      rcases (mem_seen_ingest features _).2.1 _ hmem with hold | hsame
      · exact htrade hold
      · exact trade_ne_liquidity _ _ hsame
    refine ⟨?_, ?_⟩
    · rw [tradesOf_ingestTrade _ _ _ hnew, hkept]
      exact if_pos haddress
    · unfold EventTimeFeatureEngine.liquidityOf
      rw [(ingestTrade_rest _ _).2]
      exact hfirst
  · exact ⟨hkept, hfirst⟩

theorem registerCreated_rest (features : EventTimeFeatureEngine) (event : EventEnvelope) :
    (registerCreated features event).trades = features.trades ∧
      (registerCreated features event).liquidity = features.liquidity ∧
      (registerCreated features event).seen = features.seen := by
  unfold registerCreated
  split
  · split_ifs
    · exact registerPool_rest _ _ _
    · exact ⟨rfl, rfl, rfl⟩
  · exact ⟨rfl, rfl, rfl⟩

theorem registerCreated_created (features : EventTimeFeatureEngine) (event : EventEnvelope)
    (address : String) :
    (registerCreated features event).poolCreated.get? address =
      if event.pool? = some address ∧ event.eventType = .poolCreated ∧ event.mint?.isSome then
        earliest (features.poolCreated.get? address) event.blockTime
      else features.poolCreated.get? address := by
  unfold registerCreated
  cases hpool : event.pool? with
  | none => simp
  | some own =>
      cases hmint : event.mint? with
      | none => simp
      | some mint =>
          dsimp only
          by_cases hcreated : event.eventType = .poolCreated
          · rw [if_pos hcreated, registerPool_created]
            simp [hcreated]
          · rw [if_neg hcreated]
            simp [hcreated]

@[simp] theorem pool?_effective (pool : Option PoolRecord) (event : EventEnvelope) (flag : Bool) :
    ((effectiveEvent pool event).withSameFunder flag).pool? = event.pool? := by
  cases pool <;> rfl

/-- An event leaves the other pools alone. -/
theorem Applies.view_of_ne (happlies : Applies config memory event flag outcome)
    (hother : event.pool? ≠ some address) : outcome.1.view address = memory.view address := by
  obtain ⟨pools, state, wallets, happly, rfl⟩ := happlies
  have hpool := pool?_effective (event.pool?.bind pools.pools.get?) event flag
  generalize (effectiveEvent (event.pool?.bind pools.pools.get?) event).withSameFunder flag =
    effective at hpool ⊢
  have hregistered := registerCreated_rest memory.features effective
  have hcreated := registerCreated_created memory.features effective address
  rw [hpool, if_neg fun h => hother h.1] at hcreated
  have htrades : (registerCreated memory.features effective).tradesOf address =
      memory.features.tradesOf address := by
    unfold EventTimeFeatureEngine.tradesOf
    rw [hregistered.1]
  have hliquidity : (registerCreated memory.features effective).liquidityOf address =
      memory.features.liquidityOf address := by
    unfold EventTimeFeatureEngine.liquidityOf
    rw [hregistered.2.1]
  unfold Memory.view applyEffective
  rcases PoolStateTracker.apply_cases happly with ⟨rfl, rfl, -⟩ | ⟨own, pool, hown, -, rfl, rfl⟩
  · dsimp only
    rw [hcreated, htrades, hliquidity]
  · have hne : own ≠ address := fun heq => hother (heq ▸ hown)
    obtain ⟨hfirst, hsecond⟩ := features_ingest_ne (memory.pools.advance pool event own)
      (applyToken memory.tokens effective).1 (registerCreated memory.features effective) effective
      (poolState pool (memory.pools.states.get? own)
        (memory.pools.quotePrices.get? pool.quoteMint) event own) hne
    dsimp only
    rw [hfirst, hsecond, htrades, hliquidity, (features_ingest _ _ _ _ _).1, hcreated]
    unfold PoolStateTracker.advance
    dsimp only
    rw [Dict.get?_set_ne _ hne, Dict.get?_set_ne _ hne]

/-- The creator of a token changes only when the token is created. -/
theorem creatorOf_applyToken (tokens : Tokens) (event : EventEnvelope) (mint : String) :
    creatorOf (applyToken tokens event).1 mint =
      if event.eventType = .tokenCreated ∧ event.mint = some mint ∧ mint ≠ "" then
        text (orText event.payload.creator event.payload.user)
      else creatorOf tokens mint := by
  have hafter : ∀ token : TokenRecord, (token.after event).creatorAddress = token.creatorAddress := by
    intro token
    unfold TokenRecord.after
    split <;> try rfl
    split_ifs <;> rfl
  unfold creatorOf applyToken
  cases hmint : event.mint with
  | none => simp
  | some own =>
      dsimp only
      by_cases howner : own = mint
      · subst howner
        rw [Dict.get?_set_self, Option.bind_some]
        by_cases hcreated : event.eventType = .tokenCreated ∧ own ≠ ""
        · rw [if_pos hcreated, if_pos ⟨hcreated.1, rfl, hcreated.2⟩]
          rfl
        · rw [if_neg hcreated, if_neg fun h => hcreated ⟨h.1, h.2.2⟩, hafter]
          cases tokens.get? own <;> rfl
      · rw [Dict.get?_set_ne _ howner, if_neg fun h => howner (Option.some.inj h.2.1)]

theorem view_applyEffective (event : EventEnvelope) {pool : PoolRecord}
    (hpool : event.pool? = some address)
    (hliquidity : event.eventId ++ ":liquidity" ∉ memory.features.seen)
    (htrade : event.eventId ++ ":trade" ∉ memory.features.seen) (wallets : WalletAnalyzer) :
    (applyEffective config { memory with wallets := wallets }
        (memory.pools.advance pool event address)
        (some (poolState pool (memory.pools.states.get? address)
          (memory.pools.quotePrices.get? pool.quoteMint) event address)) event).1.view address =
      (memory.view address).ingest address pool (memory.pools.quotePrices.get? pool.quoteMint)
        (creatorOf memory.tokens pool.baseMint) event := by
  have hregistered := registerCreated_rest memory.features event
  have hcreated := registerCreated_created memory.features event address
  have hget : (memory.pools.advance pool event address).pools.get? address =
      some { pool with updatedAt := event.observedAt } := Dict.get?_set_self _ _ _
  have hstate : (memory.pools.advance pool event address).states.get? address =
      some (poolState pool (memory.pools.states.get? address)
        (memory.pools.quotePrices.get? pool.quoteMint) event address) := Dict.get?_set_self _ _ _
  obtain ⟨htrades, hobserved⟩ := features_ingest_eq (memory.pools.advance pool event address)
    (applyToken memory.tokens event).1 (registerCreated memory.features event) event
    (poolState pool (memory.pools.states.get? address)
      (memory.pools.quotePrices.get? pool.quoteMint) event address) address rfl hget
    (hregistered.2.2 ▸ hliquidity) (hregistered.2.2 ▸ htrade)
  have hswap : event.eventType.Swap → event.eventType ≠ .tokenCreated := by
    rintro (h | h) <;> simp [h]
  have hcreator : event.eventType.Swap → creatorOf (applyToken memory.tokens event).1 pool.baseMint =
      creatorOf memory.tokens pool.baseMint := by
    intro h
    rw [creatorOf_applyToken, if_neg fun hcreation => hswap h hcreation.1]
  unfold Memory.view applyEffective PoolView.ingest
  dsimp only
  rw [hget, hstate, htrades, hobserved, (features_ingest _ _ _ _ _).1, hcreated]
  unfold EventTimeFeatureEngine.tradesOf EventTimeFeatureEngine.liquidityOf
  rw [hregistered.1, hregistered.2.1]
  congr 1
  · simp only [hpool, true_and]
  · split_ifs with hcase
    · rw [show (poolState pool (memory.pools.states.get? address)
        (memory.pools.quotePrices.get? pool.quoteMint) event address).baseMint = pool.baseMint
        from rfl, hcreator hcase.1]
      rfl
    · rfl

/-- An event of a known pool does what `ingest` says, if its observations are new. -/
theorem Applies.view_of_eq (happlies : Applies config memory event flag outcome)
    (hpool : event.pool? = some address) {pool : PoolRecord}
    (hfor : memory.pools.poolFor event address = .ok (some pool))
    (hliquidity : event.eventId ++ ":liquidity" ∉ memory.features.seen)
    (htrade : event.eventId ++ ":trade" ∉ memory.features.seen) :
    outcome.1.view address = (memory.view address).ingest address pool
      (memory.pools.quotePrices.get? pool.quoteMint) (creatorOf memory.tokens pool.baseMint)
      ((effectiveEvent (some pool) event).withSameFunder flag) := by
  obtain ⟨pools, state, wallets, happly, rfl⟩ := happlies
  rw [PoolStateTracker.apply_known hpool hfor] at happly
  cases happly
  have hrecord : event.pool?.bind (memory.pools.advance pool event address).pools.get? =
      some { pool with updatedAt := event.observedAt } := by
    rw [hpool]
    exact Dict.get?_set_self _ _ _
  rw [hrecord]
  exact view_applyEffective ((effectiveEvent (some pool) event).withSameFunder flag)
    ((pool?_effective _ _ _).trans hpool) hliquidity htrade wallets

/-- What an event reads beyond its pool, and what it adds to the ids. -/
theorem Applies.rest (happlies : Applies config memory event flag outcome) :
    outcome.1.pools.quotePrices = memory.pools.quotePrices ∧
      (∀ address pool, outcome.1.pools.pools.get? address = some pool →
        (∃ old, memory.pools.pools.get? address = some old ∧ old.baseMint = pool.baseMint) ∨
          (event.eventType = .poolCreated ∧ event.pool? = some address) ∧
            ∃ record, createdPool event address = .ok record ∧
              record.baseMint = pool.baseMint) ∧
      ∀ id ∈ outcome.1.features.seen, id ∈ memory.features.seen ∨
        id = event.eventId ++ ":liquidity" ∨ id = event.eventId ++ ":trade" := by
  obtain ⟨pools, state, wallets, happly, rfl⟩ := happlies
  refine ⟨PoolStateTracker.apply_quotePrices happly,
    fun address pool hget => PoolStateTracker.apply_pools happly hget, ?_⟩
  intro id hid
  have hsame : ∀ pool,
      ((effectiveEvent pool event).withSameFunder flag).eventId = event.eventId := by
    intro pool
    cases pool <;> rfl
  have hregistered := (registerCreated_rest memory.features
    ((effectiveEvent (event.pool?.bind pools.pools.get?) event).withSameFunder flag)).2.2
  unfold applyEffective at hid
  cases state with
  | none => exact Or.inl (hregistered ▸ hid)
  | some state =>
      rcases (features_ingest _ _ _ _ _).2 id hid with hold | hnew
      · exact Or.inl (hregistered ▸ hold)
      · rw [hsame] at hnew
        exact Or.inr hnew

/-- The creator of a token, when its creations name no known pool. -/
theorem Applies.creatorOf (happlies : Applies config memory event flag outcome)
    (hcurve : event.eventType = .tokenCreated → event.pool?.bind memory.pools.pools.get? = none)
    (mint : String) :
    creatorOf outcome.1.tokens mint =
      if event.eventType = .tokenCreated ∧ event.mint = some mint ∧ mint ≠ "" then
        text (orText event.payload.creator event.payload.user)
      else creatorOf memory.tokens mint := by
  obtain ⟨pools, state, wallets, happly, rfl⟩ := happlies
  refine (creatorOf_applyToken memory.tokens _ mint).trans ?_
  have htype : ∀ pool,
      ((effectiveEvent pool event).withSameFunder flag).eventType = event.eventType := by
    intro pool
    cases pool <;> rfl
  rw [htype]
  by_cases hcreated : event.eventType = .tokenCreated
  · have hnone : event.pool?.bind pools.pools.get? = none := by
      cases hget : event.pool?.bind pools.pools.get? with
      | none => rfl
      | some pool =>
          obtain ⟨address, haddress, hpool⟩ := Option.bind_eq_some_iff.mp hget
          rcases PoolStateTracker.apply_pools happly hpool with ⟨old, hold, -⟩ | ⟨⟨hcreation, -⟩, -⟩
          · have hknown := hcurve hcreated
            rw [haddress, Option.bind_some, hold] at hknown
            cases hknown
          · rw [hcreated] at hcreation
            cases hcreation
    rw [hnone]
    rfl
  · rw [if_neg fun h => hcreated h.1, if_neg fun h => hcreated h.1]

/-- The candidate of a creation, which the event alone decides. -/
def candidateOf (config : FilterConfig) (event : EventEnvelope) : Option Candidate :=
  match event.pool? with
  | none => none
  | some address =>
      match createdPool event address with
      | .error _ => none
      | .ok pool => createdCandidate config (some pool) (effectiveEvent (some pool) event)

theorem createdCandidate_spec {pool : Option PoolRecord} {candidate : Candidate}
    (h : createdCandidate config pool event = some candidate) :
    event.eventType = .poolCreated ∧ event.pool? = some candidate.poolAddress := by
  unfold createdCandidate at h
  split at h
  · rename_i haddress hmint
    split_ifs at h with hcase
    obtain rfl := Option.some.inj h
    exact ⟨hcase.2.2, haddress⟩
  · cases h

theorem createdCandidate_updatedAt (pool : PoolRecord) (updatedAt : Time) (event : EventEnvelope) :
    createdCandidate config (some { pool with updatedAt := updatedAt }) event =
      createdCandidate config (some pool) event := by
  unfold createdCandidate
  cases event.pool? <;> cases event.mint? <;> rfl

theorem Applies.candidate (happlies : Applies config memory event flag outcome) :
    outcome.2 = candidateOf config event := by
  obtain ⟨pools, state, wallets, happly, rfl⟩ := happlies
  have hsame : ∀ pool known, createdCandidate config known
      ((effectiveEvent pool event).withSameFunder flag) =
        createdCandidate config known (effectiveEvent pool event) := fun _ _ => rfl
  have hnot : event.eventType ≠ .poolCreated → ∀ pool known,
      createdCandidate config known (effectiveEvent pool event) = none := by
    intro hother pool known
    cases hcandidate : createdCandidate config known (effectiveEvent pool event) with
    | none => rfl
    | some candidate =>
        refine absurd (createdCandidate_spec hcandidate).1 ?_
        cases pool <;> exact hother
  unfold applyEffective candidateOf
  dsimp only
  rw [pool?_effective, hsame]
  cases hpool : event.pool? with
  | none => rfl
  | some address =>
      dsimp only
      by_cases hcreated : event.eventType = .poolCreated
      · rcases PoolStateTracker.apply_cases happly with ⟨-, -, hfor⟩ | ⟨own, pool, hown, hfor, rfl, -⟩
        · have hnone := hfor address hpool
          unfold PoolStateTracker.poolFor at hnone
          rw [if_pos hcreated] at hnone
          cases hrecord : createdPool event address <;> rw [hrecord] at hnone <;> cases hnone
        · obtain rfl := Option.some.inj (hpool.symm.trans hown)
          unfold PoolStateTracker.poolFor at hfor
          rw [if_pos hcreated] at hfor
          cases hrecord : createdPool event address with
          | error error =>
              rw [hrecord] at hfor
              cases hfor
          | ok record =>
              rw [hrecord] at hfor
              cases hfor
              rw [Option.bind_some]
              unfold PoolStateTracker.advance
              dsimp only
              rw [Dict.get?_set_self, createdCandidate_updatedAt]
              rfl
      · rw [hnot hcreated]
        cases createdPool event address with
        | error error => rfl
        | ok record => exact (hnot hcreated _ _).symm

theorem touchCandidate_kept {μ : Type} (kept : Candidate → μ)
    (hkept : ∀ candidate updatedAt, kept { candidate with updatedAt := updatedAt } = kept candidate)
    (candidates : Dict String Candidate) (event : EventEnvelope) (id : String) :
    ((touchCandidate config candidates event).get? id).map kept =
      (candidates.get? id).map kept := by
  unfold touchCandidate
  split
  · rw [Dict.get?_update]
    split_ifs
    · rw [Option.map_map]
      exact congrArg (fun f => Option.map f (candidates.get? id)) (funext fun c => hkept c _)
    · rfl
  · rfl

/-- What an event makes of the candidates: one more at most, and a new time. -/
theorem Applies.candidates {μ : Type} (happlies : Applies config memory event flag outcome)
    (kept : Candidate → μ)
    (hkept : ∀ candidate updatedAt, kept { candidate with updatedAt := updatedAt } = kept candidate)
    (id : String) :
    (outcome.1.candidates.get? id).map kept =
      match outcome.2 with
      | some candidate =>
          if candidate.candidateId = id then
            some (((memory.candidates.get? id).map kept).getD (kept candidate))
          else (memory.candidates.get? id).map kept
      | none => (memory.candidates.get? id).map kept := by
  obtain ⟨pools, state, wallets, happly, rfl⟩ := happlies
  generalize (effectiveEvent (event.pool?.bind pools.pools.get?) event).withSameFunder flag =
    effective
  unfold applyEffective
  dsimp only
  have hdefault : ∀ candidate : Candidate,
      ((memory.candidates.setDefault candidate.candidateId candidate).get? id).map kept =
        if candidate.candidateId = id then
          some (((memory.candidates.get? id).map kept).getD (kept candidate))
        else (memory.candidates.get? id).map kept := by
    intro candidate
    by_cases hid : candidate.candidateId = id
    · rw [if_pos hid, ← hid, Dict.get?_setDefault]
      cases memory.candidates.get? candidate.candidateId <;> rfl
    · rw [if_neg hid]
      unfold Dict.setDefault
      split_ifs
      · rfl
      · rw [Dict.get?_set_ne _ hid]
  cases createdCandidate config (effective.pool?.bind pools.pools.get?) effective with
  | none =>
      dsimp only
      split_ifs
      · exact touchCandidate_kept kept hkept _ _ _
      · rfl
  | some candidate =>
      dsimp only
      split_ifs with htoken hid hid
      · rw [touchCandidate_kept kept hkept, hdefault, if_pos hid]
      · rw [touchCandidate_kept kept hkept, hdefault, if_neg hid]
      · rw [hdefault, if_pos hid]
      · rw [hdefault, if_neg hid]

/-- A known pool stays known, and a creation makes its pool known. -/
theorem Applies.known (happlies : Applies config memory event flag outcome)
    (hknown : (∃ pool, memory.pools.pools.get? address = some pool) ∨
      event.eventType = .poolCreated ∧ event.pool? = some address) :
    ∃ pool, outcome.1.pools.pools.get? address = some pool := by
  obtain ⟨pools, state, wallets, happly, rfl⟩ := happlies
  show ∃ pool, pools.pools.get? address = some pool
  rcases PoolStateTracker.apply_cases happly with ⟨rfl, -, hfor⟩ | ⟨own, met, hown, -, rfl, -⟩
  · rcases hknown with hold | ⟨hcreated, hpool⟩
    · exact hold
    · obtain ⟨pool, hrecord⟩ := exists_createdPool happly hcreated hpool
      have hnone := hfor address hpool
      unfold PoolStateTracker.poolFor at hnone
      rw [if_pos hcreated, hrecord] at hnone
      cases hnone
  · by_cases howner : own = address
    · subst howner
      exact ⟨_, Dict.get?_set_self _ _ _⟩
    · unfold PoolStateTracker.advance
      dsimp only
      rw [Dict.get?_set_ne _ howner]
      exact hknown.resolve_right fun h => howner (Option.some.inj (hown.symm.trans h.2))

end Apply

end SniperBot.Features
