import SniperBot.Exits.Inputs

/-!
# The pool of a position, alone

`OwnView` is what the decisions about one position read, when the first candidate of its mint is
that of its own pool: the pool less the flags of its trades, the quote prices, the creator of the
token, the candidates of the pool and the momentum windows. It follows a step function of its own,
which the steps about other pools do not move; so two runs that agree in the steps of the pool
decide alike.
-/

namespace SniperBot.Exits

open Basis Ledger Features Candidates

/-! ## The view -/

/-- The events that the view follows: those of the pool, and the creations of the token. -/
def Concerns (own mint : String) (event : EventEnvelope) : Prop :=
  event.pool? = some own ∨ (event.eventType = .tokenCreated ∧ event.mint = some mint)

instance (own mint : String) (event : EventEnvelope) : Decidable (Concerns own mint event) :=
  inferInstanceAs (Decidable (_ ∨ _))

/-- The id of an observation of the supply of the pool. -/
def SupplyId (own id : String) : Prop := ∃ supply, id = own ++ ":supply:" ++ supply

/-- A pool less its creation and the flags of its trades. -/
def barePool (pool : PoolView) : PoolView :=
  { pool with created := none, trades := pool.trades.map bareTrade }

structure OwnView where
  pool : PoolView
  quotePrices : Dict String QuoteAssetPrice
  creator : Option String
  /-- what the filter reads of the candidate of the pool and a mint -/
  candidates : String → Option (Time × CandidateState)
  /-- the ids of the processed events that the view follows -/
  processed : Set String
  /-- the ids of the supplies that were observed -/
  supplied : Set String
  windows : Option Int

/-- What the filter reads of the candidates of the pool; `known` are the pairs of a mint and a pool
that occur, whose ids are distinct. -/
def ownKeys (config : FilterConfig) (known : List (String × String)) (own : String)
    (candidates : Dict String Candidate) (other : String) : Option (Time × CandidateState) :=
  if (other, own) ∈ known then (candidates.get? (config.candidateId other own)).map filterKey
  else none

def IdsApart (config : FilterConfig) (known : List (String × String)) : Prop :=
  ∀ pair ∈ known, ∀ other ∈ known,
    config.candidateId pair.1 pair.2 = config.candidateId other.1 other.2 → pair = other

instance (config : FilterConfig) (known : List (String × String)) :
    Decidable (IdsApart config known) :=
  inferInstanceAs (Decidable (∀ _ ∈ _, _))

section View

variable (config : PipelineConfig) (known : List (String × String)) (own mint positionId : String)

def ownView (s : ExitProcess) : OwnView where
  pool := barePool (s.live.memory.view own)
  quotePrices := s.live.memory.pools.quotePrices
  creator := creatorOf s.live.memory.tokens mint
  candidates := ownKeys config.toFilterConfig known own s.live.memory.candidates
  processed :=
    { id | ∃ entry ∈ s.live.log, entry.event.eventId = id ∧ Concerns own mint entry.event }
  supplied := { id | id ∈ s.live.memory.features.seen ∧ SupplyId own id }
  windows := s.momentumWindows.get? positionId

end View

/-! ## Its steps -/

namespace OwnView

variable (config : PipelineConfig) (own mint : String) (view : OwnView) (event : EventEnvelope)

/-- `_event_state_filter_reason` for an event of the pool. -/
def filterReason : Option FilterReason :=
  if ¬ event.eventType.Swap then none
  else match view.pool.record with
    | none => some .unknownPool
    | some record =>
        match view.candidates record.baseMint with
        | none => some .noCandidate
        | some key => candidateFilterReason config.toFilterConfig
            { candidateId := "", mint := "", poolAddress := "", updatedAt := 0
              detectedAt := key.1, state := key.2 } event.blockTime

/-- The record that an event of the pool meets. -/
def knows : Except RegistryError (Option PoolRecord) :=
  if event.eventType = .poolCreated then (createdPool event own).map some
  else .ok view.pool.record

/-- An event is noted, and a creation of the token names its creator. -/
def noted : OwnView :=
  { view with processed := insert event.eventId view.processed }

def learned : OwnView :=
  { view with
    creator :=
      if event.eventType = .tokenCreated ∧ event.mint = some mint ∧ mint ≠ "" then
        text (orText event.payload.creator event.payload.user)
      else view.creator }

/-- The candidates of the pool after a creation. -/
def candidatesAfter (other : String) : Option (Time × CandidateState) :=
  match candidateOf config.toFilterConfig event with
  | some candidate =>
      if candidate.mint = other then some ((view.candidates other).getD (filterKey candidate))
      else view.candidates other
  | none => view.candidates other

/-- An event of the pool that passes the filter. -/
def apply : OwnView :=
  match view.knows own event with
  | .error _ => view
  | .ok none => (view.noted event).learned mint event
  | .ok (some record) =>
      { (view.noted event).learned mint event with
        pool := barePool (view.pool.ingest own record (view.quotePrices.get? record.quoteMint) none
          event)
        candidates := view.candidatesAfter config event }

open Classical in
/-- `process_event` -/
noncomputable def deliver : OwnView :=
  if event.eventId ∈ view.processed then view
  else if event.pool? = some own then
    if (view.filterReason config event).isSome then view.noted event
    else view.apply config own mint event
  else (view.noted event).learned mint event

open Classical in
/-- `update_pool_supply` -/
noncomputable def supply (totalSupplyRaw : ℚ) (observedAt : Time) : OwnView :=
  match view.pool.state, view.pool.record with
  | some state, some record =>
      let updated :=
        { state with
          baseSupplyRaw := some totalSupplyRaw
          marketCapEstimateUsd :=
            if state.marginalPriceUsd > 0 then
              some (totalSupplyRaw / 10 ^ record.baseDecimals * state.marginalPriceUsd)
            else none }
      let id := own ++ ":supply:" ++ config.normalized totalSupplyRaw
      { view with
        supplied := insert id view.supplied
        pool :=
          { view.pool with
            state := some updated
            liquidity :=
              if id ∈ view.supplied then view.pool.liquidity
              else insertOrdered (fun item => (item.eventTime, item.eventId)) view.pool.liquidity
                { eventId := id, poolAddress := own, eventTime := observedAt
                  quoteLiquidityUsd := max updated.quoteReserveUsd 0
                  marketCapUsd := updated.marketCapEstimateUsd } } }
  | _, _ => view

/-- `self.candidates[candidate_id] = candidate` for a later version of a candidate of the pool. -/
def setCandidate (candidate : Candidate) (other : String) : Option (Time × CandidateState) :=
  if candidate.mint = other ∧ candidate.candidateId = config.candidateId other own ∧
      (view.candidates other).any (·.1 = candidate.detectedAt) then
    some (filterKey candidate)
  else view.candidates other

/-- An engine that knows the pool alone. -/
def engine : EventTimeFeatureEngine where
  trades := Dict.empty.set own view.pool.trades
  liquidity := Dict.empty.set own view.pool.liquidity

def windowsAfter (e : Evaluation) : Int :=
  countedWindows (momentumNow (some ((view.engine own).snapshot own e.now))) view.windows

noncomputable def step : ExitStep → OwnView
  | .live (.processEvent event) => view.deliver config own mint event
  | .live (.setQuotePrice price) =>
      { view with quotePrices := view.quotePrices.set price.mint price }
  | .live (.updatePoolSupply _ totalSupplyRaw observedAt) =>
      view.supply config own totalSupplyRaw observedAt
  | .live (.setCandidate candidate) =>
      { view with candidates := view.setCandidate config own candidate }
  | .live _ => view
  | .evaluate e => { view with windows := some (view.windowsAfter own e) }

/-- The decision that the view alone comes to. -/
def evaluated (settings : ExitSettings) (e : Evaluation) : ExitDecision :=
  let feature := some ((view.engine own).snapshot own e.now)
  evaluateExit settings.policy e.position e.executablePrice e.now
    (settings.momentumExitWindows ≤ view.windowsAfter own e)
    (e.limitExceeded ||
      ((view.creator.filter (· ≠ "")).any fun wallet => soldBy wallet e view.pool.trades) ||
      liquidityDropped settings feature)

def decision (settings : ExitSettings) (positionId : String) : ExitStep → Option ExitDecision
  | .evaluate e =>
      if e.position.positionId = positionId then some (view.evaluated own settings e) else none
  | .live _ => none

end OwnView

/-! ## What every process keeps -/

/-- Records and candidates are kept under their own addresses and ids, and their pairs occur. -/
structure WellKept (config : FilterConfig) (known : List (String × String)) (live : LiveProcess) :
    Prop where
  sound : live.Sound config
  recorded : ∀ address record, live.memory.pools.pools.get? address = some record →
    record.poolAddress = address ∧ (record.baseMint, address) ∈ known
  filed : ∀ id candidate, live.memory.candidates.get? id = some candidate →
    id = config.candidateId candidate.mint candidate.poolAddress ∧
      (candidate.mint, candidate.poolAddress) ∈ known

/-- The pair that a creation adds. -/
def createdPair (event : EventEnvelope) : Option (String × String) :=
  if event.eventType = .poolCreated then
    event.pool?.bind fun address =>
      (createdPool event address).toOption.map fun record => (record.baseMint, address)
  else none

theorem createdPool_address {event : EventEnvelope} {address : String} {record : PoolRecord}
    (h : createdPool event address = .ok record) : record.poolAddress = address := by
  unfold createdPool at h
  simp only [bind, Except.bind, pure, Except.pure] at h
  repeat' split at h
  all_goals first | cases h; rfl | cases h

theorem createdPair_eq {event : EventEnvelope} {address : String} {record : PoolRecord}
    (htype : event.eventType = .poolCreated) (hpool : event.pool? = some address)
    (hrecord : createdPool event address = .ok record) :
    createdPair event = some (record.baseMint, address) := by
  unfold createdPair
  rw [if_pos htype, hpool, Option.bind_some, hrecord]
  rfl

theorem createdCandidate_id {config : FilterConfig} {pool : Option PoolRecord}
    {event : EventEnvelope} {candidate : Candidate}
    (h : createdCandidate config pool event = some candidate) :
    candidate.candidateId = config.candidateId candidate.mint candidate.poolAddress ∧
      event.mint? = some candidate.mint := by
  unfold createdCandidate at h
  split at h
  · rename_i hmint
    split_ifs at h
    obtain rfl := Option.some.inj h
    exact ⟨rfl, hmint⟩
  · cases h

/-- The candidate of a creation is filed under the pair that the creation adds. -/
theorem candidateOf_id {config : FilterConfig} {event : EventEnvelope} {candidate : Candidate}
    (h : candidateOf config event = some candidate) :
    candidate.candidateId = config.candidateId candidate.mint candidate.poolAddress ∧
      createdPair event = some (candidate.mint, candidate.poolAddress) := by
  obtain ⟨htype, hpool⟩ := candidateOf_spec h
  unfold candidateOf at h
  rw [hpool] at h
  dsimp only at h
  cases hrecord : createdPool event candidate.poolAddress with
  | error error =>
      rw [hrecord] at h
      cases h
  | ok record =>
      rw [hrecord] at h
      obtain ⟨hid, hmint⟩ := createdCandidate_id h
      have hbase : record.baseMint = candidate.mint :=
        Option.some.inj (Option.filter_eq_some_iff.mp hmint).1
      exact ⟨hid, hbase ▸ createdPair_eq htype hpool hrecord⟩

theorem poolFor_cases {tracker : PoolStateTracker} {event : EventEnvelope} {address : String}
    {record : PoolRecord} (hfor : tracker.poolFor event address = .ok (some record)) :
    (event.eventType = .poolCreated ∧ createdPool event address = .ok record) ∨
      tracker.pools.get? address = some record := by
  unfold PoolStateTracker.poolFor at hfor
  split_ifs at hfor with hcreated
  · cases hnew : createdPool event address with
    | error error =>
        rw [hnew] at hfor
        cases hfor
    | ok new =>
        rw [hnew] at hfor
        cases hfor
        exact Or.inl ⟨hcreated, rfl⟩
  · exact Or.inr (Except.ok.inj hfor)

section WellKept

variable {config : FilterConfig} {known : List (String × String)} {memory : Memory}
  {event : EventEnvelope} {flag : Bool} {outcome : Memory × Option Candidate}

theorem recorded_of_applies (happlies : Applies config memory event flag outcome)
    (hknown : ∀ pair ∈ createdPair event, pair ∈ known)
    (h : ∀ address record, memory.pools.pools.get? address = some record →
      record.poolAddress = address ∧ (record.baseMint, address) ∈ known) (address : String)
    (record : PoolRecord) (hget : outcome.1.pools.pools.get? address = some record) :
    record.poolAddress = address ∧ (record.baseMint, address) ∈ known := by
  obtain ⟨pools, state, wallets, happly, rfl⟩ := happlies
  change pools.pools.get? address = some record at hget
  rcases PoolStateTracker.apply_cases happly with ⟨rfl, -, -⟩ | ⟨own, pool, hpool, hfor, rfl, -⟩
  · exact h address record hget
  · unfold PoolStateTracker.advance at hget
    dsimp only at hget
    rw [Dict.get?_set] at hget
    split_ifs at hget with hown
    · cases hget
      obtain rfl := hown
      rcases poolFor_cases hfor with ⟨htype, hcreated⟩ | hold
      · have haddress := createdPool_address hcreated
        have hpair := hknown _ (createdPair_eq htype hpool hcreated)
        exact ⟨haddress, hpair⟩
      · exact h _ pool hold
    · exact h address record hget

theorem filed_of_applies (happlies : Applies config memory event flag outcome)
    (hknown : ∀ pair ∈ createdPair event, pair ∈ known)
    (h : ∀ id candidate, memory.candidates.get? id = some candidate →
      id = config.candidateId candidate.mint candidate.poolAddress ∧
        (candidate.mint, candidate.poolAddress) ∈ known) (id : String)
    (candidate : Candidate) (hget : outcome.1.candidates.get? id = some candidate) :
    id = config.candidateId candidate.mint candidate.poolAddress ∧
      (candidate.mint, candidate.poolAddress) ∈ known := by
  have hkept := happlies.candidates (fun candidate => (candidate.mint, candidate.poolAddress))
    (fun _ _ => rfl) id
  have hnew := happlies.candidate
  rw [hget, Option.map_some] at hkept
  have hold : ∀ pair, (memory.candidates.get? id).map
      (fun candidate => (candidate.mint, candidate.poolAddress)) = some pair →
      id = config.candidateId pair.1 pair.2 ∧ pair ∈ known := by
    intro pair hpair
    obtain ⟨old, hget_old, rfl⟩ := Option.map_eq_some_iff.mp hpair
    exact h id old hget_old
  cases hcandidate : outcome.2 with
  | none =>
      rw [hcandidate] at hkept
      exact hold _ hkept.symm
  | some created =>
      rw [hcandidate] at hkept hnew
      dsimp only at hkept
      split_ifs at hkept with hid
      · cases hprevious : (memory.candidates.get? id).map
            (fun candidate => (candidate.mint, candidate.poolAddress)) with
        | some pair =>
            rw [hprevious, Option.getD_some] at hkept
            obtain rfl := Option.some.inj hkept
            exact hold _ hprevious
        | none =>
            rw [hprevious, Option.getD_none] at hkept
            obtain ⟨hmint, hpool⟩ := Prod.mk.inj (Option.some.inj hkept)
            obtain ⟨hfiled, hpair⟩ := candidateOf_id hnew.symm
            rw [hmint, hpool, ← hid]
            exact ⟨hfiled, hknown _ hpair⟩
      · exact hold _ hkept.symm

theorem updatePoolSupply_rest (config : PipelineConfig) (memory : Memory) (address : String)
    (totalSupplyRaw : ℚ) (observedAt : Time) :
    let next := updatePoolSupply config memory address totalSupplyRaw observedAt
    next.pools.pools = memory.pools.pools ∧ next.pools.quotePrices = memory.pools.quotePrices ∧
      next.candidates = memory.candidates ∧ next.tokens = memory.tokens := by
  unfold updatePoolSupply PoolStateTracker.applyBaseSupply
  cases memory.pools.states.get? address with
  | none => exact ⟨rfl, rfl, rfl, rfl⟩
  | some state =>
      cases memory.pools.pools.get? address with
      | none => exact ⟨rfl, rfl, rfl, rfl⟩
      | some record => exact ⟨rfl, rfl, rfl, rfl⟩

theorem WellKept.of_same {live next : LiveProcess} (h : WellKept config known live)
    (hsound : next.Sound config) (hpools : next.memory.pools.pools = live.memory.pools.pools)
    (hcandidates : next.memory.candidates = live.memory.candidates) :
    WellKept config known next where
  sound := hsound
  recorded := by
    rw [hpools]
    exact h.recorded
  filed := by
    rw [hcandidates]
    exact h.filed

theorem createdPair_entryOf (live : LiveProcess) (event : EventEnvelope) :
    createdPair (live.entryOf event).event = createdPair event := by
  obtain ⟨mint, hmint⟩ := withKnownPoolMint_same live.memory.pools.pools event
  unfold LiveProcess.entryOf
  rw [hmint]
  rfl

theorem WellKept.delivered {live next : LiveProcess} (h : WellKept config known live)
    (hknown : ∀ pair ∈ createdPair event, pair ∈ known) (hsound : next.Sound config)
    (hstep : Delivered config live event next) : WellKept config known next := by
  cases hstep with
  | unchanged => exact h
  | filtered reason hnew hfilter => exact h.of_same hsound rfl rfl
  | applied outcome pools state hnew hfilter happly happlies =>
      rw [← createdPair_entryOf live event] at hknown
      exact ⟨hsound, recorded_of_applies happlies hknown h.recorded,
        filed_of_applies happlies hknown h.filed⟩

theorem WellKept.step {config : PipelineConfig} {live : LiveProcess}
    (h : WellKept config.toFilterConfig known live) (label : LiveStep)
    (hknown : ∀ event, label = .processEvent event → ∀ pair ∈ createdPair event, pair ∈ known) :
    WellKept config.toFilterConfig known (live.step config label) := by
  have hsound := h.sound.step config label
  cases label with
  | processEvent event =>
      exact h.delivered (hknown event rfl) hsound (delivered_processEvent _ live event)
  | setQuotePrice price => exact h.of_same hsound rfl rfl
  | applyEnrichment mint name symbol observedAt => exact h.of_same hsound rfl rfl
  | applyMintState mint tokenProgram decimals totalSupplyRaw observedAt =>
      exact h.of_same hsound rfl rfl
  | updatePoolSupply address totalSupplyRaw observedAt =>
      obtain ⟨hpools, -, hcandidates, -⟩ :=
        updatePoolSupply_rest config live.memory address totalSupplyRaw observedAt
      exact h.of_same hsound hpools hcandidates
  | ingestHolders candidateId holders => exact h.of_same hsound rfl rfl
  | setCandidate candidate =>
      unfold LiveProcess.step at hsound ⊢
      dsimp only at hsound ⊢
      cases hcurrent : live.memory.candidates.get? candidate.candidateId with
      | none => exact h
      | some current =>
          rw [hcurrent] at hsound
          dsimp only at hsound ⊢
          split_ifs at hsound ⊢ with hsame
          · refine ⟨hsound, h.recorded, fun id other hget => ?_⟩
            dsimp only at hget
            rw [Dict.get?_set] at hget
            split_ifs at hget with hid
            · obtain rfl := Option.some.inj hget
              rw [hsame.1, hsame.2.1, ← hid]
              exact h.filed _ current hcurrent
            · exact h.filed id other hget
          · exact h
  | upsertCandidate candidate =>
      unfold LiveProcess.step at hsound ⊢
      dsimp only at hsound ⊢
      cases hcurrent : live.memory.candidates.get? candidate.candidateId with
      | none => exact h
      | some current =>
          rw [hcurrent] at hsound
          dsimp only at hsound ⊢
          split_ifs at hsound ⊢ with hsame
          · exact h.of_same hsound rfl rfl
          · exact h

end WellKept

/-! ## The steps of other pools -/

/-- The steps that the view follows. -/
def Relevant (own mint positionId : String) : ExitStep → Prop
  | .live (.processEvent event) => Concerns own mint event
  | .live (.setQuotePrice _) => True
  | .live (.updatePoolSupply address _ _) => address = own
  | .live (.setCandidate candidate) => candidate.poolAddress = own
  | .live (.applyEnrichment ..) | .live (.applyMintState ..) | .live (.ingestHolders ..)
  | .live (.upsertCandidate ..) => False
  | .evaluate e => e.position.positionId = positionId

instance (own mint positionId : String) : DecidablePred (Relevant own mint positionId) := fun step =>
  match step with
  | .live (.processEvent event) => inferInstanceAs (Decidable (Concerns own mint event))
  | .live (.setQuotePrice _) => inferInstanceAs (Decidable True)
  | .live (.updatePoolSupply address _ _) => inferInstanceAs (Decidable (address = own))
  | .live (.setCandidate candidate) => inferInstanceAs (Decidable (candidate.poolAddress = own))
  | .live (.applyEnrichment ..) | .live (.applyMintState ..) | .live (.ingestHolders ..)
  | .live (.upsertCandidate ..) => inferInstanceAs (Decidable False)
  | .evaluate e => inferInstanceAs (Decidable (e.position.positionId = positionId))

/-- Ids name one thing: an event id is a digest and belongs to one event, the id of a supply or of
holders is not that of a supply of the pool, the pair of a creation is known, and a token is not
created at the address of a pool. -/
def PlainStep (config : PipelineConfig) (known : List (String × String)) (own mint : String)
    (s : ExitProcess) : ExitStep → Prop
  | .live (.processEvent event) =>
      ':' ∉ event.eventId.toList ∧ (∀ pair ∈ createdPair event, pair ∈ known) ∧
        (Concerns own mint event → ∀ entry ∈ s.live.log, entry.event.eventId = event.eventId →
          Concerns own mint entry.event) ∧
        (event.eventType = .tokenCreated →
          event.pool?.bind s.live.memory.pools.pools.get? = none)
  | .live (.updatePoolSupply address totalSupplyRaw _) =>
      address ≠ own → ¬ SupplyId own (address ++ ":supply:" ++ config.normalized totalSupplyRaw)
  | .live (.ingestHolders candidateId holders) =>
      ¬ SupplyId own ("holders:" ++ candidateId ++ ":" ++ config.isoformat holders.eventTime)
  | .live _ | .evaluate _ => True

/-- The position is open, of the mint, and names its pool and the candidate of it, which the
process has. -/
def Recorded (config : PipelineConfig) (own mint positionId : String) (s : ExitProcess) :
    ExitStep → Prop
  | .evaluate e => e.position.positionId = positionId →
      e.position.status = .opened ∧ e.position.tokenMint = mint ∧
        e.position.context.poolAddress = some own ∧
        e.position.context.candidateId = some (config.candidateId mint own) ∧
        (s.live.memory.candidates.get? (config.candidateId mint own)).isSome
  | .live _ => True

/-- When the position is evaluated, the first candidate of its mint is that of its pool. -/
def OwnFirst (own positionId : String) (s : ExitProcess) : ExitStep → Prop
  | .evaluate e => e.position.positionId = positionId →
      (s.candidate e).map (·.poolAddress) = some own
  | .live _ => True

instance (config : PipelineConfig) (own mint positionId : String) (s : ExitProcess) :
    DecidablePred (Recorded config own mint positionId s) := fun step =>
  match step with
  | .evaluate _ => inferInstanceAs (Decidable (_ → _))
  | .live _ => inferInstanceAs (Decidable True)

instance (own positionId : String) (s : ExitProcess) :
    DecidablePred (OwnFirst own positionId s) := fun step =>
  match step with
  | .evaluate _ => inferInstanceAs (Decidable (_ → _))
  | .live _ => inferInstanceAs (Decidable True)

theorem not_supplyId {own id suffix : String} (hid : ':' ∉ id.toList)
    (hsuffix : suffix.toList.count ':' = 1) : ¬ SupplyId own (id ++ suffix) := by
  rintro ⟨supply, heq⟩
  have hcount := congrArg (fun text : String => text.toList.count ':') heq
  have hcolons : ":supply:".toList.count ':' = 2 := by decide
  simp only [String.toList_append, List.count_append, List.count_eq_zero.mpr hid, hsuffix,
    hcolons] at hcount
  omega

theorem barePool_congr {pool other : PoolView} (h : pool = other) : barePool pool = barePool other :=
  congrArg barePool h

/-- An ingestion keeps the ids that were seen. -/
theorem subset_seen_ingest (engine : EventTimeFeatureEngine) :
    (∀ event, engine.seen ⊆ (engine.ingestTrade event).seen) ∧
      (∀ event, engine.seen ⊆ (engine.ingestLiquidity event).seen) ∧
      ∀ event, engine.seen ⊆ (engine.ingestHolders event).seen := by
  refine ⟨fun event => ?_, fun event => ?_, fun event => ?_⟩
  · unfold EventTimeFeatureEngine.ingestTrade
    split_ifs
    · exact List.Subset.refl _
    · exact List.subset_append_left _ _
  · unfold EventTimeFeatureEngine.ingestLiquidity
    split_ifs
    · exact List.Subset.refl _
    · exact List.subset_append_left _ _
  · unfold EventTimeFeatureEngine.ingestHolders
    split_ifs
    · exact List.Subset.refl _
    · exact List.subset_append_left _ _

theorem subset_seen_of_applies {config : FilterConfig} {memory : Memory} {event : EventEnvelope}
    {flag : Bool} {outcome : Memory × Option Candidate}
    (happlies : Applies config memory event flag outcome) :
    memory.features.seen ⊆ outcome.1.features.seen := by
  obtain ⟨pools, state, wallets, -, rfl⟩ := happlies
  generalize (effectiveEvent (event.pool?.bind pools.pools.get?) event).withSameFunder flag =
    effective
  have hregistered := (registerCreated_rest memory.features effective).2.2
  unfold applyEffective
  cases state with
  | none => exact hregistered ▸ List.Subset.refl _
  | some state =>
      dsimp only
      rw [ingestPoolFeatures_eq, ← hregistered]
      cases poolTrade pools (applyToken memory.tokens effective).1 effective state with
      | none => exact (subset_seen_ingest _).2.1 _
      | some trade =>
          exact List.Subset.trans ((subset_seen_ingest _).2.1 _) ((subset_seen_ingest _).1 _)

section Other

variable {config : PipelineConfig} {known : List (String × String)}
  {own mint positionId : String} {s : ExitProcess}

theorem ownView_eq {next : ExitProcess} {view : OwnView}
    (hpool : barePool (next.live.memory.view own) = view.pool)
    (hprices : next.live.memory.pools.quotePrices = view.quotePrices)
    (hcreator : creatorOf next.live.memory.tokens mint = view.creator)
    (hcandidates : ∀ other,
      ownKeys config.toFilterConfig known own next.live.memory.candidates other =
        view.candidates other)
    (hprocessed : (ownView config known own mint positionId next).processed = view.processed)
    (hsupplied : (ownView config known own mint positionId next).supplied = view.supplied)
    (hwindows : next.momentumWindows.get? positionId = view.windows) :
    ownView config known own mint positionId next = view := by
  obtain ⟨pool, quotePrices, creator, candidates, processed, supplied, windows⟩ := view
  unfold ownView at hprocessed hsupplied ⊢
  dsimp only at *
  rw [hpool, hprices, hcreator, hwindows, hprocessed, hsupplied, funext hcandidates]

/-- An id that is taken by something else is not one of the supplies. -/
theorem supplied_congr {seen seen' : List String} (hsub : ∀ id ∈ seen, id ∈ seen')
    (hnew : ∀ id ∈ seen', id ∈ seen ∨ ¬ SupplyId own id) :
    { id | id ∈ seen' ∧ SupplyId own id } = { id | id ∈ seen ∧ SupplyId own id } := by
  ext id
  constructor
  · rintro ⟨hid, hsupply⟩
    exact ⟨(hnew id hid).resolve_right fun h => h hsupply, hsupply⟩
  · rintro ⟨hid, hsupply⟩
    exact ⟨hsub id hid, hsupply⟩

/-- What the filter reads of a candidate of the pool, after an event of another one. -/
theorem candidates_of_applies_other {memory : Memory} {event : EventEnvelope} {flag : Bool}
    {outcome : Memory × Option Candidate} (hapart : IdsApart config.toFilterConfig known)
    (happlies : Applies config.toFilterConfig memory event flag outcome)
    (hknown : ∀ pair ∈ createdPair event, pair ∈ known) (hother : event.pool? ≠ some own)
    (other : String) :
    ownKeys config.toFilterConfig known own outcome.1.candidates other =
      ownKeys config.toFilterConfig known own memory.candidates other := by
  have hkept := happlies.candidates filterKey (fun _ _ => rfl) (config.candidateId other own)
  have hnew := happlies.candidate
  unfold ownKeys
  split_ifs with hpair
  · cases hcandidate : outcome.2 with
    | none =>
        rw [hcandidate] at hkept
        exact hkept
    | some created =>
        rw [hcandidate] at hkept hnew
        dsimp only at hkept
        split_ifs at hkept with hid
        · obtain ⟨hfiled, hcreated⟩ := candidateOf_id hnew.symm
          obtain ⟨-, hpool⟩ := Prod.mk.inj
            (hapart _ (hknown _ hcreated) _ hpair (hfiled.symm.trans hid))
          exact absurd (hpool ▸ (candidateOf_spec hnew.symm).2) hother
        · exact hkept
  · rfl

theorem processed_concat (log : List LogEntry) {event : EventEnvelope} {entry : LogEntry}
    (hentry : Concerns own mint entry.event ↔ Concerns own mint event)
    (hid : entry.event.eventId = event.eventId) :
    { id | ∃ entry' ∈ log ++ [entry], entry'.event.eventId = id ∧ Concerns own mint entry'.event } =
      if Concerns own mint event then
        insert event.eventId
          { id | ∃ entry ∈ log, entry.event.eventId = id ∧ Concerns own mint entry.event }
      else { id | ∃ entry ∈ log, entry.event.eventId = id ∧ Concerns own mint entry.event } := by
  ext id
  split_ifs with hconcerns
  · simp only [List.mem_append, List.mem_singleton, Set.mem_ofPred_eq, Set.mem_insert_iff]
    constructor
    · rintro ⟨other, hmem | rfl, hother, hown⟩
      · exact Or.inr ⟨other, hmem, hother, hown⟩
      · exact Or.inl (hother.symm.trans hid)
    · rintro (rfl | ⟨other, hmem, hother, hown⟩)
      · exact ⟨entry, Or.inr rfl, hid, hentry.mpr hconcerns⟩
      · exact ⟨other, Or.inl hmem, hother, hown⟩
  · simp only [List.mem_append, List.mem_singleton, Set.mem_ofPred_eq]
    constructor
    · rintro ⟨other, hmem | rfl, hother, hown⟩
      · exact ⟨other, hmem, hother, hown⟩
      · exact absurd (hentry.mp hown) hconcerns
    · rintro ⟨other, hmem, hother, hown⟩
      exact ⟨other, Or.inl hmem, hother, hown⟩

theorem concerns_entryOf (own mint : String) (live : LiveProcess) (event : EventEnvelope)
    (hcurve : event.eventType = .tokenCreated →
      event.pool?.bind live.memory.pools.pools.get? = none) :
    Concerns own mint (live.entryOf event).event ↔ Concerns own mint event := by
  obtain ⟨htype, hpool, -, -, -⟩ := entryOf_same live event
  rw [Concerns, Concerns, htype, hpool]
  refine or_congr Iff.rfl (and_congr_right fun hcreated => ?_)
  unfold LiveProcess.entryOf
  rw [withKnownPoolMint_unknown (hcurve hcreated)]

/-- An event of another pool leaves the view. -/
theorem ownView_event_other (hapart : IdsApart config.toFilterConfig known)
    {event : EventEnvelope} (hother : ¬ Concerns own mint event) (hid : ':' ∉ event.eventId.toList)
    (hknown : ∀ pair ∈ createdPair event, pair ∈ known)
    (hcurve : event.eventType = .tokenCreated →
      event.pool?.bind s.live.memory.pools.pools.get? = none) :
    ownView config known own mint positionId
        { s with live := s.live.processEvent config.toFilterConfig event } =
      ownView config known own mint positionId s := by
  obtain ⟨hpool, -⟩ := not_or.mp hother
  obtain ⟨hentry_type, hentry_pool, hentry_id, -, -⟩ := entryOf_same s.live event
  have hprocessed := processed_concat s.live.log (concerns_entryOf own mint s.live event hcurve)
    hentry_id
  rw [if_neg hother] at hprocessed
  have hstep := delivered_processEvent config.toFilterConfig s.live event
  generalize s.live.processEvent config.toFilterConfig event = next at hstep ⊢
  cases hstep with
  | unchanged => rfl
  | filtered reason hnew hfilter =>
      exact ownView_eq rfl rfl rfl (fun _ => rfl) hprocessed rfl rfl
  | applied outcome pools state hnew hfilter happly happlies =>
      refine ownView_eq ?_ ?_ ?_ ?_ hprocessed ?_ rfl
      · exact barePool_congr (happlies.view_of_ne (hentry_pool.symm ▸ hpool))
      · exact happlies.rest.1
      · have hcreator := happlies.creatorOf (by rw [hentry_type, hentry_pool]; exact hcurve) mint
        refine hcreator.trans (if_neg ?_)
        rintro ⟨hcreated, hmint, -⟩
        exact hother ((concerns_entryOf own mint s.live event hcurve).mp (Or.inr ⟨hcreated, hmint⟩))
      · exact candidates_of_applies_other hapart happlies
          (createdPair_entryOf s.live event ▸ hknown) (hentry_pool.symm ▸ hpool)
      · refine supplied_congr (subset_seen_of_applies happlies) fun id hmem => ?_
        rcases happlies.rest.2.2 id hmem with hold | rfl | rfl
        · exact Or.inl hold
        · exact Or.inr (not_supplyId (hentry_id.symm ▸ hid) (by decide))
        · exact Or.inr (not_supplyId (hentry_id.symm ▸ hid) (by decide))

/-- A candidate of another pool is kept under another id. -/
theorem candidates_set_other (hapart : IdsApart config.toFilterConfig known)
    {live : LiveProcess} (hwell : WellKept config.toFilterConfig known live) {candidate current : Candidate}
    (hcurrent : live.memory.candidates.get? candidate.candidateId = some current)
    (hsame : SameIdentity candidate current) (hother : candidate.poolAddress ≠ own)
    (other : String) :
    ownKeys config.toFilterConfig known own
        (live.memory.candidates.set candidate.candidateId candidate) other =
      ownKeys config.toFilterConfig known own live.memory.candidates other := by
  unfold ownKeys
  split_ifs with hpair
  · refine congrArg (Option.map filterKey) (Dict.get?_set_ne _ (fun hid => ?_) _)
    obtain ⟨hfiled, hcurrent_pair⟩ := hwell.filed _ current hcurrent
    obtain ⟨-, hpool⟩ := Prod.mk.inj
      (hapart _ hpair _ hcurrent_pair (hid.symm.trans hfiled))
    exact hother (hsame.2.1.trans hpool.symm)
  · rfl

/-- The steps that the view does not follow leave it. -/
theorem ownView_other (hapart : IdsApart config.toFilterConfig known)
    (hwell : WellKept config.toFilterConfig known s.live) {step : ExitStep}
    (hplain : PlainStep config known own mint s step) (hother : ¬ Relevant own mint positionId step) :
    ownView config known own mint positionId (s.step config step) =
      ownView config known own mint positionId s := by
  cases step with
  | evaluate e =>
      refine ownView_eq rfl rfl rfl (fun _ => rfl) rfl rfl ?_
      exact Dict.get?_set_ne _ hother _
  | live step =>
      cases step with
      | processEvent event => exact ownView_event_other hapart hother hplain.1 hplain.2.1 hplain.2.2.2
      | setQuotePrice price => exact absurd trivial hother
      | applyEnrichment own name symbol observedAt =>
          exact ownView_eq rfl rfl (creatorOf_applyEnrichment _ _ _ _ _ _) (fun _ => rfl) rfl rfl
            rfl
      | applyMintState own tokenProgram decimals totalSupplyRaw observedAt =>
          exact ownView_eq rfl rfl (creatorOf_applyMintState _ _ _ _ _ _ _) (fun _ => rfl) rfl rfl
            rfl
      | updatePoolSupply address totalSupplyRaw observedAt =>
          obtain ⟨hview, htokens⟩ := view_updatePoolSupply config s.live.memory hother totalSupplyRaw
            observedAt
          obtain ⟨-, hprices, hcandidates, -⟩ :=
            updatePoolSupply_rest config s.live.memory address totalSupplyRaw observedAt
          refine ownView_eq (barePool_congr hview) hprices ?_ ?_ rfl ?_ rfl
          · exact congrArg (creatorOf · mint) htokens
          · exact fun other => congrArg (ownKeys config.toFilterConfig known own · other) hcandidates
          · have hsupply := hplain hother
            unfold ownView ExitProcess.step LiveProcess.step updatePoolSupply
            dsimp only
            split
            · rfl
            · refine supplied_congr ((subset_seen_ingest _).2.1 _) fun id hmem => ?_
              rcases (mem_seen_ingest _ _).2.1 _ hmem with hold | rfl
              · exact Or.inl hold
              · exact Or.inr hsupply
      | ingestHolders candidateId holders =>
          refine ownView_eq ?_ rfl rfl (fun _ => rfl) rfl ?_ rfl
          · refine barePool_congr ?_
            obtain ⟨hcreated, htrades, hliquidity⟩ := ingestHolders_rest s.live.memory.features
              { holders with
                eventId := "holders:" ++ candidateId ++ ":" ++ config.isoformat holders.eventTime }
            unfold Memory.view ExitProcess.step LiveProcess.step EventTimeFeatureEngine.tradesOf
              EventTimeFeatureEngine.liquidityOf
            dsimp only
            rw [hcreated, htrades, hliquidity]
          · refine supplied_congr ((subset_seen_ingest _).2.2 _) fun id hmem => ?_
            rcases (mem_seen_ingest _ _).2.2 _ hmem with hold | rfl
            · exact Or.inl hold
            · exact Or.inr hplain
      | setCandidate candidate =>
          unfold ExitProcess.step LiveProcess.step
          dsimp only
          cases hcurrent : s.live.memory.candidates.get? candidate.candidateId with
          | none => rfl
          | some current =>
              dsimp only
              split_ifs with hsame
              · refine ownView_eq rfl rfl rfl (fun other => ?_) rfl rfl rfl
                exact candidates_set_other hapart hwell hcurrent hsame hother other
              · rfl
      | upsertCandidate candidate =>
          unfold ExitProcess.step LiveProcess.step
          dsimp only
          cases hcurrent : s.live.memory.candidates.get? candidate.candidateId with
          | none => rfl
          | some current =>
              dsimp only
              split_ifs with hsame
              · exact ownView_eq rfl rfl rfl (fun _ => rfl) rfl rfl rfl
              · rfl

end Other

end SniperBot.Exits
