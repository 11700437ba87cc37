import SniperBot.Exits.OwnPool

/-!
# Decisions that depend on the pool of the position

The steps about its own pool move the view of a position as `OwnView.step` says, and the view
decides when the first candidate of the mint is that of the pool. So the runs follow the view, and
two runs that agree in these steps decide alike. Where a candidate of another pool comes first, the
decision is that pool's.
-/

namespace SniperBot.Exits

open Basis Ledger Features Candidates

/-! ## The events of the pool -/

section Own

variable {config : PipelineConfig} {known : List (String × String)}
  {own mint positionId : String} {s : ExitProcess}
  {event : EventEnvelope}

theorem candidateFilterReason_key (config : FilterConfig) {candidate other : Candidate}
    (h : filterKey candidate = filterKey other) (blockTime : Time) :
    candidateFilterReason config candidate blockTime =
      candidateFilterReason config other blockTime := by
  obtain ⟨hdetected, hstate⟩ := Prod.mk.inj h
  unfold candidateFilterReason
  rw [hdetected, hstate]

theorem filterReason_ownView (mint positionId : String)
    (hwell : WellKept config.toFilterConfig known s.live)
    (hpool : event.pool? = some own) :
    eventStateFilterReason config.toFilterConfig s.live.memory.pools.pools
        s.live.memory.candidates event =
      (ownView config known own mint positionId s).filterReason config event := by
  unfold eventStateFilterReason OwnView.filterReason
  by_cases hswap : event.eventType.Swap
  · rw [if_neg (not_not.mpr hswap), if_neg (not_not.mpr hswap), hpool, Option.bind_some]
    have hview : (ownView config known own mint positionId s).pool.record =
        s.live.memory.pools.pools.get? own := rfl
    rw [hview]
    cases hrecord : s.live.memory.pools.pools.get? own with
    | none => rfl
    | some record =>
        obtain ⟨haddress, hpair⟩ := hwell.recorded own record hrecord
        dsimp only
        rw [haddress]
        have hkey : (ownView config known own mint positionId s).candidates record.baseMint =
            (s.live.memory.candidates.get?
              (config.candidateId record.baseMint own)).map filterKey := if_pos hpair
        rw [hkey]
        cases s.live.memory.candidates.get? (config.candidateId record.baseMint own) with
        | none => rfl
        | some candidate => exact candidateFilterReason_key _ rfl _
  · rw [if_pos hswap, if_pos hswap]

/-- The pool after an event of it that the registry met without a record. -/
theorem barePool_of_applies_none {memory : Memory} {flag : Bool}
    {outcome : Memory × Option Candidate} {config : FilterConfig}
    (happlies : Applies config memory event flag outcome) (hpool : event.pool? = some own)
    (hfor : memory.pools.poolFor event own = .ok none) :
    barePool (outcome.1.view own) = barePool (memory.view own) := by
  obtain ⟨pools, state, wallets, happly, rfl⟩ := happlies
  rcases PoolStateTracker.apply_cases happly with ⟨rfl, rfl, -⟩ | ⟨address, pool, haddress, hother, -⟩
  · generalize (effectiveEvent (event.pool?.bind memory.pools.pools.get?) event).withSameFunder
      flag = effective
    have hregistered := registerCreated_rest memory.features effective
    unfold applyEffective Memory.view barePool EventTimeFeatureEngine.tradesOf
      EventTimeFeatureEngine.liquidityOf
    dsimp only
    rw [hregistered.1, hregistered.2.1]
  · obtain rfl := Option.some.inj (hpool.symm.trans haddress)
    rw [hfor] at hother
    cases hother

theorem map_insertOrdered (trades : List TradeObservation) (trade : TradeObservation) :
    (insertOrdered (fun item => (item.eventTime, item.eventId)) trades trade).map bareTrade =
      insertOrdered (fun item => (item.eventTime, item.eventId)) (trades.map bareTrade)
        (bareTrade trade) := by
  unfold insertOrdered
  rw [List.map_append, List.map_cons, List.takeWhile_map, List.dropWhile_map]
  rfl

/-- Less the flags, an event of the pool does to it what it does to the pool alone. -/
theorem barePool_ingest (view : PoolView) (address : String) (record : PoolRecord)
    (price : Option QuoteAssetPrice) (creator : Option String) (event : EventEnvelope) (flag : Bool) :
    barePool (view.ingest address record price creator
        ((effectiveEvent (some record) event).withSameFunder flag)) =
      barePool ((barePool view).ingest address record price none event) := by
  have hbare : ∀ trades : List TradeObservation,
      (trades.map bareTrade).map bareTrade = trades.map bareTrade := by
    intro trades
    rw [List.map_map]
    rfl
  have htype : ((effectiveEvent (some record) event).withSameFunder flag).eventType =
      event.eventType := rfl
  have hstate : poolState record view.state price
      ((effectiveEvent (some record) event).withSameFunder flag) address =
        poolState record view.state price event address := rfl
  unfold PoolView.ingest barePool
  dsimp only
  rw [htype, hstate]
  congr 1
  split_ifs with hswap
  · rw [map_insertOrdered, map_insertOrdered, hbare]
    rfl
  · exact (hbare _).symm

theorem candidateOf_entryOf (config : FilterConfig) (live : LiveProcess) (event : EventEnvelope) :
    candidateOf config (live.entryOf event).event = candidateOf config event := by
  obtain ⟨mint, hmint⟩ := withKnownPoolMint_same live.memory.pools.pools event
  unfold LiveProcess.entryOf
  rw [hmint]
  rfl

theorem poolFor_entryOf (config : PipelineConfig) (known : List (String × String))
    (own mint positionId : String) (s : ExitProcess) (event : EventEnvelope) :
    s.live.memory.pools.poolFor (s.live.entryOf event).event own =
      (ownView config known own mint positionId s).knows own event := by
  obtain ⟨other, hother⟩ := withKnownPoolMint_same s.live.memory.pools.pools event
  unfold LiveProcess.entryOf
  rw [hother]
  rfl

/-- What the filter reads of a candidate of the pool, after an event of it. -/
theorem candidates_of_applies_own {memory : Memory} {flag : Bool}
    {outcome : Memory × Option Candidate} (hapart : IdsApart config.toFilterConfig known)
    {entry : EventEnvelope} (happlies : Applies config.toFilterConfig memory entry flag outcome)
    (hknown : ∀ pair ∈ createdPair entry, pair ∈ known)
    (hentry : candidateOf config.toFilterConfig entry = candidateOf config.toFilterConfig event)
    (hpool : entry.pool? = some own) (view : OwnView)
    (hview : view.candidates = ownKeys config.toFilterConfig known own memory.candidates)
    (other : String) :
    ownKeys config.toFilterConfig known own outcome.1.candidates other =
      view.candidatesAfter config event other := by
  have hkept := happlies.candidates filterKey (fun _ _ => rfl) (config.candidateId other own)
  have hnew := happlies.candidate
  unfold OwnView.candidatesAfter
  rw [← hentry, ← hnew, hview]
  unfold ownKeys
  cases hcandidate : outcome.2 with
  | none =>
      rw [hcandidate] at hkept
      exact if_congr Iff.rfl hkept rfl
  | some created =>
      rw [hcandidate] at hkept hnew
      dsimp only at hkept ⊢
      obtain ⟨hfiled, hcreated⟩ := candidateOf_id hnew.symm
      have hown : created.poolAddress = own :=
        (Option.some.inj (hpool.symm.trans (candidateOf_spec hnew.symm).2)).symm
      rw [hown] at hfiled hcreated
      by_cases hpair : (other, own) ∈ known
      · have hsame : created.candidateId = config.candidateId other own ↔ created.mint = other := by
          refine ⟨fun hid => ?_, fun h => h ▸ hfiled⟩
          exact (Prod.mk.inj
            (hapart _ (hknown _ hcreated) _ hpair (hfiled.symm.trans hid))).1
        rw [if_pos hpair, if_pos hpair, hkept]
        exact if_congr hsame rfl rfl
      · rw [if_neg hpair, if_neg hpair, if_neg]
        rintro rfl
        exact hpair (hknown _ hcreated)

/-- The creator of the token after an event that the view follows. -/
theorem creatorOf_applies_own {memory : Memory} {live : LiveProcess} {flag : Bool}
    {outcome : Memory × Option Candidate} (hlive : live.memory = memory)
    (happlies : Applies config.toFilterConfig memory (live.entryOf event).event flag outcome)
    (hcurve : event.eventType = .tokenCreated → event.pool?.bind memory.pools.pools.get? = none)
    (view : OwnView) (hview : view.creator = creatorOf memory.tokens mint) :
    creatorOf outcome.1.tokens mint = (view.learned mint event).creator := by
  obtain ⟨htype, hpool, -, -, hpayload⟩ := entryOf_same live event
  have happlied := happlies.creatorOf (by rw [htype, hpool]; exact hcurve) mint
  rw [htype, hpayload] at happlied
  refine happlied.trans ?_
  unfold OwnView.learned
  dsimp only
  rw [hview]
  by_cases hcreated : event.eventType = .tokenCreated
  · have hentry : (live.entryOf event).event = event := by
      unfold LiveProcess.entryOf
      exact withKnownPoolMint_unknown (by rw [hlive]; exact hcurve hcreated)
    rw [hentry]
  · rw [if_neg fun h => hcreated h.1, if_neg fun h => hcreated h.1]

theorem supplied_of_applies {memory : Memory} {live : LiveProcess} {flag : Bool}
    {outcome : Memory × Option Candidate} (hid : ':' ∉ event.eventId.toList)
    (happlies : Applies config.toFilterConfig memory (live.entryOf event).event flag outcome) :
    { id | id ∈ outcome.1.features.seen ∧ SupplyId own id } =
      { id | id ∈ memory.features.seen ∧ SupplyId own id } := by
  have hentry := (entryOf_same live event).2.2.1
  refine supplied_congr (subset_seen_of_applies happlies) fun id hmem => ?_
  rcases happlies.rest.2.2 id hmem with hold | rfl | rfl
  · exact Or.inl hold
  · exact Or.inr (not_supplyId (hentry.symm ▸ hid) (by decide))
  · exact Or.inr (not_supplyId (hentry.symm ▸ hid) (by decide))

theorem processed_iff (config : PipelineConfig) (known : List (String × String)) (positionId : String)
    (hunique : ∀ entry ∈ s.live.log, entry.event.eventId = event.eventId →
      Concerns own mint entry.event) :
    s.live.Processed event ↔ event.eventId ∈ (ownView config known own mint positionId s).processed := by
  constructor
  · intro h
    obtain ⟨entry, hentry, hid⟩ := List.mem_map.mp h
    exact ⟨entry, hentry, hid, hunique entry hentry hid⟩
  · rintro ⟨entry, hentry, hid, -⟩
    exact List.mem_map.mpr ⟨entry, hentry, hid⟩

/-- What an applied event makes of the view. -/
theorem ownView_applied (hapart : IdsApart config.toFilterConfig known)
    (hwell : WellKept config.toFilterConfig known s.live) (hnew : ¬ s.live.Processed event)
    (hpool : event.pool? = some own)
    (hplain : PlainStep config known own mint s (.live (.processEvent event)))
    {outcome : Memory × Option Candidate} {flag : Bool} {rows : Dict String Candidate}
    (happlies : Applies config.toFilterConfig s.live.memory (s.live.entryOf event).event flag
      outcome) :
    ownView config known own mint positionId
        ⟨⟨outcome.1, rows, s.live.log ++ [s.live.entryOf event]⟩, s.momentumWindows⟩ =
      (ownView config known own mint positionId s).apply config own mint event := by
  obtain ⟨hid, hknown, -, hcurve⟩ := hplain
  obtain ⟨-, hentry_pool, hentry_id, -, -⟩ := entryOf_same s.live event
  have hconcerns : Concerns own mint event := Or.inl hpool
  have hprocessed := processed_concat s.live.log (concerns_entryOf own mint s.live event hcurve)
    hentry_id
  rw [if_pos hconcerns] at hprocessed
  have hcreator : creatorOf outcome.1.tokens mint =
      ((ownView config known own mint positionId s).learned mint event).creator :=
    creatorOf_applies_own rfl happlies hcurve (ownView config known own mint positionId s) rfl
  have hfor := poolFor_entryOf config known own mint positionId s event
  unfold OwnView.apply
  cases hknows : (ownView config known own mint positionId s).knows own event with
  | error error =>
      -- the registry would have refused the event
      obtain ⟨pools, state, wallets, happly, rfl⟩ := happlies
      rw [hknows] at hfor
      unfold PoolStateTracker.apply at happly
      rw [hentry_pool, hpool] at happly
      dsimp only at happly
      rw [hfor] at happly
      cases happly
  | ok met =>
      rw [hknows] at hfor
      have hcandidates := candidates_of_applies_own hapart happlies
        (createdPair_entryOf s.live event ▸ hknown)
        (candidateOf_entryOf config.toFilterConfig s.live event) (hentry_pool.trans hpool)
        (ownView config known own mint positionId s) rfl
      cases met with
      | none =>
          refine ownView_eq ?_ happlies.rest.1 hcreator ?_ hprocessed
            (supplied_of_applies hid happlies) rfl
          · exact barePool_of_applies_none happlies (hentry_pool.trans hpool) hfor
          · intro other
            have hnone : candidateOf config.toFilterConfig event = none := by
              refine Option.eq_none_iff_forall_ne_some.mpr fun candidate hcandidate => ?_
              have hcreated := (candidateOf_spec hcandidate).1
              unfold OwnView.knows at hknows
              rw [if_pos hcreated] at hknows
              cases hrecord : createdPool event own with
              | error error =>
                  rw [hrecord] at hknows
                  cases hknows
              | ok record =>
                  rw [hrecord] at hknows
                  cases hknows
            have hafter := hcandidates other
            unfold OwnView.candidatesAfter at hafter
            rw [hnone] at hafter
            exact hafter
      | some record =>
          refine ownView_eq ?_ happlies.rest.1 hcreator hcandidates hprocessed
            (supplied_of_applies hid happlies) rfl
          obtain ⟨hliquidity, htrade⟩ := hwell.sound.fresh hnew hid
          have hview := happlies.view_of_eq (hentry_pool.trans hpool) hfor
            (hentry_id.symm ▸ hliquidity) (hentry_id.symm ▸ htrade)
          rw [effectiveEvent_entryOf] at hview
          exact (barePool_congr hview).trans (barePool_ingest _ own record _ _ event flag)

/-- What becomes of a new event. -/
theorem processEvent_cases (config : FilterConfig) {live : LiveProcess}
    (hnew : ¬ live.Processed event) :
    let filter := eventStateFilterReason config live.memory.pools.pools live.memory.candidates event
    (filter.isSome ∧
        live.processEvent config event = { live with log := live.log ++ [live.entryOf event] }) ∨
      (filter = none ∧ (∃ error, live.memory.pools.apply (live.entryOf event).event = .error error) ∧
        live.processEvent config event = live) ∨
      (filter = none ∧ ∃ outcome flag rows,
        Applies config live.memory (live.entryOf event).event flag outcome ∧
          live.processEvent config event = ⟨outcome.1, rows, live.log ++ [live.entryOf event]⟩) := by
  intro filter
  have hsame : eventStateFilterReason config live.memory.pools.pools live.memory.candidates
      (withKnownPoolMint live.memory.pools.pools event) = filter := by
    obtain ⟨mint, hmint⟩ := withKnownPoolMint_same live.memory.pools.pools event
    rw [hmint]
    rfl
  unfold LiveProcess.processEvent
  rw [if_neg hnew]
  dsimp only
  rw [hsame]
  cases hfilter : filter with
  | some reason => exact Or.inl ⟨rfl, rfl⟩
  | none =>
      dsimp only
      cases happly : applyObserved config live.memory
          (withKnownPoolMint live.memory.pools.pools event) with
      | error error =>
          refine Or.inr (Or.inl ⟨rfl, ⟨error, ?_⟩, rfl⟩)
          unfold applyObserved at happly
          cases hpools : live.memory.pools.apply
              (withKnownPoolMint live.memory.pools.pools event) with
          | error other =>
              rw [hpools] at happly
              cases happly
              exact hpools
          | ok result =>
              rw [hpools] at happly
              cases happly
      | ok outcome =>
          obtain ⟨pools, state, -, happlies⟩ := applies_of_observed happly
          exact Or.inr (Or.inr ⟨rfl, outcome, _, _, happlies, rfl⟩)

/-- The registry refuses an event of the pool that the view cannot place. -/
theorem knows_of_refused (config : PipelineConfig) (known : List (String × String))
    (mint positionId : String) (hpool : event.pool? = some own) {error : RegistryError}
    (hrefused : s.live.memory.pools.apply (s.live.entryOf event).event = .error error) :
    ∃ error, (ownView config known own mint positionId s).knows own event = .error error := by
  have hfor := poolFor_entryOf config known own mint positionId s event
  unfold PoolStateTracker.apply at hrefused
  rw [(entryOf_same s.live event).2.1, hpool] at hrefused
  dsimp only at hrefused
  cases hknown : s.live.memory.pools.poolFor (s.live.entryOf event).event own with
  | error error => exact ⟨error, hfor.symm.trans hknown⟩
  | ok met =>
      rw [hknown] at hrefused
      cases met <;> cases hrefused

/-- The registry refuses no creation of a token. -/
theorem not_refused (hcreated : event.eventType = .tokenCreated) (error : RegistryError) :
    s.live.memory.pools.apply (s.live.entryOf event).event ≠ .error error := by
  intro hrefused
  unfold PoolStateTracker.apply PoolStateTracker.poolFor at hrefused
  rw [(entryOf_same s.live event).1, hcreated] at hrefused
  cases hpool : (s.live.entryOf event).event.pool? with
  | none =>
      rw [hpool] at hrefused
      cases hrefused
  | some address =>
      rw [hpool] at hrefused
      dsimp only at hrefused
      rw [if_neg (by decide)] at hrefused
      cases hknown : s.live.memory.pools.pools.get? address with
      | none =>
          rw [hknown] at hrefused
          cases hrefused
      | some record =>
          rw [hknown] at hrefused
          cases hrefused

/-- The view of a process after an event that the view follows. -/
theorem ownView_event (hapart : IdsApart config.toFilterConfig known)
    (hwell : WellKept config.toFilterConfig known s.live) (hconcerns : Concerns own mint event)
    (hplain : PlainStep config known own mint s (.live (.processEvent event))) :
    ownView config known own mint positionId
        { s with live := s.live.processEvent config.toFilterConfig event } =
      (ownView config known own mint positionId s).deliver config own mint event := by
  obtain ⟨hid, hknown, hunique, hcurve⟩ := hplain
  obtain ⟨hentry_type, hentry_pool, hentry_id, -, -⟩ := entryOf_same s.live event
  have hprocessed := processed_concat s.live.log (concerns_entryOf own mint s.live event hcurve)
    hentry_id
  rw [if_pos hconcerns] at hprocessed
  have hiff := processed_iff config known positionId (hunique hconcerns)
  unfold OwnView.deliver
  by_cases hdone : s.live.Processed event
  · rw [if_pos (hiff.mp hdone)]
    unfold LiveProcess.processEvent
    rw [if_pos hdone]
  · rw [if_neg fun h => hdone (hiff.mpr h)]
    rcases processEvent_cases config.toFilterConfig hdone with
      ⟨hfilter, hnext⟩ | ⟨hfilter, ⟨error, hrefused⟩, hnext⟩ |
        ⟨hfilter, outcome, flag, rows, happlies, hnext⟩
    · obtain ⟨reason, hreason⟩ := Option.isSome_iff_exists.mp hfilter
      have hpool : event.pool? = some own := hconcerns.resolve_right fun hcreated =>
        (LiveProcess.Sound.not_created_of_swap (LiveProcess.Sound.swap_of_filtered hreason)).2
          hcreated.1
      rw [filterReason_ownView mint positionId hwell hpool] at hfilter
      rw [if_pos hpool, if_pos hfilter, hnext]
      exact ownView_eq rfl rfl rfl (fun _ => rfl) hprocessed rfl rfl
    · have hpool : event.pool? = some own := hconcerns.resolve_right fun hcreated =>
        not_refused hcreated.1 error hrefused
      rw [filterReason_ownView mint positionId hwell hpool] at hfilter
      obtain ⟨other, hknows⟩ := knows_of_refused config known mint positionId hpool hrefused
      rw [if_pos hpool, hfilter, hnext]
      unfold OwnView.apply
      rw [hknows]
      rfl
    · by_cases hpool : event.pool? = some own
      · rw [filterReason_ownView mint positionId hwell hpool] at hfilter
        rw [if_pos hpool, hfilter, hnext]
        exact ownView_applied hapart hwell hdone hpool ⟨hid, hknown, hunique, hcurve⟩ happlies
      · rw [if_neg hpool, hnext]
        refine ownView_eq ?_ happlies.rest.1 ?_ ?_ hprocessed (supplied_of_applies hid happlies) rfl
        · exact barePool_congr (happlies.view_of_ne (hentry_pool.symm ▸ hpool))
        · exact creatorOf_applies_own rfl happlies hcurve (ownView config known own mint positionId s) rfl
        · exact candidates_of_applies_other hapart happlies
            (createdPair_entryOf s.live event ▸ hknown) (hentry_pool.symm ▸ hpool)

theorem supplied_insert (engine : EventTimeFeatureEngine) {observation : LiquidityObservation}
    (hid : SupplyId own observation.eventId) :
    { id | id ∈ (engine.ingestLiquidity observation).seen ∧ SupplyId own id } =
      insert observation.eventId { id | id ∈ engine.seen ∧ SupplyId own id } := by
  have hself : observation.eventId ∈ (engine.ingestLiquidity observation).seen := by
    unfold EventTimeFeatureEngine.ingestLiquidity
    split_ifs with hseen
    · exact hseen
    · exact List.mem_append_right _ (List.mem_singleton.mpr rfl)
  ext id
  rw [Set.mem_insert_iff]
  constructor
  · rintro ⟨hmem, hsupply⟩
    rcases (mem_seen_ingest engine id).2.1 observation hmem with hold | hnew
    · exact Or.inr ⟨hold, hsupply⟩
    · exact Or.inl hnew
  · rintro (rfl | ⟨hold, hsupply⟩)
    · exact ⟨hself, hid⟩
    · exact ⟨(subset_seen_ingest engine).2.1 observation hold, hsupply⟩

theorem liquidityOf_supply (engine : EventTimeFeatureEngine) {observation : LiquidityObservation}
    (hpool : observation.poolAddress = own) {supplied : Set String}
    (hseen : observation.eventId ∈ supplied ↔ observation.eventId ∈ engine.seen)
    [Decidable (observation.eventId ∈ supplied)] :
    (engine.ingestLiquidity observation).liquidityOf own =
      if observation.eventId ∈ supplied then engine.liquidityOf own
      else insertOrdered (fun item => (item.eventTime, item.eventId)) (engine.liquidityOf own)
        observation := by
  split_ifs with h
  · unfold EventTimeFeatureEngine.ingestLiquidity
    rw [if_pos (hseen.mp h)]
  · rw [liquidityOf_ingestLiquidity _ _ _ fun hold => h (hseen.mpr hold), if_pos hpool]

open Classical in
theorem ownView_supply (totalSupplyRaw : ℚ) (observedAt : Time) :
    ownView config known own mint positionId
        (s.step config (.live (.updatePoolSupply own totalSupplyRaw observedAt))) =
      (ownView config known own mint positionId s).supply config own totalSupplyRaw observedAt := by
  have hsupplied : own ++ ":supply:" ++ config.normalized totalSupplyRaw ∈
      (ownView config known own mint positionId s).supplied ↔
        own ++ ":supply:" ++ config.normalized totalSupplyRaw ∈ s.live.memory.features.seen :=
    ⟨fun h => h.1, fun h => ⟨h, _, rfl⟩⟩
  unfold OwnView.supply
  have hview_state : (ownView config known own mint positionId s).pool.state =
      s.live.memory.pools.states.get? own := rfl
  have hview_record : (ownView config known own mint positionId s).pool.record =
      s.live.memory.pools.pools.get? own := rfl
  rw [hview_state, hview_record]
  unfold ExitProcess.step LiveProcess.step updatePoolSupply PoolStateTracker.applyBaseSupply
  dsimp only
  cases hstate : s.live.memory.pools.states.get? own with
  | none => rfl
  | some state =>
      cases hrecord : s.live.memory.pools.pools.get? own with
      | none => rfl
      | some record =>
          dsimp only
          refine ownView_eq ?_ rfl rfl (fun _ => rfl) rfl ?_ rfl
          · unfold barePool Memory.view
            dsimp only
            rw [Dict.get?_set_self, hrecord]
            unfold EventTimeFeatureEngine.tradesOf
            rw [(ingestLiquidity_rest _ _).2]
            congr 1
            · exact hrecord.symm
            · exact liquidityOf_supply _ rfl hsupplied
          · exact supplied_insert _ ⟨_, rfl⟩

theorem any_ownKeys {config : FilterConfig} {candidates : Dict String Candidate} {other : String}
    {detectedAt : Time} :
    (ownKeys config known own candidates other).any (·.1 = detectedAt) = true ↔
      (other, own) ∈ known ∧ ∃ current,
        candidates.get? (config.candidateId other own) = some current ∧
          current.detectedAt = detectedAt := by
  unfold ownKeys
  split_ifs with hpair
  · cases hget : candidates.get? (config.candidateId other own) with
    | none =>
        constructor
        · intro h
          cases h
        · rintro ⟨-, current, hfound, -⟩
          cases hfound
    | some current =>
        constructor
        · intro h
          exact ⟨hpair, current, rfl, of_decide_eq_true h⟩
        · rintro ⟨-, found, hfound, hdetected⟩
          obtain rfl := Option.some.inj hfound
          exact decide_eq_true hdetected
  · constructor
    · intro h
      cases h
    · intro h
      exact absurd h.1 hpair

/-- A later version of a candidate of the pool. -/
theorem ownView_setCandidate (hapart : IdsApart config.toFilterConfig known)
    (hwell : WellKept config.toFilterConfig known s.live) {candidate : Candidate}
    (hown : candidate.poolAddress = own) :
    ownView config known own mint positionId (s.step config (.live (.setCandidate candidate))) =
      { ownView config known own mint positionId s with
        candidates :=
          (ownView config known own mint positionId s).setCandidate config own candidate } := by
  have hview : ∀ other, (ownView config known own mint positionId s).candidates other =
      ownKeys config.toFilterConfig known own s.live.memory.candidates other := fun _ => rfl
  unfold ExitProcess.step LiveProcess.step
  dsimp only
  cases hcurrent : s.live.memory.candidates.get? candidate.candidateId with
  | none =>
      refine ownView_eq rfl rfl rfl (fun other => ?_) rfl rfl rfl
      dsimp only
      unfold OwnView.setCandidate
      rw [if_neg, hview]
      rintro ⟨-, hid, hdetected⟩
      rw [hview, any_ownKeys, ← hid, hcurrent] at hdetected
      obtain ⟨-, current, hfound, -⟩ := hdetected
      cases hfound
  | some current =>
      obtain ⟨hfiled, hpair⟩ := hwell.filed _ current hcurrent
      dsimp only
      split_ifs with hsame
      · refine ownView_eq rfl rfl rfl (fun other => ?_) rfl rfl rfl
        dsimp only
        unfold OwnView.setCandidate
        by_cases hid : (other, own) ∈ known ∧ candidate.candidateId = config.candidateId other own
        · obtain ⟨hother, hid⟩ := hid
          have hmint := (Prod.mk.inj (hapart _ hpair _ hother (hfiled.symm.trans hid))).1
          have hdetected :=
            any_ownKeys.mpr ⟨hother, current, hid ▸ hcurrent, hsame.2.2.symm⟩
          rw [if_pos ⟨hsame.1.trans hmint, hid, hdetected⟩]
          unfold ownKeys
          rw [if_pos hother, hid, Dict.get?_set_self]
          rfl
        · rw [if_neg fun h => hid ⟨(any_ownKeys.mp h.2.2).1, h.2.1⟩, hview]
          unfold ownKeys
          split_ifs with hother
          · exact congrArg (Option.map filterKey) (Dict.get?_set_ne _ (fun h => hid ⟨hother, h⟩) _)
          · rfl
      · refine ownView_eq rfl rfl rfl (fun other => ?_) rfl rfl rfl
        dsimp only
        unfold OwnView.setCandidate
        rw [if_neg, hview]
        rintro ⟨hmint, hid, hdetected⟩
        rw [hview, any_ownKeys, ← hid, hcurrent] at hdetected
        obtain ⟨hother, found, hfound, hdetected⟩ := hdetected
        obtain rfl := Option.some.inj hfound
        obtain ⟨hmint', hpool⟩ := Prod.mk.inj (hapart _ hpair _ hother (hfiled.symm.trans hid))
        exact hsame ⟨hmint.trans hmint'.symm, hown.trans hpool.symm, hdetected.symm⟩

/-! ## The evaluations of the position -/

section Evaluate

variable {settings : ExitSettings} {e : Evaluation}

/-- The figures of the pool in the process and in the engine of the view. -/
theorem snapshot_ownView (config : PipelineConfig) (known : List (String × String))
    (own mint positionId : String) (s : ExitProcess) (at' : Time) :
    let snapshot := s.live.memory.features.snapshot own at'
    let seen := ((ownView config known own mint positionId s).engine own).snapshot own at'
    snapshot.buySellVolumeRatio = seen.buySellVolumeRatio ∧
      snapshot.uniqueBuyers30s = seen.uniqueBuyers30s ∧
      snapshot.uniqueSellers30s = seen.uniqueSellers30s ∧
      snapshot.quoteLiquidityChange30s = seen.quoteLiquidityChange30s := by
  refine snapshot_exit_congr ?_ ?_ at'
  · unfold OwnView.engine EventTimeFeatureEngine.tradesOf
    rw [Dict.get?_set_self, Option.getD_some]
    change _ = ((s.live.memory.features.tradesOf own).map bareTrade).map bareTrade
    rw [List.map_map]
    rfl
  · unfold OwnView.engine EventTimeFeatureEngine.liquidityOf
    rw [Dict.get?_set_self, Option.getD_some]
    rfl

theorem momentumNow_congr {feature other : Features.FeatureSnapshot}
    (hratio : feature.buySellVolumeRatio = other.buySellVolumeRatio)
    (hbuyers : feature.uniqueBuyers30s = other.uniqueBuyers30s)
    (hsellers : feature.uniqueSellers30s = other.uniqueSellers30s) :
    momentumNow (some feature) = momentumNow (some other) := by
  unfold momentumNow
  rw [Option.any_some, Option.any_some, hratio, hbuyers, hsellers]

theorem liquidityDropped_congr {feature other : Features.FeatureSnapshot}
    (hchange : feature.quoteLiquidityChange30s = other.quoteLiquidityChange30s) :
    liquidityDropped settings (some feature) = liquidityDropped settings (some other) := by
  unfold liquidityDropped
  rw [Option.any_some, Option.any_some, hchange]

/-- The momentum windows of the position are those that its pool gives. -/
theorem windows_ownView (config : PipelineConfig) (known : List (String × String)) (mint : String)
    {candidate : Candidate} (hcandidate : s.candidate e = some candidate)
    (hpool : candidate.poolAddress = own) (hposition : e.position.positionId = positionId) :
    s.windows e = (ownView config known own mint positionId s).windowsAfter own e := by
  obtain ⟨hratio, hbuyers, hsellers, -⟩ :=
    snapshot_ownView config known own mint positionId s e.now
  unfold ExitProcess.windows ExitProcess.feature OwnView.windowsAfter
  rw [hcandidate, Option.map_some, hpool, hposition, momentumNow_congr hratio hbuyers hsellers]
  rfl

theorem devSold_ownView (config : PipelineConfig) (known : List (String × String))
    (positionId : String) {candidate : Candidate} (hpool : candidate.poolAddress = own)
    (hmint : e.position.tokenMint = mint) :
    devSold s.live.memory (some candidate) e =
      ((ownView config known own mint positionId s).creator.filter (· ≠ "")).any fun wallet =>
        soldBy wallet e (ownView config known own mint positionId s).pool.trades := by
  unfold devSold
  rw [hmint]
  change _ = ((creatorOf s.live.memory.tokens mint).filter (· ≠ "")).any fun wallet =>
    soldBy wallet e ((s.live.memory.features.tradesOf own).map bareTrade)
  cases (creatorOf s.live.memory.tokens mint).filter (· ≠ "") with
  | none => rfl
  | some wallet =>
      dsimp only
      rw [hpool]
      exact (soldBy_map_bare wallet e _).symm

/-- The decision about the position is the one that its pool gives. -/
theorem evaluated_ownView {candidate : Candidate} (hcandidate : s.candidate e = some candidate)
    (hpool : candidate.poolAddress = own) (hmint : e.position.tokenMint = mint)
    (hposition : e.position.positionId = positionId) :
    s.evaluated e settings = (ownView config known own mint positionId s).evaluated own settings e := by
  obtain ⟨-, -, -, hchange⟩ :=
    snapshot_ownView config known own mint positionId s e.now
  unfold ExitProcess.evaluated OwnView.evaluated
  rw [windows_ownView config known mint hcandidate hpool hposition, hcandidate,
    devSold_ownView config known positionId hpool hmint]
  unfold ExitProcess.feature
  rw [hcandidate, Option.map_some, hpool, liquidityDropped_congr hchange]

end Evaluate

end Own

/-! ## Runs -/

section Runs

variable {config : PipelineConfig} {known : List (String × String)}
  {own mint positionId : String} {settings : ExitSettings}

/-- The view of a process after a step that the view follows. -/
theorem ownView_own (hapart : IdsApart config.toFilterConfig known) {s : ExitProcess}
    (hwell : WellKept config.toFilterConfig known s.live) {step : ExitStep}
    (hplain : PlainStep config known own mint s step) (hfirst : OwnFirst own positionId s step)
    (hown : Relevant own mint positionId step) :
    ownView config known own mint positionId (s.step config step) =
      (ownView config known own mint positionId s).step config own mint step := by
  cases step with
  | evaluate e =>
      have hposition : e.position.positionId = positionId := hown
      obtain ⟨candidate, hcandidate, hpool⟩ := Option.map_eq_some_iff.mp (hfirst hposition)
      refine ownView_eq rfl rfl rfl (fun _ => rfl) rfl rfl ?_
      change (s.momentumWindows.set e.position.positionId (s.windows e)).get? positionId =
        some ((ownView config known own mint positionId s).windowsAfter own e)
      rw [← windows_ownView config known mint hcandidate hpool hposition, hposition]
      exact Dict.get?_set_self _ _ _
  | live step =>
      cases step with
      | processEvent event => exact ownView_event hapart hwell hown hplain
      | setQuotePrice price => rfl
      | updatePoolSupply address totalSupplyRaw observedAt =>
          obtain rfl : address = own := hown
          exact ownView_supply totalSupplyRaw observedAt
      | setCandidate candidate => exact ownView_setCandidate hapart hwell hown
      | applyEnrichment => exact hown.elim
      | applyMintState => exact hown.elim
      | ingestHolders => exact hown.elim
      | upsertCandidate => exact hown.elim

theorem decision_own {s : ExitProcess} {step : ExitStep}
    (hrecorded : Recorded config own mint positionId s step)
    (hfirst : OwnFirst own positionId s step) :
    s.decision settings positionId step =
      (ownView config known own mint positionId s).decision own settings positionId step := by
  cases step with
  | live step => rfl
  | evaluate e =>
      unfold ExitProcess.decision OwnView.decision
      dsimp only
      split_ifs with hposition
      · obtain ⟨-, hmint, -⟩ := hrecorded hposition
        obtain ⟨candidate, hcandidate, hpool⟩ := Option.map_eq_some_iff.mp (hfirst hposition)
        exact congrArg some (evaluated_ownView hcandidate hpool hmint hposition)
      · rfl

theorem decision_other {s : ExitProcess} {step : ExitStep}
    (hother : ¬ Relevant own mint positionId step) : s.decision settings positionId step = none := by
  cases step with
  | live step => rfl
  | evaluate e => exact if_neg hother

/-- A run of plain steps from a process as it is kept, in which the position is recorded. -/
structure OwnRun (config : PipelineConfig) (known : List (String × String))
    (own mint positionId : String) (s : ExitProcess) (run : List ExitStep) : Prop where
  wellKept : WellKept config.toFilterConfig known s.live
  plain : Along (PlainStep config known own mint) (ExitProcess.step config) s run
  recorded : Along (Recorded config own mint positionId) (ExitProcess.step config) s run

/-- The decisions about the position in a run. -/
def decisionsOf (config : PipelineConfig) (settings : ExitSettings) (positionId : String)
    (s : ExitProcess) (run : List ExitStep) : List ExitDecision :=
  outputs (ExitProcess.step config) (ExitProcess.decision settings positionId) s run

/-- Two runs that agree in the pool of the position, and in the steps about it, decide alike about
the position, where the steps of both meet the condition. -/
def OfOwnPool (config : PipelineConfig) (settings : ExitSettings) (known : List (String × String))
    (own mint positionId : String) (condition : ExitProcess → ExitStep → Prop) : Prop :=
  ∀ s s' run run', OwnRun config known own mint positionId s run →
    OwnRun config known own mint positionId s' run' →
    Along condition (ExitProcess.step config) s run →
    Along condition (ExitProcess.step config) s' run' →
    ownView config known own mint positionId s = ownView config known own mint positionId s' →
    run.filter (Relevant own mint positionId) = run'.filter (Relevant own mint positionId) →
    decisionsOf config settings positionId s run = decisionsOf config settings positionId s' run'

/-- What a step of a run is known to do. -/
structure OwnStep (config : PipelineConfig) (known : List (String × String))
    (own mint positionId : String) (s : ExitProcess) (step : ExitStep) : Prop where
  wellKept : WellKept config.toFilterConfig known s.live
  plain : PlainStep config known own mint s step
  recorded : Recorded config own mint positionId s step
  first : OwnFirst own positionId s step

/-- The process follows the view of the position. -/
theorem follows_ownView (settings : ExitSettings) (mint positionId : String)
    (hapart : IdsApart config.toFilterConfig known) :
    Follows (OwnStep config known own mint positionId) (Relevant own mint positionId)
      (ExitProcess.step config) (ExitProcess.decision settings positionId)
      (ownView config known own mint positionId) (OwnView.step config own mint)
      (fun view => view.decision own settings positionId) where
  own _ _ hstep hown := ownView_own hapart hstep.wellKept hstep.plain hstep.first hown
  other _ _ hstep hother := ownView_other hapart hstep.wellKept hstep.plain hother
  spoken _ _ hstep _ := decision_own hstep.recorded hstep.first
  silent _ _ _ hother := decision_other hother

theorem wellKept_step {s : ExitProcess} (hwell : WellKept config.toFilterConfig known s.live)
    {step : ExitStep} (hplain : PlainStep config known own mint s step) :
    WellKept config.toFilterConfig known (s.step config step).live := by
  cases step with
  | evaluate e => exact hwell
  | live step =>
      refine hwell.step step ?_
      rintro event rfl
      exact hplain.2.1

theorem OwnRun.steps {s : ExitProcess} {run : List ExitStep}
    (h : OwnRun config known own mint positionId s run)
    (hfirst : Along (OwnFirst own positionId) (ExitProcess.step config) s run) :
    Along (OwnStep config known own mint positionId) (ExitProcess.step config) s run := by
  have hguards := Along.and_invariant (I := fun _ => True) (fun _ _ _ _ => trivial) trivial
    h.recorded hfirst
  have hall := Along.and_invariant (I := fun s => WellKept config.toFilterConfig known s.live)
    (fun _ _ hwell hplain => wellKept_step hwell hplain) h.wellKept h.plain hguards
  exact hall.mono fun _ _ hstep => ⟨hstep.1, hstep.2.1, hstep.2.2.2.1, hstep.2.2.2.2⟩

/-- Where the first candidate of the mint is that of its pool, the decisions about the position
depend on the pool alone. -/
theorem decisions_ofOwnPool (settings : ExitSettings) (own mint positionId : String)
    (hapart : IdsApart config.toFilterConfig known) :
    OfOwnPool config settings known own mint positionId (OwnFirst own positionId) := by
  intro s s' run run' hrun hrun' hfirst hfirst' hview hsame
  exact (follows_ownView settings mint positionId hapart).outputs_eq hview (hrun.steps hfirst)
    (hrun'.steps hfirst') hsame

end Runs

/-! ## Two pools of one mint -/

/-- The creation of another pool of the mint. -/
def otherCreation : EventEnvelope where
  eventId := "b1"
  source := .heliusWss
  protocol := .pumpswap
  eventType := .poolCreated
  slot := 1
  signature := "sig-other"
  blockTime := seconds 1
  observedAt := seconds 1
  mint := some "mint"
  poolAddress := some "other"
  payload :=
    { baseMint := some "mint", quoteMint := some usdcMint
      baseMintDecimals := some 0, quoteMintDecimals := some 0
      poolBaseAmount := some 100, poolQuoteAmount := some 100 }

/-- A sale that takes half of the quote reserves of the other pool. -/
def otherSale : EventEnvelope where
  eventId := "b2"
  source := .heliusWss
  protocol := .pumpswap
  eventType := .swapSell
  slot := 4
  signature := "sig-sale"
  blockTime := seconds 40
  observedAt := seconds 40
  mint := some "mint"
  poolAddress := some "other"
  payload :=
    { user := some "wallet", baseAmountIn := some 100, quoteAmountOut := some 50
      poolBaseTokenReserves := some 200, poolQuoteTokenReserves := some 50 }

def samplePosition : PositionRecord where
  positionId := "position"
  tokenMint := "mint"
  openFillId := "fill"
  entryTokenAmount := 100
  entryCostUsd := 10
  openRatio := 1
  openedAt := seconds 20
  lockedUsd := 10
  remainingTokenAmount := 100
  remainingCostUsd := 10
  context := { candidateId := some "mint/pool", poolAddress := some "pool" }

def sampleEvaluation : Evaluation where
  position := samplePosition
  executablePrice := 1 / 10
  now := seconds 41
  limitExceeded := false

def samplePairs : List (String × String) := [("mint", "pool"), ("mint", "other")]

def delivery (event : EventEnvelope) : ExitStep := .live (.processEvent event)

/-- The pool of the position is alone. -/
def aloneRun : List ExitStep :=
  [.live (.setQuotePrice usdc), delivery poolCreation, .evaluate sampleEvaluation]

/-- The other pool is created after that of the position, and its liquidity falls. -/
def afterRun : List ExitStep :=
  [.live (.setQuotePrice usdc), delivery poolCreation, delivery otherCreation, delivery otherSale,
    .evaluate sampleEvaluation]

/-- The other pool is created first. -/
def beforeRun : List ExitStep :=
  [.live (.setQuotePrice usdc), delivery otherCreation, delivery poolCreation, delivery otherSale,
    .evaluate sampleEvaluation]

theorem plainStep_of_new {config : PipelineConfig} {known : List (String × String)}
    {own mint : String} {s : ExitProcess} {event : EventEnvelope}
    (hid : ':' ∉ event.eventId.toList) (hknown : ∀ pair ∈ createdPair event, pair ∈ known)
    (hnew : ¬ s.live.Processed event) (htype : event.eventType ≠ .tokenCreated) :
    PlainStep config known own mint s (delivery event) := by
  refine ⟨hid, hknown, fun _ entry hentry hsame => ?_, fun h => absurd h htype⟩
  exact absurd (List.mem_map.mpr ⟨entry, hentry, hsame⟩) hnew

theorem sampleWellKept : WellKept sampleConfig.toFilterConfig samplePairs ({} : ExitProcess).live where
  sound := LiveProcess.Sound.start sampleConfig.toFilterConfig {}
  recorded _ _ h := by cases h
  filed _ _ h := by cases h

theorem ownRun_alone : OwnRun sampleConfig samplePairs "pool" "mint" "position" {} aloneRun where
  wellKept := sampleWellKept
  plain := by
    refine ⟨trivial, plainStep_of_new ?_ ?_ ?_ ?_, trivial, trivial⟩ <;> decide +kernel
  recorded := by decide +kernel

theorem ownRun_after : OwnRun sampleConfig samplePairs "pool" "mint" "position" {} afterRun where
  wellKept := sampleWellKept
  plain := by
    refine ⟨trivial, plainStep_of_new ?_ ?_ ?_ ?_, plainStep_of_new ?_ ?_ ?_ ?_,
      plainStep_of_new ?_ ?_ ?_ ?_, trivial, trivial⟩ <;> decide +kernel
  recorded := by decide +kernel

theorem ownRun_before : OwnRun sampleConfig samplePairs "pool" "mint" "position" {} beforeRun where
  wellKept := sampleWellKept
  plain := by
    refine ⟨trivial, plainStep_of_new ?_ ?_ ?_ ?_, plainStep_of_new ?_ ?_ ?_ ?_,
      plainStep_of_new ?_ ?_ ?_ ?_, trivial, trivial⟩ <;> decide +kernel
  recorded := by decide +kernel

theorem decisions_ofOwnPool_sample :
    decisionsOf sampleConfig {} "position" {} aloneRun =
        decisionsOf sampleConfig {} "position" {} afterRun ∧
      (decisionsOf sampleConfig {} "position" {} afterRun).map (·.reason) = [.noExit] :=
  ⟨decisions_ofOwnPool {} "pool" "mint" "position" (by decide) {} {} aloneRun afterRun ownRun_alone
    ownRun_after (by decide +kernel) (by decide +kernel) rfl rfl, by decide +kernel⟩

/-- A pool of the mint that was created before that of the position decides in its place. -/
theorem decisions_not_ofOwnPool :
    ¬ ∀ (config : PipelineConfig) (settings : ExitSettings) (known : List (String × String))
      (own mint positionId : String), IdsApart config.toFilterConfig known →
      OfOwnPool config settings known own mint positionId fun _ _ => True := by
  intro h
  have hsame := h sampleConfig {} samplePairs "pool" "mint" "position" (by decide) {} {} aloneRun
    beforeRun ownRun_alone ownRun_before ⟨trivial, trivial, trivial, trivial⟩
    ⟨trivial, trivial, trivial, trivial, trivial, trivial⟩ rfl rfl
  have halone : (decisionsOf sampleConfig {} "position" {} aloneRun).map (·.reason) = [.noExit] := by
    decide +kernel
  have hbefore : (decisionsOf sampleConfig {} "position" {} beforeRun).map (·.reason) =
      [.emergency] := by
    decide +kernel
  rw [hsame, hbefore] at halone
  cases halone

end SniperBot.Exits
