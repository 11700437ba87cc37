import SniperBot.Features.Restart

/-!
# The restarted process against the one that never stopped

The recovery applies the processed events again, in another order and with less at hand: the pool
creations come first, the candidates are those of the crash, and no observer runs. The two
processes are followed side by side over the log of the live one. Before the live process knows the
pool, the restarted one has it as the bootstrap left it; from then on their views are equal.
-/

namespace SniperBot.Features

open Basis Candidates

/-! ## The pool's events -/

/-- Only a trade takes the flag and the creator. -/
theorem PoolView.ingest_of_not_swap (view : PoolView) (address : String) (pool : PoolRecord)
    (price : Option QuoteAssetPrice) (creator other : Option String) {event : EventEnvelope}
    (hswap : ¬ event.eventType.Swap) (flag otherFlag : Bool) :
    view.ingest address pool price creator (event.withSameFunder flag) =
      view.ingest address pool price other (event.withSameFunder otherFlag) := by
  have hno : ∀ price : ℚ, ¬ (event.eventType.Swap ∧ price > 0) := fun _ h => hswap h.1
  unfold PoolView.ingest EventEnvelope.withSameFunder
  dsimp only
  rw [if_neg (hno _), if_neg (hno _)]
  rfl

section Entry

variable {config : FilterConfig} {live next : LiveProcess} {event : EventEnvelope}
  {address mint : String}

@[simp] theorem entryOf_same (live : LiveProcess) (event : EventEnvelope) :
    (live.entryOf event).event.eventType = event.eventType ∧
      (live.entryOf event).event.pool? = event.pool? ∧
      (live.entryOf event).event.eventId = event.eventId ∧
      (live.entryOf event).event.blockTime = event.blockTime ∧
      (live.entryOf event).event.payload = event.payload := by
  obtain ⟨mint, hmint⟩ := withKnownPoolMint_same live.memory.pools.pools event
  unfold LiveProcess.entryOf
  rw [hmint]
  exact ⟨rfl, rfl, rfl, rfl, rfl⟩

/-- The effective event does not depend on the mint that was filled in. -/
theorem effectiveEvent_entryOf (live : LiveProcess) (event : EventEnvelope) (pool : PoolRecord) :
    effectiveEvent (some pool) (live.entryOf event).event = effectiveEvent (some pool) event := by
  obtain ⟨mint, hmint⟩ := withKnownPoolMint_same live.memory.pools.pools event
  unfold LiveProcess.entryOf
  rw [hmint]
  rfl

theorem Delivered.view_of_ne (hstep : Delivered config live event next)
    (hother : event.pool? ≠ some address) :
    next.memory.view address = live.memory.view address := by
  cases hstep with
  | unchanged => rfl
  | filtered reason hnew hfilter => rfl
  | applied outcome pools state hnew hfilter happly happlies =>
      refine happlies.view_of_ne ?_
      rw [(entryOf_same live event).2.1]
      exact hother

theorem Delivered.creatorOf (hstep : Delivered config live event next)
    (hlog : next.log = live.log ++ [live.entryOf event])
    (hcurve : event.eventType = .tokenCreated → event.pool?.bind live.memory.pools.pools.get? = none)
    (mint : String) :
    creatorOf next.memory.tokens mint =
      if event.eventType = .tokenCreated ∧ (live.entryOf event).event.mint = some mint ∧
          mint ≠ "" then
        text (orText event.payload.creator event.payload.user)
      else creatorOf live.memory.tokens mint := by
  obtain ⟨htype, hpool, -, -, hpayload⟩ := entryOf_same live event
  cases hstep with
  | unchanged =>
      have hlength := congrArg List.length hlog
      rw [List.length_append, List.length_singleton] at hlength
      omega
  | filtered reason hnew hfilter =>
      have hnot := LiveProcess.Sound.not_created_of_swap (LiveProcess.Sound.swap_of_filtered hfilter)
      rw [if_neg fun h => hnot.2 h.1]
  | applied outcome pools state hnew hfilter happly happlies =>
      have happlied := happlies.creatorOf (by rw [htype, hpool]; exact hcurve) mint
      rw [htype, hpayload] at happlied
      exact happlied

end Entry

/-! ## The condition -/

/-- The event leaves no trace that the restart loses. The creation of the pool is its first event
and its only creation; its other events and the creation of its token lie in the window; the filter
decides the same for the candidates of the crash (`rows`); and the flag of a swap is the one its
stored payload has. -/
def EventKept (config : FilterConfig) (rows : Dict String Candidate) (since : Time)
    (address mint : String) (live : LiveProcess) (event : EventEnvelope) : Prop :=
  (event.pool? = some address →
    (event.eventType = .poolCreated ↔ live.memory.pools.pools.get? address = none) ∧
    (event.eventType ≠ .poolCreated → since ≤ event.blockTime) ∧
    ((eventStateFilterReason config live.memory.pools.pools live.memory.candidates event).isSome ↔
      (eventStateFilterReason config live.memory.pools.pools rows event).isSome) ∧
    (event.eventType.Swap →
      (eventStateFilterReason config live.memory.pools.pools rows event).isNone →
        sameFunderFlag live.memory.wallets
          (effectiveEvent (live.memory.pools.pools.get? address) event) =
            event.payload.sameFunderCluster)) ∧
  (event.eventType = .tokenCreated → event.mint = some mint → since ≤ event.blockTime)

/-- The step is rebuilt for the pool: a new event is kept, and no supply of the pool is taken from
the chain. -/
def Kept (config : FilterConfig) (rows : Dict String Candidate) (since : Time)
    (address mint : String) (live : LiveProcess) : LiveStep → Prop
  | .processEvent event =>
      live.Processed event ∨ EventKept config rows since address mint live event
  | .updatePoolSupply poolAddress _ _ => poolAddress ≠ address
  | _ => True

instance (config : FilterConfig) (rows : Dict String Candidate) (since : Time)
    (address mint : String) (live : LiveProcess) (event : EventEnvelope) :
    Decidable (EventKept config rows since address mint live event) :=
  inferInstanceAs (Decidable (_ ∧ _))

instance (config : FilterConfig) (rows : Dict String Candidate) (since : Time)
    (address mint : String) (live : LiveProcess) :
    ∀ label, Decidable (Kept config rows since address mint live label)
  | .processEvent _ => inferInstanceAs (Decidable (_ ∨ _))
  | .updatePoolSupply _ _ _ => inferInstanceAs (Decidable (_ ≠ _))
  | .setQuotePrice _ | .applyEnrichment _ _ _ _ | .applyMintState _ _ _ _ _ | .ingestHolders _ _
  | .setCandidate _ | .upsertCandidate _ => isTrue trivial

/-- The events that are handed to the process. -/
def handed (run : List LiveStep) : List EventEnvelope :=
  run.filterMap fun
    | .processEvent event => some event
    | _ => none

/-- Event ids are hexadecimal digests. -/
def PlainIds (events : List EventEnvelope) : Prop :=
  ∀ event ∈ events, ':' ∉ event.eventId.toList

/-- A bonding curve is no pool: no pool is created at the address of a `TOKEN_CREATED` event. -/
def CurvesApart (events : List EventEnvelope) : Prop :=
  ∀ event ∈ events, event.eventType = .tokenCreated → ∀ creation ∈ events,
    creation.eventType = .poolCreated → creation.pool?.isSome → event.pool? ≠ creation.pool?

/-! ## The two processes -/

/-- What the steps so far say about the whole run: its log, the events of the bootstrap, the rows
of the crash and the memory after the bootstrap. -/
structure Recovery (config : FilterConfig) (address mint : String) (log bootstrap : List LogEntry)
    (rows : Dict String Candidate) (base : Memory) : Prop where
  ids : (log.map (·.event.eventId)).Nodup
  accepted : ∀ entry ∈ log, Accepted config rows entry
  curves : CurvesApart (log.map (·.event))
  bootstrapped : ∀ entry ∈ bootstrap, entry ∈ log ∧ entry.event.eventType = .poolCreated
  /-- the creation of the pool is in the bootstrap, and decides its view there -/
  created : ∀ entry ∈ log, Creates address entry → entry ∈ bootstrap ∧
    ∀ pool, createdPool entry.event address = .ok pool → pool.baseMint = mint ∧
      base.view address = PoolView.unknown.ingest address pool
        (entry.quotePrices.get? pool.quoteMint) none
        ((effectiveEvent (some pool) entry.event).withSameFunder false)

/-- The restarted process has applied the log of the live one again, and agrees with it about the
pool, once the live one knows it. -/
structure InStep (rows : Dict String Candidate) (bootstrap : List LogEntry) (since : Time)
    (address mint : String) (base : Memory) (live : LiveProcess) (memory : Memory) : Prop where
  replayed : Replayed rows (bootstrap ++ eventsSince live.log bootstrap since) memory
  creator : creatorOf memory.tokens mint = creatorOf live.memory.tokens mint
  unknown : live.memory.pools.pools.get? address = none →
    live.memory.view address = PoolView.unknown ∧ memory.view address = base.view address
  known : ∀ pool, live.memory.pools.pools.get? address = some pool →
    memory.view address = live.memory.view address

/-- The entry is applied again, or it is not among the events of the window. -/
inductive Resumed (config : FilterConfig) (bootstrap : List LogEntry) (since : Time)
    (entry : LogEntry) (memory : Memory) : Memory → Prop
  | skipped (hskip : ¬ (since ≤ entry.event.blockTime ∧
      entry.event.eventId ∉ bootstrap.map (·.event.eventId))) :
      Resumed config bootstrap since entry memory memory
  | rehydrated {next : Memory} (hsince : since ≤ entry.event.blockTime)
      (hnew : entry.event.eventId ∉ bootstrap.map (·.event.eventId))
      (hstep : Rehydrated config memory entry next) :
      Resumed config bootstrap since entry memory next

section InStep

variable {config : FilterConfig} {rows : Dict String Candidate} {log bootstrap : List LogEntry}
  {since : Time} {address mint : String} {base memory : Memory} {live next : LiveProcess}
  {event : EventEnvelope} {entry : LogEntry}

theorem eventsSince_concat (log bootstrap : List LogEntry) (since : Time) (entry : LogEntry) :
    eventsSince (log ++ [entry]) bootstrap since =
      eventsSince log bootstrap since ++
        if since ≤ entry.event.blockTime ∧
          entry.event.eventId ∉ bootstrap.map (·.event.eventId) then [entry] else [] := by
  unfold eventsSince
  rw [List.filter_append]
  congr 1
  split_ifs with hkept
  · exact List.filter_cons_of_pos (by simpa using hkept)
  · exact List.filter_cons_of_neg (by simpa using hkept)

/-- One more entry of the live log is one step of the recovery. -/
theorem exists_resumed (haccepted : Accepted config rows entry) {start : Memory}
    (hfold : (eventsSince log bootstrap since).foldlM (rehydrateEvent config) start = .ok memory)
    (hreplayed : Replayed rows (bootstrap ++ eventsSince log bootstrap since) memory) :
    ∃ resumed, (eventsSince (log ++ [entry]) bootstrap since).foldlM (rehydrateEvent config) start =
        .ok resumed ∧
      Resumed config bootstrap since entry memory resumed ∧
      Replayed rows (bootstrap ++ eventsSince (log ++ [entry]) bootstrap since) resumed := by
  rw [eventsSince_concat]
  by_cases hkept : since ≤ entry.event.blockTime ∧
      entry.event.eventId ∉ bootstrap.map (·.event.eventId)
  · obtain ⟨resumed, hrehydrate, hstep⟩ := exists_rehydrate memory haccepted
    rw [if_pos hkept]
    refine ⟨resumed, ?_, .rehydrated hkept.1 hkept.2 hstep, ?_⟩
    · rw [List.foldlM_append, hfold]
      show (rehydrateEvent config memory entry >>= fun last => pure last) = _
      rw [hrehydrate]
      rfl
    · rw [← List.append_assoc]
      exact hstep.replayed haccepted hreplayed
  · rw [if_neg hkept, List.append_nil]
    exact ⟨memory, hfold, .skipped hkept, hreplayed⟩

theorem Resumed.view_of_ne {resumed : Memory}
    (hstep : Resumed config bootstrap since entry memory resumed)
    (hother : entry.event.pool? ≠ some address) : resumed.view address = memory.view address := by
  cases hstep with
  | skipped hskip => rfl
  | rehydrated hsince hnew hstep => exact hstep.view_of_ne hother

theorem eventsSince_subset (log bootstrap : List LogEntry) (since : Time) :
    eventsSince log bootstrap since ⊆ log := List.filter_subset_self _

/-- No event of the bootstrap has the id of an event that is no creation. -/
theorem Recovery.notMem_bootstrap (h : Recovery config address mint log bootstrap rows base)
    (hentry : entry ∈ log) (htype : entry.event.eventType ≠ .poolCreated) :
    entry.event.eventId ∉ bootstrap.map (·.event.eventId) := by
  intro hmem
  obtain ⟨other, hother, hid⟩ := List.mem_map.mp hmem
  obtain ⟨hlog, hcreated⟩ := h.bootstrapped other hother
  obtain rfl := List.inj_on_of_nodup_map h.ids hlog hentry hid
  exact htype hcreated

/-- The pool of a `TOKEN_CREATED` event is unknown, live and restarted. -/
theorem Recovery.curve_unknown (h : Recovery config address mint log bootstrap rows base)
    (hentry : live.entryOf event ∈ log) (hcreated : event.eventType = .tokenCreated)
    {pools : Dict String PoolRecord} {known : List LogEntry} (hknown : known ⊆ log)
    (hpools : ∀ address pool, pools.get? address = some pool →
      ∃ entry ∈ known, Creates address entry) :
    event.pool?.bind pools.get? = none := by
  obtain ⟨htype, hpool, -, -, -⟩ := entryOf_same live event
  cases hget : event.pool?.bind pools.get? with
  | none => rfl
  | some pool =>
      obtain ⟨own, hown, hrecord⟩ := Option.bind_eq_some_iff.mp hget
      obtain ⟨creation, hcreation, hcreates⟩ := hpools own pool hrecord
      refine absurd (hpool.trans (hown.trans hcreates.2.symm)) ?_
      exact h.curves _ (List.mem_map_of_mem hentry) (htype.trans hcreated) _
        (List.mem_map_of_mem (hknown hcreation)) hcreates.1 (by rw [hcreates.2]; rfl)

theorem LiveProcess.Sound.creations (h : live.Sound config) (address : String) (pool : PoolRecord)
    (hget : live.memory.pools.pools.get? address = some pool) :
    ∃ entry ∈ live.log, Creates address entry := by
  obtain ⟨entry, hentry, hcreates, -⟩ := h.pools address pool hget
  exact ⟨entry, hentry, hcreates⟩

/-- The ids of a new event's observations are new to the live process. -/
theorem LiveProcess.Sound.fresh (h : live.Sound config) (hnew : ¬ live.Processed event)
    (hid : ':' ∉ event.eventId.toList) :
    event.eventId ++ ":liquidity" ∉ live.memory.features.seen ∧
      event.eventId ++ ":trade" ∉ live.memory.features.seen := by
  obtain ⟨hliquidity, htrade⟩ := not_observed hnew
  have hcount : ∀ suffix : String, suffix.toList.count ':' = 1 →
      ¬ 2 ≤ (event.eventId ++ suffix).toList.count ':' := by
    intro suffix hsuffix
    rw [String.toList_append, List.count_append, List.count_eq_zero.mpr hid, hsuffix]
    decide
  refine ⟨fun hmem => ?_, fun hmem => ?_⟩
  · exact (h.seen _ hmem).elim hliquidity (hcount _ (by decide))
  · exact (h.seen _ hmem).elim htrade (hcount _ (by decide))

/-- They are new to the restarted process, unless the event is one of the bootstrap. -/
theorem Replayed.fresh (h : Replayed rows (bootstrap ++ eventsSince live.log bootstrap since) memory)
    (hnew : ¬ live.Processed event)
    (hbootstrap : event.eventId ∉ bootstrap.map (·.event.eventId)) :
    event.eventId ++ ":liquidity" ∉ memory.features.seen ∧
      event.eventId ++ ":trade" ∉ memory.features.seen := by
  have hnone : event.eventId ∉
      (bootstrap ++ eventsSince live.log bootstrap since).map (·.event.eventId) := by
    rw [List.map_append, List.mem_append, not_or]
    exact ⟨hbootstrap, fun hmem => hnew (List.map_subset _ (eventsSince_subset _ _ _) hmem)⟩
  obtain ⟨hliquidity, htrade⟩ := not_observed hnone
  exact ⟨fun hmem => hliquidity (h.seen _ hmem), fun hmem => htrade (h.seen _ hmem)⟩

/-- Both processes learn the creator of the token. -/
theorem InStep.creator_step (hrun : Recovery config address mint log bootstrap rows base)
    (hsound : live.Sound config) (h : InStep rows bootstrap since address mint base live memory)
    (hstep : Delivered config live event next)
    (hlog : next.log = live.log ++ [live.entryOf event]) (hsub : next.log ⊆ log)
    (hkept : EventKept config rows since address mint live event) {resumed : Memory}
    (hresumed : Resumed config bootstrap since (live.entryOf event) memory resumed) :
    creatorOf resumed.tokens mint = creatorOf next.memory.tokens mint := by
  obtain ⟨htype, hpool, -, htime, hpayload⟩ := entryOf_same live event
  have hentry : live.entryOf event ∈ log :=
    hsub (hlog ▸ List.mem_append_right _ (List.mem_singleton_self _))
  have hold : live.log ⊆ log := fun _ hmem => hsub (hlog ▸ List.mem_append_left _ hmem)
  have hlive : event.eventType = .tokenCreated →
      event.pool?.bind live.memory.pools.pools.get? = none :=
    fun hcreated => hrun.curve_unknown hentry hcreated hold hsound.creations
  have hdone : bootstrap ++ eventsSince live.log bootstrap since ⊆ log :=
    List.append_subset.mpr ⟨fun entry hmem => (hrun.bootstrapped entry hmem).1,
      fun _ hmem => hold (eventsSince_subset _ _ _ hmem)⟩
  rw [hstep.creatorOf hlog hlive mint]
  cases hresumed with
  | skipped hskip =>
      rw [h.creator, if_neg]
      rintro ⟨hcreated, hmint, -⟩
      refine hskip ⟨?_, hrun.notMem_bootstrap hentry (by rw [htype, hcreated]; decide)⟩
      have hsame : (live.entryOf event).event = event := withKnownPoolMint_unknown (hlive hcreated)
      rw [hsame] at hmint
      rw [htime]
      exact hkept.2 hcreated hmint
  | rehydrated hsince hnew hrehydrated =>
      have hmemory : (live.entryOf event).event.eventType = .tokenCreated →
          (live.entryOf event).event.pool?.bind memory.pools.pools.get? = none := by
        intro hcreated
        rw [hpool]
        exact hrun.curve_unknown hentry (htype.symm.trans hcreated) hdone h.replayed.pools
      rw [hrehydrated.creatorOf hmemory mint, htype, hpayload, h.creator]

/-- The creation of the pool: the live process reaches the view that the bootstrap has given. -/
theorem InStep.view_created (hrun : Recovery config address mint log bootstrap rows base)
    (hsound : live.Sound config) (h : InStep rows bootstrap since address mint base live memory)
    (hstep : Delivered config live event next)
    (hlog : next.log = live.log ++ [live.entryOf event]) (hsub : next.log ⊆ log)
    (hid : ':' ∉ event.eventId.toList)
    (hpool : event.pool? = some address) (hcreated : event.eventType = .poolCreated)
    (hunknown : live.memory.pools.pools.get? address = none) {resumed : Memory}
    (hresumed : Resumed config bootstrap since (live.entryOf event) memory resumed) :
    resumed.view address = next.memory.view address ∧
      ∃ pool, next.memory.pools.pools.get? address = some pool := by
  obtain ⟨htype, hpools, hids, -, -⟩ := entryOf_same live event
  have hentry : live.entryOf event ∈ log :=
    hsub (hlog ▸ List.mem_append_right _ (List.mem_singleton_self _))
  have hcreates : Creates address (live.entryOf event) := ⟨htype.trans hcreated, hpools.trans hpool⟩
  obtain ⟨hbootstrap, hbase⟩ := hrun.created _ hentry hcreates
  obtain ⟨pool, hrecord⟩ := (hrun.accepted _ hentry).created hcreates.1 address hcreates.2
  have hswap : ¬ event.eventType.Swap := by
    rw [hcreated]
    decide
  have hresumed : resumed = memory := by
    cases hresumed with
    | skipped hskip => rfl
    | rehydrated hsince hnot hrehydrated => exact absurd (List.mem_map_of_mem hbootstrap) hnot
  obtain ⟨hview, hmemory⟩ := h.unknown hunknown
  rw [hresumed, hmemory, (hbase pool hrecord).2]
  cases hstep with
  | unchanged =>
      have hlength := congrArg List.length hlog
      rw [List.length_append, List.length_singleton] at hlength
      omega
  | filtered reason hnew hfilter =>
      exact absurd (LiveProcess.Sound.swap_of_filtered hfilter) hswap
  | applied outcome pools state hnew hfilter happly happlies =>
      have hfor : live.memory.pools.poolFor (live.entryOf event).event address = .ok (some pool) := by
        unfold PoolStateTracker.poolFor
        rw [if_pos hcreates.1, hrecord]
        rfl
      obtain ⟨hliquidity, htrade⟩ := hsound.fresh hnew hid
      have hlive := happlies.view_of_eq hcreates.2 hfor (hids ▸ hliquidity) (hids ▸ htrade)
      rw [hview] at hlive
      have heffective : ¬ (effectiveEvent (some pool) (live.entryOf event).event).eventType.Swap := by
        rw [effectiveEvent_entryOf]
        exact hswap
      refine ⟨?_, { pool with updatedAt := _ }, congrArg PoolView.record hlive⟩
      rw [hlive]
      exact PoolView.ingest_of_not_swap _ _ _ _ _ _ heffective _ _

/-- Another event of the pool: both processes filter it, or both take the same from it. -/
theorem InStep.view_known (hrun : Recovery config address mint log bootstrap rows base)
    (hsound : live.Sound config) (h : InStep rows bootstrap since address mint base live memory)
    (hstep : Delivered config live event next)
    (hlog : next.log = live.log ++ [live.entryOf event]) (hsub : next.log ⊆ log)
    (hid : ':' ∉ event.eventId.toList) (hpool : event.pool? = some address)
    (hcreated : event.eventType ≠ .poolCreated) {pool : PoolRecord}
    (hget : live.memory.pools.pools.get? address = some pool) (hmint : pool.baseMint = mint)
    (hkept : EventKept config rows since address mint live event) {resumed : Memory}
    (hresumed : Resumed config bootstrap since (live.entryOf event) memory resumed) :
    resumed.view address = next.memory.view address ∧
      ∃ record, next.memory.pools.pools.get? address = some record := by
  obtain ⟨htype, hpools, hids, htime, hpayload⟩ := entryOf_same live event
  obtain ⟨-, hwindow, hfilters, hflag⟩ := hkept.1 hpool
  have hentry : live.entryOf event ∈ log :=
    hsub (hlog ▸ List.mem_append_right _ (List.mem_singleton_self _))
  have hbootstrap := hrun.notMem_bootstrap hentry (htype.trans_ne hcreated)
  have hview := h.known pool hget
  have hrecord : memory.pools.pools.get? address = some pool :=
    (congrArg PoolView.record hview).trans hget
  -- the restarted process decides as the live one with the candidates of the crash
  have hsame : eventStateFilterReason config memory.pools.pools memory.candidates
      (live.entryOf event).event =
        eventStateFilterReason config live.memory.pools.pools rows event := by
    have hknown : (live.entryOf event).event.pool?.bind memory.pools.pools.get? =
        (live.entryOf event).event.pool?.bind live.memory.pools.pools.get? := by
      rw [hpools, hpool, Option.bind_some, Option.bind_some, hrecord, hget]
    refine (eventStateFilterReason_congr hknown h.replayed.candidates).trans ?_
    unfold eventStateFilterReason
    rw [htype, hpools, htime]
  cases hresumed with
  | skipped hskip => exact absurd ⟨htime ▸ hwindow hcreated, hbootstrap⟩ hskip
  | rehydrated hsince hnot hrehydrated =>
      cases hstep with
      | unchanged =>
          have hlength := congrArg List.length hlog
          rw [List.length_append, List.length_singleton] at hlength
          omega
      | filtered reason hnew hfilter =>
          refine ⟨?_, pool, hget⟩
          cases hrehydrated with
          | filtered other hother => exact hview
          | applied outcome hother happlies =>
              rw [hfilter, ← hsame, hother] at hfilters
              cases hfilters.mp rfl
      | applied outcome pools state hnew hfilter happly happlies =>
          rw [hfilter, ← hsame] at hfilters
          cases hrehydrated with
          | filtered other hother =>
              rw [hother] at hfilters
              cases hfilters.mpr rfl
          | applied again hother hagain =>
              have hown := hpools.trans hpool
              have hfor : ∀ tracker : PoolStateTracker, tracker.pools.get? address = some pool →
                  tracker.poolFor (live.entryOf event).event address = .ok (some pool) := by
                intro tracker htracker
                unfold PoolStateTracker.poolFor
                rw [if_neg (htype.trans_ne hcreated), htracker]
              obtain ⟨hliquidity, htrade⟩ := hsound.fresh hnew hid
              obtain ⟨hliquidityAgain, htradeAgain⟩ := h.replayed.fresh hnew (hids ▸ hbootstrap)
              have hlive := happlies.view_of_eq hown (hfor _ hget) (hids ▸ hliquidity)
                (hids ▸ htrade)
              have hrest : again.1.view address = (memory.view address).ingest address pool
                  (live.memory.pools.quotePrices.get? pool.quoteMint)
                  (creatorOf memory.tokens pool.baseMint)
                  ((effectiveEvent (some pool) (live.entryOf event).event).withSameFunder
                    (live.entryOf event).event.payload.sameFunderCluster) :=
                hagain.view_of_eq hown (hfor _ hrecord) (hids ▸ hliquidityAgain)
                  (hids ▸ htradeAgain)
              have hcreator : creatorOf memory.tokens pool.baseMint =
                  creatorOf live.memory.tokens pool.baseMint := hmint ▸ h.creator
              refine ⟨?_, { pool with updatedAt := _ }, congrArg PoolView.record hlive⟩
              refine hrest.trans ?_
              rw [hlive, hview, hcreator]
              by_cases hswap : event.eventType.Swap
              · have hpassed : (eventStateFilterReason config live.memory.pools.pools rows
                    event).isNone := by
                  rw [← hsame, hother]
                  rfl
                have hstored := hflag hswap hpassed
                rw [PoolStateTracker.apply_known hown (hfor _ hget)] at happly
                cases happly
                have hmet : (live.memory.pools.advance pool (live.entryOf event).event
                    address).pools.get? address = some { pool with updatedAt := _ } :=
                  Dict.get?_set_self _ _ _
                have heffective := effectiveEvent_entryOf live event { pool with updatedAt :=
                  (live.entryOf event).event.observedAt }
                rw [hget] at hstored
                rw [hown, Option.bind_some, hmet, heffective, hpayload, ← hstored]
                rfl
              · refine PoolView.ingest_of_not_swap _ _ _ _ _ _ ?_ _ _
                rw [effectiveEvent_entryOf]
                exact hswap

/-- A known pool has the mint. -/
theorem Recovery.baseMint (hrun : Recovery config address mint log bootstrap rows base)
    (hsound : live.Sound config) (hsub : live.log ⊆ log) {pool : PoolRecord}
    (hget : live.memory.pools.pools.get? address = some pool) : pool.baseMint = mint := by
  obtain ⟨entry, hentry, hcreates, record, hrecord, hmint⟩ := hsound.pools address pool hget
  exact hmint.symm.trans ((hrun.created entry (hsub hentry) hcreates).2 record hrecord).1

/-- An event keeps the two processes in step. -/
theorem InStep.delivered (hrun : Recovery config address mint log bootstrap rows base)
    (hsound : live.Sound config) (h : InStep rows bootstrap since address mint base live memory)
    (hfold : (eventsSince live.log bootstrap since).foldlM (rehydrateEvent config) base = .ok memory)
    (hstep : Delivered config live event next)
    (hlog : next.log = live.log ++ [live.entryOf event]) (hsub : next.log ⊆ log)
    (hid : ':' ∉ event.eventId.toList)
    (hkept : EventKept config rows since address mint live event) :
    ∃ resumed, (eventsSince next.log bootstrap since).foldlM (rehydrateEvent config) base =
        .ok resumed ∧ InStep rows bootstrap since address mint base next resumed := by
  have hentry : live.entryOf event ∈ log :=
    hsub (hlog ▸ List.mem_append_right _ (List.mem_singleton_self _))
  have hold : live.log ⊆ log := fun _ hmem => hsub (hlog ▸ List.mem_append_left _ hmem)
  obtain ⟨resumed, hresumedFold, hresumed, hreplayed⟩ :=
    exists_resumed (hrun.accepted _ hentry) hfold h.replayed
  rw [← hlog] at hresumedFold hreplayed
  have hcreator := h.creator_step hrun hsound hstep hlog hsub hkept hresumed
  -- the pool's own event makes the pool known, or finds it known
  have hown : event.pool? = some address →
      resumed.view address = next.memory.view address ∧
        ∃ pool, next.memory.pools.pools.get? address = some pool := by
    intro hpool
    obtain ⟨hfirst, -⟩ := hkept.1 hpool
    by_cases hcreated : event.eventType = .poolCreated
    · exact h.view_created hrun hsound hstep hlog hsub hid hpool hcreated (hfirst.mp hcreated)
        hresumed
    · obtain ⟨pool, hget⟩ := Option.ne_none_iff_exists'.mp fun hnone => hcreated (hfirst.mpr hnone)
      exact h.view_known hrun hsound hstep hlog hsub hid hpool hcreated hget
        (hrun.baseMint hsound hold hget) hkept hresumed
  have hother : event.pool? ≠ some address →
      next.memory.view address = live.memory.view address ∧
        resumed.view address = memory.view address := by
    intro hpool
    refine ⟨hstep.view_of_ne hpool, hresumed.view_of_ne ?_⟩
    rw [(entryOf_same live event).2.1]
    exact hpool
  refine ⟨resumed, hresumedFold, hreplayed, hcreator, ?_, ?_⟩
  · intro hunknown
    by_cases hpool : event.pool? = some address
    · obtain ⟨-, pool, hget⟩ := hown hpool
      rw [hunknown] at hget
      cases hget
    · obtain ⟨hlive, hrestarted⟩ := hother hpool
      rw [hlive, hrestarted]
      exact h.unknown ((congrArg PoolView.record hlive).symm.trans hunknown)
  · intro pool hget
    by_cases hpool : event.pool? = some address
    · exact (hown hpool).1
    · obtain ⟨hlive, hrestarted⟩ := hother hpool
      rw [hlive, hrestarted]
      exact h.known pool ((congrArg PoolView.record hlive).symm.trans hget)

/-- A step that is about neither an event nor the pool. -/
theorem InStep.of_same (h : InStep rows bootstrap since address mint base live memory)
    (hlog : next.log = live.log)
    (hview : next.memory.view address = live.memory.view address)
    (hcreator : creatorOf next.memory.tokens mint = creatorOf live.memory.tokens mint) :
    InStep rows bootstrap since address mint base next memory where
  replayed := by
    rw [hlog]
    exact h.replayed
  creator := h.creator.trans hcreator.symm
  unknown := by
    intro hunknown
    rw [hview]
    exact h.unknown ((congrArg PoolView.record hview).symm.trans hunknown)
  known := by
    intro pool hget
    rw [hview]
    exact h.known pool ((congrArg PoolView.record hview).symm.trans hget)

theorem creatorOf_applyEnrichment (tokens : Tokens) (own : String) (name symbol : Option String)
    (observedAt : Time) (mint : String) :
    creatorOf (applyEnrichment tokens own name symbol observedAt) mint = creatorOf tokens mint := by
  unfold creatorOf applyEnrichment
  cases hget : tokens.get? own with
  | none => rfl
  | some token =>
      dsimp only
      rw [Dict.get?_set]
      split_ifs with hmint
      · rw [← hmint, hget]
        rfl
      · rfl

theorem creatorOf_applyMintState (tokens : Tokens) (own tokenProgram : String) (decimals : Nat)
    (totalSupplyRaw : ℚ) (observedAt : Time) (mint : String) :
    creatorOf (applyMintState tokens own tokenProgram decimals totalSupplyRaw observedAt) mint =
      creatorOf tokens mint := by
  unfold creatorOf applyMintState
  cases hget : tokens.get? own with
  | none => rfl
  | some token =>
      dsimp only
      rw [Dict.get?_set]
      split_ifs with hmint
      · rw [← hmint, hget]
        rfl
      · rfl

/-- The supply of another pool changes nothing of this one. -/
theorem view_updatePoolSupply (config : PipelineConfig) (memory : Memory) {own address : String}
    (hother : own ≠ address) (totalSupplyRaw : ℚ) (observedAt : Time) :
    (updatePoolSupply config memory own totalSupplyRaw observedAt).view address =
        memory.view address ∧
      (updatePoolSupply config memory own totalSupplyRaw observedAt).tokens = memory.tokens := by
  unfold updatePoolSupply PoolStateTracker.applyBaseSupply
  cases memory.pools.states.get? own with
  | none => exact ⟨rfl, rfl⟩
  | some state =>
      cases memory.pools.pools.get? own with
      | none => exact ⟨rfl, rfl⟩
      | some pool =>
          refine ⟨?_, rfl⟩
          unfold Memory.view
          dsimp only
          rw [Dict.get?_set_ne _ hother, liquidityOf_ingestLiquidity_ne _ _ hother,
            (ingestLiquidity_rest _ _).1]
          unfold EventTimeFeatureEngine.tradesOf
          rw [(ingestLiquidity_rest _ _).2]

/-- One step of the live process, and at most one step of the recovery. -/
theorem InStep.step {config : PipelineConfig}
    (hrun : Recovery config.toFilterConfig address mint log bootstrap rows base)
    (hsound : live.Sound config.toFilterConfig)
    (h : InStep rows bootstrap since address mint base live memory)
    (hfold : (eventsSince live.log bootstrap since).foldlM (rehydrateEvent config.toFilterConfig)
      base = .ok memory)
    {label : LiveStep} (hsub : (live.step config label).log ⊆ log)
    (hids : PlainIds (handed [label]))
    (hkept : Kept config.toFilterConfig rows since address mint live label) :
    ∃ resumed, (eventsSince (live.step config label).log bootstrap since).foldlM
        (rehydrateEvent config.toFilterConfig) base = .ok resumed ∧
      InStep rows bootstrap since address mint base (live.step config label) resumed := by
  cases label with
  | processEvent event =>
      have hstep := delivered_processEvent config.toFilterConfig live event
      unfold LiveProcess.step at hsub ⊢
      dsimp only at hsub ⊢
      cases hkept with
      | inl hprocessed =>
          have hsame : live.processEvent config.toFilterConfig event = live := by
            unfold LiveProcess.processEvent
            rw [if_pos hprocessed]
          rw [hsame]
          exact ⟨memory, hfold, h⟩
      | inr hkept =>
          generalize live.processEvent config.toFilterConfig event = next at hstep hsub ⊢
          have hlog : next = live ∨ next.log = live.log ++ [live.entryOf event] := by
            cases hstep with
            | unchanged => exact Or.inl rfl
            | filtered reason hnew hfilter => exact Or.inr rfl
            | applied outcome pools state hnew hfilter happly happlies => exact Or.inr rfl
          rcases hlog with rfl | hlog
          · exact ⟨memory, hfold, h⟩
          · exact h.delivered hrun hsound hfold hstep hlog hsub
              (hids event (List.mem_singleton_self event)) hkept
  | setQuotePrice price => exact ⟨memory, hfold, h.of_same rfl rfl rfl⟩
  | applyEnrichment own name symbol observedAt =>
      exact ⟨memory, hfold, h.of_same rfl rfl (creatorOf_applyEnrichment _ _ _ _ _ _)⟩
  | applyMintState own tokenProgram decimals totalSupplyRaw observedAt =>
      exact ⟨memory, hfold, h.of_same rfl rfl (creatorOf_applyMintState _ _ _ _ _ _ _)⟩
  | updatePoolSupply own totalSupplyRaw observedAt =>
      obtain ⟨hview, htokens⟩ :=
        view_updatePoolSupply config live.memory hkept totalSupplyRaw observedAt
      exact ⟨memory, hfold, h.of_same rfl hview (congrArg (creatorOf · mint) htokens)⟩
  | ingestHolders candidateId holders =>
      refine ⟨memory, hfold, h.of_same rfl ?_ rfl⟩
      unfold LiveProcess.step Memory.view EventTimeFeatureEngine.tradesOf
        EventTimeFeatureEngine.liquidityOf
      dsimp only
      obtain ⟨hcreated, htrades, hliquidity⟩ := ingestHolders_rest live.memory.features
        { holders with
          eventId := "holders:" ++ candidateId ++ ":" ++ config.isoformat holders.eventTime }
      rw [hcreated, htrades, hliquidity]
  | setCandidate candidate =>
      refine ⟨memory, ?_, ?_⟩
      all_goals
        unfold LiveProcess.step
        dsimp only
        split
      · split_ifs <;> exact hfold
      · exact hfold
      · split_ifs
        · exact h.of_same rfl rfl rfl
        · exact h
      · exact h
  | upsertCandidate candidate =>
      refine ⟨memory, ?_, ?_⟩
      all_goals
        unfold LiveProcess.step
        dsimp only
        split
      · split_ifs <;> exact hfold
      · exact hfold
      · split_ifs
        · exact h.of_same rfl rfl rfl
        · exact h
      · exact h

end InStep

/-! ## Runs -/

section Runs

variable {config : PipelineConfig} {rows : Dict String Candidate} {log bootstrap : List LogEntry}
  {since : Time} {address mint : String} {base memory : Memory} {live : LiveProcess}

theorem log_step (config : PipelineConfig) (live : LiveProcess) (label : LiveStep) :
    (live.step config label).log = live.log ∨
      ∃ event ∈ handed [label], (live.step config label).log = live.log ++ [live.entryOf event] := by
  cases label with
  | processEvent event =>
      have hstep := delivered_processEvent config.toFilterConfig live event
      unfold LiveProcess.step
      dsimp only
      generalize live.processEvent config.toFilterConfig event = next at hstep ⊢
      cases hstep with
      | unchanged => exact Or.inl rfl
      | filtered reason hnew hfilter => exact Or.inr ⟨event, List.mem_singleton_self _, rfl⟩
      | applied outcome pools state hnew hfilter happly happlies =>
          exact Or.inr ⟨event, List.mem_singleton_self _, rfl⟩
  | setCandidate candidate =>
      left
      unfold LiveProcess.step
      dsimp only
      split
      · split_ifs <;> rfl
      · rfl
  | upsertCandidate candidate =>
      left
      unfold LiveProcess.step
      dsimp only
      split
      · split_ifs <;> rfl
      · rfl
  | _ => exact Or.inl rfl

theorem handed_cons (label : LiveStep) (run : List LiveStep) :
    handed (label :: run) = handed [label] ++ handed run := by
  unfold handed
  rw [← List.filterMap_append]
  rfl

theorem log_subset_step (config : PipelineConfig) (live : LiveProcess) (label : LiveStep) :
    live.log ⊆ (live.step config label).log := by
  rcases log_step config live label with hlog | ⟨event, -, hlog⟩
  · rw [hlog]
    exact List.Subset.refl _
  · rw [hlog]
    exact List.subset_append_left _ _

/-- The log only grows. -/
theorem log_subset_run (config : PipelineConfig) (live : LiveProcess) (run : List LiveStep) :
    live.log ⊆ (exec (LiveProcess.step config) live run).log := by
  induction run generalizing live with
  | nil => exact List.Subset.refl _
  | cons label run ih =>
      exact List.Subset.trans (log_subset_step config live label) (ih (live.step config label))

/-- What is in the log was handed over. -/
theorem handed_of_mem_log (config : PipelineConfig) (live : LiveProcess) (run : List LiveStep)
    {entry : LogEntry} (hentry : entry ∈ (exec (LiveProcess.step config) live run).log) :
    entry ∈ live.log ∨ ∃ event ∈ handed run, ∃ mint, entry.event = { event with mint := mint } := by
  induction run generalizing live with
  | nil => exact Or.inl hentry
  | cons label run ih =>
      rw [handed_cons]
      rcases ih (live.step config label) hentry with hstep | ⟨event, hevent, hmint⟩
      · rcases log_step config live label with hlog | ⟨event, hevent, hlog⟩
        · exact Or.inl (hlog ▸ hstep)
        · rw [hlog] at hstep
          rcases List.mem_append.mp hstep with hold | hlast
          · exact Or.inl hold
          · obtain rfl := List.mem_singleton.mp hlast
            exact Or.inr ⟨event, List.mem_append_left _ hevent, withKnownPoolMint_same _ event⟩
      · exact Or.inr ⟨event, List.mem_append_right _ hevent, hmint⟩

/-- The two processes side by side over a whole run. -/
theorem InStep.run (hrun : Recovery config.toFilterConfig address mint log bootstrap rows base)
    (run : List LiveStep) (hsound : live.Sound config.toFilterConfig)
    (h : InStep rows bootstrap since address mint base live memory)
    (hfold : (eventsSince live.log bootstrap since).foldlM (rehydrateEvent config.toFilterConfig)
      base = .ok memory)
    (hkept : Along (Kept config.toFilterConfig rows since address mint) (LiveProcess.step config)
      live run)
    (hids : PlainIds (handed run)) (hlog : (exec (LiveProcess.step config) live run).log ⊆ log) :
    ∃ resumed, (eventsSince (exec (LiveProcess.step config) live run).log bootstrap since).foldlM
        (rehydrateEvent config.toFilterConfig) base = .ok resumed ∧
      InStep rows bootstrap since address mint base (exec (LiveProcess.step config) live run)
        resumed := by
  induction run generalizing live memory with
  | nil => exact ⟨memory, hfold, h⟩
  | cons label run ih =>
      rw [handed_cons] at hids
      have hsub : (live.step config label).log ⊆ log :=
        List.Subset.trans (log_subset_run config _ run) hlog
      obtain ⟨next, hnextFold, hnext⟩ := h.step hrun hsound hfold hsub
        (fun event hevent => hids event (List.mem_append_left _ hevent)) hkept.1
      exact ih (hsound.step config label) hnext hnextFold hkept.2
        (fun event hevent => hids event (List.mem_append_right _ hevent)) hlog

/-- The pool is created once, and is known from then on. -/
def Once (address : String) (live : LiveProcess) : Prop :=
  (∀ entry ∈ live.log, Creates address entry →
      ∃ pool, live.memory.pools.pools.get? address = some pool) ∧
    ∀ entry ∈ live.log, Creates address entry → ∀ other ∈ live.log, Creates address other →
      entry = other

theorem Once.of_same {next : LiveProcess} (h : Once address live) (hlog : next.log = live.log)
    (hpools : ∀ pool, live.memory.pools.pools.get? address = some pool →
      ∃ known, next.memory.pools.pools.get? address = some known) : Once address next := by
  refine ⟨?_, ?_⟩
  · intro entry hentry hcreates
    obtain ⟨pool, hpool⟩ := h.1 entry (hlog ▸ hentry) hcreates
    exact hpools pool hpool
  · rw [hlog]
    exact h.2

theorem Once.delivered {next : LiveProcess} {event : EventEnvelope} {config : FilterConfig}
    (h : Once address live) (hstep : Delivered config live event next)
    (hkept : live.Processed event ∨ EventKept config rows since address mint live event) :
    Once address next := by
  obtain ⟨htype, hpools, -, -, -⟩ := entryOf_same live event
  -- a creation of the pool meets a log without one
  have hfirst : ¬ live.Processed event → Creates address (live.entryOf event) →
      ∀ entry ∈ live.log, ¬ Creates address entry := by
    intro hnew hcreates entry hentry hother
    obtain ⟨pool, hpool⟩ := h.1 entry hentry hother
    have hunknown := ((hkept.resolve_left hnew).1 (hpools.symm.trans hcreates.2)).1.mp
      (htype.symm.trans hcreates.1)
    rw [hunknown] at hpool
    cases hpool
  have honly : ¬ live.Processed event →
      ∀ entry ∈ live.log ++ [live.entryOf event], Creates address entry →
        ∀ other ∈ live.log ++ [live.entryOf event], Creates address other → entry = other := by
    intro hnew entry hentry hcreates other hother hagain
    rcases List.mem_append.mp hentry with hold | hlast <;>
      rcases List.mem_append.mp hother with hold' | hlast'
    · exact h.2 entry hold hcreates other hold' hagain
    · rw [List.mem_singleton.mp hlast'] at hagain
      exact absurd hcreates (hfirst hnew hagain entry hold)
    · rw [List.mem_singleton.mp hlast] at hcreates
      exact absurd hagain (hfirst hnew hcreates other hold')
    · rw [List.mem_singleton.mp hlast, List.mem_singleton.mp hlast']
  cases hstep with
  | unchanged => exact h
  | filtered reason hnew hfilter =>
      refine ⟨?_, honly hnew⟩
      intro entry hentry hcreates
      rcases List.mem_append.mp hentry with hold | hlast
      · exact h.1 entry hold hcreates
      · rw [List.mem_singleton.mp hlast] at hcreates
        have hnot := LiveProcess.Sound.not_created_of_swap
          (LiveProcess.Sound.swap_of_filtered hfilter)
        exact absurd (htype.symm.trans hcreates.1) hnot.1
  | applied outcome pools state hnew hfilter happly happlies =>
      refine ⟨?_, honly hnew⟩
      intro entry hentry hcreates
      rcases List.mem_append.mp hentry with hold | hlast
      · exact happlies.known (Or.inl (h.1 entry hold hcreates))
      · rw [List.mem_singleton.mp hlast] at hcreates
        exact happlies.known (Or.inr hcreates)

theorem Once.step (h : Once address live) (label : LiveStep)
    (hkept : Kept config.toFilterConfig rows since address mint live label) :
    Once address (live.step config label) := by
  cases label with
  | processEvent event => exact h.delivered (delivered_processEvent _ live event) hkept
  | updatePoolSupply own totalSupplyRaw observedAt =>
      refine h.of_same rfl ?_
      intro pool hpool
      obtain ⟨hview, -⟩ := view_updatePoolSupply config live.memory hkept totalSupplyRaw observedAt
      exact ⟨pool, (congrArg PoolView.record hview).trans hpool⟩
  | setCandidate candidate =>
      unfold LiveProcess.step
      dsimp only
      split
      · split_ifs
        · exact h.of_same rfl fun pool hpool => ⟨pool, hpool⟩
        · exact h
      · exact h
  | upsertCandidate candidate =>
      unfold LiveProcess.step
      dsimp only
      split
      · split_ifs
        · exact h.of_same rfl fun pool hpool => ⟨pool, hpool⟩
        · exact h
      · exact h
  | _ => exact h.of_same rfl fun pool hpool => ⟨pool, hpool⟩

end Runs

/-! ## The bootstrap -/

section Bootstrap

variable {config : FilterConfig} {rows : Dict String Candidate} {done entries : List LogEntry}
  {address : String} {memory : Memory}

/-- The restored candidates are the rows. -/
theorem get?_restoreCandidates {log : List LogEntry} (hrows : Traced log rows) (id : String) :
    (restoreCandidates rows.values).get? id = rows.get? id := by
  unfold restoreCandidates
  cases hget : rows.get? id with
  | some row =>
      refine Dict.get?_collect_of_agree _ _ _ ?_ _ (Or.inl ⟨row, ?_, (hrows id row hget).1, rfl⟩)
      · intro other hother found hfound hid
        obtain rfl := Option.some.inj hfound
        obtain ⟨key, hkey⟩ := Dict.mem_values.mp hother
        rw [(hrows key other hkey).1] at hid
        rw [hid, hget] at hkey
        exact (Option.some.inj hkey).symm
      · exact Dict.mem_values.mpr ⟨id, hget⟩
  | none =>
      cases hfound : (Dict.collect (·.candidateId) some rows.values Dict.empty).get? id with
      | none => rfl
      | some row =>
          rcases Dict.exists_of_get?_collect _ _ _ hfound with ⟨other, hother, hid, -⟩ | hempty
          · obtain ⟨key, hkey⟩ := Dict.mem_values.mp hother
            rw [(hrows key other hkey).1] at hid
            rw [hid, hget] at hkey
            cases hkey
          · cases hempty

/-- Creations applied again leave the creators and the other pools alone. -/
theorem exists_bootstrap (haccepted : ∀ entry ∈ entries, Accepted config rows entry)
    (hcreations : ∀ entry ∈ entries, entry.event.eventType = .poolCreated)
    (h : Replayed rows done memory) :
    ∃ base, entries.foldlM (rehydrateEvent config) memory = .ok base ∧
      Replayed rows (done ++ entries) base ∧
      (∀ mint, creatorOf base.tokens mint = creatorOf memory.tokens mint) ∧
      ((∀ entry ∈ entries, entry.event.pool? ≠ some address) →
        base.view address = memory.view address) := by
  induction entries generalizing done memory with
  | nil => exact ⟨memory, rfl, by rwa [List.append_nil], fun _ => rfl, fun _ => rfl⟩
  | cons entry entries ih =>
      have hentry := haccepted entry List.mem_cons_self
      have htype := hcreations entry List.mem_cons_self
      obtain ⟨next, hrehydrate, hstep⟩ := exists_rehydrate memory hentry
      obtain ⟨base, hfold, hreplayed, hcreator, hview⟩ :=
        ih (fun other hother => haccepted other (List.mem_cons_of_mem _ hother))
          (fun other hother => hcreations other (List.mem_cons_of_mem _ hother))
          (hstep.replayed hentry h)
      refine ⟨base, ?_, ?_, ?_, ?_⟩
      · rw [List.foldlM_cons, hrehydrate]
        exact hfold
      · rw [List.append_assoc] at hreplayed
        exact hreplayed
      · intro mint
        have hcurve : entry.event.eventType = .tokenCreated →
            entry.event.pool?.bind memory.pools.pools.get? = none := by
          intro hcreated
          rw [htype] at hcreated
          cases hcreated
        rw [hcreator, hstep.creatorOf hcurve, if_neg]
        rintro ⟨hcreated, -⟩
        rw [htype] at hcreated
        cases hcreated
      · intro hother
        rw [hview fun other hmem => hother other (List.mem_cons_of_mem _ hmem)]
        exact hstep.view_of_ne (hother entry List.mem_cons_self)

/-- The creation of a pool gives its view, wherever it stands in the bootstrap. -/
theorem exists_bootstrap_view {log : List LogEntry} {entry : LogEntry} {pool : PoolRecord}
    (hids : (log.map (·.event.eventId)).Nodup) (hsub : entries.Sublist log)
    (haccepted : ∀ entry ∈ log, Accepted config rows entry)
    (hcreations : ∀ entry ∈ entries, entry.event.eventType = .poolCreated)
    (honce : ∀ other ∈ log, Creates address other → other = entry) (hentry : entry ∈ entries)
    (hcreates : Creates address entry) (hrecord : createdPool entry.event address = .ok pool)
    (h : Replayed rows [] memory) (hunknown : memory.view address = PoolView.unknown) :
    ∃ base, entries.foldlM (rehydrateEvent config) memory = .ok base ∧
      Replayed rows entries base ∧
      (∀ mint, creatorOf base.tokens mint = creatorOf memory.tokens mint) ∧
      base.view address = PoolView.unknown.ingest address pool
        (entry.quotePrices.get? pool.quoteMint) none
        ((effectiveEvent (some pool) entry.event).withSameFunder false) := by
  obtain ⟨before, after, rfl⟩ := List.append_of_mem hentry
  have hnodup := (hsub.map (·.event.eventId)).nodup hids
  rw [List.map_append, List.map_cons, List.nodup_append] at hnodup
  have hmem : ∀ other ∈ before ++ entry :: after, other ∈ log := fun other hother =>
    hsub.subset hother
  have hbeforeId : entry.event.eventId ∉ before.map (·.event.eventId) := fun hid =>
    hnodup.2.2 _ hid _ List.mem_cons_self rfl
  have hafterId : entry.event.eventId ∉ after.map (·.event.eventId) :=
    (List.nodup_cons.mp hnodup.2.1).1
  -- no other entry is about the pool
  have hothers : ∀ other ∈ before ++ entry :: after,
      other.event.eventId ≠ entry.event.eventId → other.event.pool? ≠ some address := by
    intro other hother hid hpool
    exact hid (congrArg (·.event.eventId)
      (honce other (hmem other hother) ⟨hcreations other hother, hpool⟩))
  obtain ⟨first, hfirstFold, hfirst, hfirstCreator, hfirstView⟩ := exists_bootstrap
    (fun other hother => haccepted other (hmem other (List.mem_append_left _ hother)))
    (fun other hother => hcreations other (List.mem_append_left _ hother)) h
  have hfirstUnknown : first.view address = PoolView.unknown := by
    refine (hfirstView ?_).trans hunknown
    intro other hother
    refine hothers other (List.mem_append_left _ hother) ?_
    intro hid
    exact hbeforeId (hid ▸ List.mem_map_of_mem hother)
  have hentryAccepted := haccepted entry (hmem entry hentry)
  obtain ⟨second, hrehydrate, hstep⟩ := exists_rehydrate first hentryAccepted
  have hsecond := hstep.replayed hentryAccepted hfirst
  obtain ⟨base, hfold, hreplayed, hcreator, hview⟩ := exists_bootstrap
    (fun other hother => haccepted other
      (hmem other (List.mem_append_right _ (List.mem_cons_of_mem _ hother))))
    (fun other hother =>
      hcreations other (List.mem_append_right _ (List.mem_cons_of_mem _ hother))) hsecond
  have hswap : ¬ entry.event.eventType.Swap := by
    rw [hcreates.1]
    decide
  refine ⟨base, ?_, ?_, ?_, ?_⟩
  · rw [List.foldlM_append, hfirstFold]
    show ((entry :: after).foldlM (rehydrateEvent config) first) = _
    rw [List.foldlM_cons, hrehydrate]
    exact hfold
  · rw [List.append_assoc] at hreplayed
    exact hreplayed
  · intro mint
    have hcurve : entry.event.eventType = .tokenCreated →
        entry.event.pool?.bind first.pools.pools.get? = none := by
      intro hcreated
      rw [hcreates.1] at hcreated
      cases hcreated
    rw [hcreator, hstep.creatorOf hcurve, if_neg, hfirstCreator]
    rintro ⟨hcreated, -⟩
    rw [hcreates.1] at hcreated
    cases hcreated
  · rw [hview]
    · cases hstep with
      | filtered reason hfilter =>
          exact absurd (LiveProcess.Sound.swap_of_filtered hfilter) hswap
      | applied outcome hfilter happlies =>
          have hfor : (first.knowing entry.quotePrices).pools.poolFor entry.event address =
              .ok (some pool) := by
            unfold PoolStateTracker.poolFor
            rw [if_pos hcreates.1, hrecord]
            rfl
          have hfresh : ¬ Observed before (entry.event.eventId ++ ":liquidity") ∧
              ¬ Observed before (entry.event.eventId ++ ":trade") := not_observed hbeforeId
          have hingest : outcome.1.view address = (first.view address).ingest address pool
              (entry.quotePrices.get? pool.quoteMint) (creatorOf first.tokens pool.baseMint)
              ((effectiveEvent (some pool) entry.event).withSameFunder
                entry.event.payload.sameFunderCluster) :=
            happlies.view_of_eq hcreates.2 hfor (fun hmem => hfresh.1 (hfirst.seen _ hmem))
              (fun hmem => hfresh.2 (hfirst.seen _ hmem))
          refine hingest.trans ?_
          rw [hfirstUnknown]
          have heffective : ¬ (effectiveEvent (some pool) entry.event).eventType.Swap := hswap
          exact PoolView.ingest_of_not_swap _ _ _ _ _ _ heffective _ _
    · intro other hother
      refine hothers other (List.mem_append_right _ (List.mem_cons_of_mem _ hother)) ?_
      intro hid
      exact hafterId (hid ▸ List.mem_map_of_mem hother)

end Bootstrap

/-! ## The rebuilt pool -/

/-- A snapshot reads the creation and the observations of its pool. -/
theorem snapshot_congr {engine other : EventTimeFeatureEngine} {address : String}
    (hcreated : engine.poolCreated.get? address = other.poolCreated.get? address)
    (htrades : engine.tradesOf address = other.tradesOf address)
    (hliquidity : engine.liquidityOf address = other.liquidityOf address)
    (hholders : engine.holdersOf address = other.holdersOf address) (at' : Time) :
    engine.snapshot address at' = other.snapshot address at' := by
  unfold EventTimeFeatureEngine.snapshot
  rw [hcreated, htrades, hliquidity, hholders]

/-- The engine with the holder observations of another one. -/
def EventTimeFeatureEngine.withHolders (engine : EventTimeFeatureEngine)
    (holders : Dict String (List HolderObservation)) : EventTimeFeatureEngine :=
  { engine with holders := holders }

/-- The memory has the state of the pool that the live process has, and gives its snapshots; the
holders, which come from the chain and not from events, are taken from the live process. -/
def Rebuilds (address : String) (memory live : Memory) : Prop :=
  memory.pools.states.get? address = live.pools.states.get? address ∧
    ∀ at' : Time, (memory.features.withHolders live.features.holders).snapshot address at' =
      live.features.snapshot address at'

theorem rebuilds_of_view {address : String} {memory live : Memory}
    (hview : memory.view address = live.view address) : Rebuilds address memory live := by
  refine ⟨congrArg PoolView.state hview, ?_⟩
  intro at'
  refine snapshot_congr ?_ ?_ ?_ ?_ at'
  · exact congrArg PoolView.created hview
  · exact congrArg PoolView.trades hview
  · exact congrArg PoolView.liquidity hview
  · rfl

/-- The pool has a candidate that is neither closed nor rejected. -/
def Tracked (rows : Dict String Candidate) (address : String) : Prop :=
  address ∈ trackedPoolAddresses rows.values

instance (rows : Dict String Candidate) (address : String) : Decidable (Tracked rows address) :=
  inferInstanceAs (Decidable (_ ∈ _))

theorem mem_poolBootstrapEvents {log : List LogEntry} {addresses : List String} {address : String}
    {entry : LogEntry} (hentry : entry ∈ log) (hcreates : Creates address entry)
    (htracked : address ∈ addresses) :
    entry ∈ poolBootstrapEvents log addresses ∧ entry.event.poolAddress = some address := by
  have hpool : entry.event.poolAddress = some address :=
    (Option.filter_eq_some_iff.mp hcreates.2).1
  exact ⟨List.mem_filter.mpr ⟨hentry, decide_eq_true ⟨hcreates.1, address, htracked, hpool⟩⟩, hpool⟩

/-- A recovery that finds the creation of every tracked pool is its two loops. -/
theorem recover_eq {config : FilterConfig} {wallets : WalletAnalyzer}
    {rows : Dict String Candidate} {log : List LogEntry} {since : Time} {base memory : Memory}
    (hrows : Traced log rows)
    (hbase : (poolBootstrapEvents log (trackedPoolAddresses rows.values)).foldlM
      (rehydrateEvent config)
      { candidates := restoreCandidates rows.values, wallets := wallets } = .ok base)
    (hfold : (eventsSince log (poolBootstrapEvents log (trackedPoolAddresses rows.values))
      since).foldlM (rehydrateEvent config) base = .ok memory) :
    recover config wallets rows log since = .ok memory := by
  unfold recover
  dsimp only
  rw [if_neg, List.foldlM_append, hbase]
  · show Except.mapError RecoveryError.registry ((eventsSince log (poolBootstrapEvents log
      (trackedPoolAddresses rows.values)) since).foldlM (rehydrateEvent config) base) = _
    rw [hfold]
    rfl
  · rintro ⟨address, htracked, hmissing⟩
    obtain ⟨row, hrow, rfl⟩ := List.mem_map.mp htracked
    obtain ⟨id, hid⟩ := Dict.mem_values.mp (List.mem_filter.mp hrow).1
    obtain ⟨-, entry, hentry, hcreates⟩ := hrows id row hid
    obtain ⟨hbootstrap, hpool⟩ := mem_poolBootstrapEvents hentry hcreates htracked
    exact hmissing entry hbootstrap hpool

/-- The process that the restart follows; `wallets` is what its analyzer knew at first. -/
def startProcess (wallets : WalletAnalyzer) : LiveProcess := { memory := { wallets := wallets } }

/-- The live process at the crash. -/
def crashed (config : PipelineConfig) (wallets : WalletAnalyzer) (run : List LiveStep) :
    LiveProcess :=
  exec (LiveProcess.step config) (startProcess wallets) run

theorem curvesApart_log (config : PipelineConfig) (wallets : WalletAnalyzer) {run : List LiveStep}
    (hcurves : CurvesApart (handed run)) :
    CurvesApart ((crashed config wallets run).log.map (·.event)) := by
  have hhanded : ∀ event ∈ (crashed config wallets run).log.map (·.event),
      ∃ given ∈ handed run, ∃ mint, event = { given with mint := mint } := by
    intro event hevent
    obtain ⟨entry, hentry, rfl⟩ := List.mem_map.mp hevent
    exact (handed_of_mem_log config (startProcess wallets) run hentry).resolve_left List.not_mem_nil
  intro event hevent hcreated creation hcreation htype hpool
  obtain ⟨given, hgiven, mint, rfl⟩ := hhanded event hevent
  obtain ⟨other, hother, mint', rfl⟩ := hhanded creation hcreation
  exact hcurves given hgiven hcreated other hother htype hpool

/-- The pool of a tracked candidate is rebuilt at every crash point, when every step before it was
kept. -/
theorem recover_rebuilds_pool (config : PipelineConfig) (wallets restored : WalletAnalyzer)
    (since : Time) (run : List LiveStep) (address : String) (pool : PoolRecord)
    (hids : PlainIds (handed run)) (hcurves : CurvesApart (handed run))
    (hpool : (crashed config wallets run).memory.pools.pools.get? address = some pool)
    (htracked : Tracked (crashed config wallets run).rows address)
    (hkept : Along
      (Kept config.toFilterConfig (crashed config wallets run).rows since address pool.baseMint)
      (LiveProcess.step config) (startProcess wallets) run) :
    ∃ memory, recover config.toFilterConfig restored (crashed config wallets run).rows
        (crashed config wallets run).log since = .ok memory ∧
      Rebuilds address memory (crashed config wallets run).memory := by
  have hstart := LiveProcess.Sound.start config.toFilterConfig wallets
  have hsound : (crashed config wallets run).Sound config.toFilterConfig :=
    exec_invariant (fun _ label h => h.step config label) hstart run
  have honce : Once address (crashed config wallets run) :=
    Along.invariant (fun _ label h hguard => h.step label hguard)
      ⟨fun _ h => absurd h List.not_mem_nil, fun _ h => absurd h List.not_mem_nil⟩ hkept
  have hapart := curvesApart_log config wallets hcurves
  obtain ⟨entry, hentry, hcreates, record, hrecord, hmint⟩ := hsound.pools address pool hpool
  have honly : ∀ other ∈ (crashed config wallets run).log, Creates address other → other = entry :=
    fun other hother hagain => honce.2 other hother hagain entry hentry hcreates
  obtain ⟨hbootstrap, -⟩ := mem_poolBootstrapEvents hentry hcreates htracked
  have hcreations : ∀ other ∈ poolBootstrapEvents (crashed config wallets run).log
      (trackedPoolAddresses (crashed config wallets run).rows.values),
      other.event.eventType = .poolCreated := fun other hother =>
    (of_decide_eq_true (List.mem_filter.mp hother).2).1
  have hrestored : Replayed (crashed config wallets run).rows []
      { candidates := restoreCandidates (crashed config wallets run).rows.values
        wallets := restored } :=
    ⟨fun id => congrArg (Option.map filterKey) (get?_restoreCandidates hsound.rows id),
      fun _ _ h => (nomatch h), fun _ h => absurd h List.not_mem_nil⟩
  obtain ⟨base, hbase, hreplayed, hcreator, hview⟩ := exists_bootstrap_view hsound.ids
    List.filter_sublist hsound.accepted hcreations honly hbootstrap hcreates hrecord hrestored rfl
  have hrecovery : Recovery config.toFilterConfig address pool.baseMint
      (crashed config wallets run).log
      (poolBootstrapEvents (crashed config wallets run).log
        (trackedPoolAddresses (crashed config wallets run).rows.values))
      (crashed config wallets run).rows base := by
    refine ⟨hsound.ids, hsound.accepted, hapart, ?_, ?_⟩
    · exact fun other hother => ⟨(List.mem_filter.mp hother).1, hcreations other hother⟩
    · intro other hother hagain
      obtain rfl := honly other hother hagain
      refine ⟨hbootstrap, fun found hfound => ?_⟩
      obtain rfl := Except.ok.inj (hrecord.symm.trans hfound)
      exact ⟨hmint, hview⟩
  have hin : InStep (crashed config wallets run).rows
      (poolBootstrapEvents (crashed config wallets run).log
        (trackedPoolAddresses (crashed config wallets run).rows.values))
      since address pool.baseMint base (startProcess wallets) base := by
    refine ⟨?_, hcreator pool.baseMint, fun _ => ⟨rfl, rfl⟩, fun _ h => nomatch h⟩
    exact (List.append_nil _).symm ▸ hreplayed
  obtain ⟨memory, hfold, hend⟩ := InStep.run hrecovery run hstart hin rfl hkept hids
    (List.Subset.refl _)
  exact ⟨memory, recover_eq hsound.rows hbase hfold, rebuilds_of_view (hend.known pool hpool)⟩

/-! ## Two runs -/

def sampleConfig : PipelineConfig where
  candidateId := fun mint poolAddress => mint ++ "/" ++ poolAddress
  isoformat := fun _ => "1970-01-01T00:00:00+00:00"
  normalized := fun _ => "1E+9"

def tokenCreation : EventEnvelope where
  eventId := "a0"
  source := .heliusWss
  protocol := .pump
  eventType := .tokenCreated
  slot := 1
  signature := "sig-token"
  blockTime := 0
  observedAt := 0
  mint := some "mint"
  poolAddress := some "curve"
  payload := { user := some "dev", creator := some "dev" }

def poolCreation : EventEnvelope where
  eventId := "a1"
  source := .heliusWss
  protocol := .pumpswap
  eventType := .poolCreated
  slot := 2
  signature := "sig-pool"
  blockTime := seconds 1
  observedAt := seconds 1
  mint := some "mint"
  poolAddress := some "pool"
  payload :=
    { baseMint := some "mint", quoteMint := some usdcMint
      baseMintDecimals := some 0, quoteMintDecimals := some 0
      poolBaseAmount := some 100, poolQuoteAmount := some 100 }

/-- A buy of 10 by a wallet, whose payload may name its funder. -/
def sampleBuy (eventId user : String) (funder : Option String) (blockTime : Time) :
    EventEnvelope where
  eventId := eventId
  source := .heliusWss
  protocol := .pumpswap
  eventType := .swapBuy
  slot := 3
  signature := "sig-" ++ eventId
  blockTime := blockTime
  observedAt := blockTime
  mint := some "mint"
  poolAddress := some "pool"
  payload :=
    { user := some user, funder := funder, quoteAmountIn := some 10
      poolBaseTokenReserves := some 90, poolQuoteTokenReserves := some 110 }

def usdc : QuoteAssetPrice := ⟨usdcMint, 1, 0, by decide⟩

/-- A token, its pool, a buy and a buy of the creator. -/
def plainRun : List LiveStep :=
  [.setQuotePrice usdc, .processEvent tokenCreation, .processEvent poolCreation,
    .processEvent (sampleBuy "a2" "wallet-a" none (seconds 2)),
    .processEvent (sampleBuy "a3" "dev" none (seconds 3))]

/-- The record of the pool at the end of the run. -/
def samplePool : PoolRecord where
  poolAddress := "pool"
  baseMint := "mint"
  quoteMint := usdcMint
  protocol := .pumpswap
  baseVault := none
  quoteVault := none
  creationSignature := "sig-pool"
  creationSlot := 2
  creationTime := seconds 1
  baseDecimals := 0
  quoteDecimals := 0
  sourceOrientationReversed := false
  updatedAt := seconds 3

theorem recover_rebuilds_pool_sample :
    ∃ memory, recover sampleConfig.toFilterConfig {} (crashed sampleConfig {} plainRun).rows
        (crashed sampleConfig {} plainRun).log 0 = .ok memory ∧
      Rebuilds "pool" memory (crashed sampleConfig {} plainRun).memory :=
  recover_rebuilds_pool sampleConfig {} {} 0 plainRun "pool" samplePool
    (by unfold PlainIds; decide +kernel) (by unfold CurvesApart; decide +kernel)
    (by decide +kernel) (by decide +kernel) (by decide +kernel)

/-- Two wallets with one funder buy. -/
def clusterRun : List LiveStep :=
  [.setQuotePrice usdc, .processEvent tokenCreation, .processEvent poolCreation,
    .processEvent (sampleBuy "a2" "wallet-a" (some "funding-wallet") (seconds 2)),
    .processEvent (sampleBuy "a3" "wallet-b" (some "funding-wallet") (seconds 3))]

/-- All events of the pool lie in the window and its candidate is tracked, but half of the buy
volume is from a same-funder cluster before the crash, and none of it afterwards. -/
theorem cluster_not_rebuilt :
    (∀ event ∈ handed clusterRun, 0 ≤ event.blockTime) ∧
      Tracked (crashed sampleConfig {} clusterRun).rows "pool" ∧
      ((crashed sampleConfig {} clusterRun).memory.features.snapshot "pool"
        (seconds 4)).sameFunderBuyShare = 1 / 2 ∧
      ∃ memory, recover sampleConfig.toFilterConfig {} (crashed sampleConfig {} clusterRun).rows
          (crashed sampleConfig {} clusterRun).log 0 = .ok memory ∧
        (memory.features.snapshot "pool" (seconds 4)).sameFunderBuyShare = 0 ∧
        ¬ Rebuilds "pool" memory (crashed sampleConfig {} clusterRun).memory := by
  have hlive : ((crashed sampleConfig {} clusterRun).memory.features.snapshot "pool"
      (seconds 4)).sameFunderBuyShare = 1 / 2 := by decide +kernel
  have hshare : ((recover sampleConfig.toFilterConfig {} (crashed sampleConfig {} clusterRun).rows
      (crashed sampleConfig {} clusterRun).log 0).toOption.map fun memory =>
        (memory.features.snapshot "pool" (seconds 4)).sameFunderBuyShare) = some 0 := by
    decide +kernel
  refine ⟨by decide +kernel, by decide +kernel, hlive, ?_⟩
  generalize hrecover : recover sampleConfig.toFilterConfig {}
    (crashed sampleConfig {} clusterRun).rows (crashed sampleConfig {} clusterRun).log 0 = recovered
    at hshare ⊢
  cases recovered with
  | error error => cases hshare
  | ok memory =>
      have hzero : (memory.features.snapshot "pool" (seconds 4)).sameFunderBuyShare = 0 :=
        Option.some.inj hshare
      refine ⟨memory, rfl, hzero, ?_⟩
      intro hrebuilds
      have hsame := congrArg FeatureSnapshot.sameFunderBuyShare (hrebuilds.2 (seconds 4))
      -- the share does not read the holders
      have hkept : ((memory.features.withHolders
          (crashed sampleConfig {} clusterRun).memory.features.holders).snapshot "pool"
            (seconds 4)).sameFunderBuyShare =
          (memory.features.snapshot "pool" (seconds 4)).sameFunderBuyShare := rfl
      rw [hkept, hzero, hlive] at hsame
      exact absurd hsame (by decide +kernel)

end SniperBot.Features
