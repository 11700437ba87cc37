import SniperBot.Features.Rebuild

/-!
# The log, the events applied again, and the live process

An entry of the log was accepted by the registry, so it is accepted again, and what a rehydrated
event does is what an applied one does. `Sound` says what the log and the ids tell about the memory
and the rows of the live process, after any steps.
-/

namespace SniperBot.Features

open Basis Candidates

/-! ## The log -/

/-- The entry created the pool at the address. -/
def Creates (address : String) (entry : LogEntry) : Prop :=
  entry.event.eventType = .poolCreated ∧ entry.event.pool? = some address

/-- The id is one of the two that an event of the log gives to its observations. -/
def Observed (log : List LogEntry) (id : String) : Prop :=
  ∃ entry ∈ log, id = entry.event.eventId ++ ":liquidity" ∨ id = entry.event.eventId ++ ":trade"

theorem Observed.mono {log longer : List LogEntry} (hsub : log ⊆ longer) {id : String}
    (h : Observed log id) : Observed longer id := by
  obtain ⟨entry, hentry, hid⟩ := h
  exact ⟨entry, hsub hentry, hid⟩

/-- The ids of the observations of an event that the log does not have are new. -/
theorem not_observed {log : List LogEntry} {event : EventEnvelope}
    (hnew : event.eventId ∉ log.map (·.event.eventId)) :
    ¬ Observed log (event.eventId ++ ":liquidity") ∧ ¬ Observed log (event.eventId ++ ":trade") := by
  have hcancel : ∀ entry ∈ log, ∀ suffix : String,
      event.eventId ++ suffix ≠ entry.event.eventId ++ suffix := by
    intro entry hentry suffix heq
    have hlists := congrArg String.toList heq
    rw [String.toList_append, String.toList_append] at hlists
    have hsame := String.ext (List.append_cancel_right hlists)
    exact hnew (hsame ▸ List.mem_map_of_mem hentry)
  refine ⟨?_, ?_⟩ <;> rintro ⟨entry, hentry, h | h⟩
  · exact hcancel entry hentry _ h
  · exact trade_ne_liquidity _ _ h.symm
  · exact trade_ne_liquidity _ _ h
  · exact hcancel entry hentry _ h

/-- The candidates are stored under their ids, and come from creations of the log. -/
def Traced (log : List LogEntry) (candidates : Dict String Candidate) : Prop :=
  ∀ id candidate, candidates.get? id = some candidate →
    candidate.candidateId = id ∧ ∃ entry ∈ log, Creates candidate.poolAddress entry

theorem Traced.mono {log longer : List LogEntry} (hsub : log ⊆ longer)
    {candidates : Dict String Candidate} (h : Traced log candidates) :
    Traced longer candidates := by
  intro id candidate hget
  obtain ⟨hid, entry, hentry, hcreates⟩ := h id candidate hget
  exact ⟨hid, entry, hsub hentry, hcreates⟩

theorem Traced.set {log : List LogEntry} {candidates : Dict String Candidate}
    (h : Traced log candidates) {candidate : Candidate}
    (hfrom : ∃ entry ∈ log, Creates candidate.poolAddress entry) :
    Traced log (candidates.set candidate.candidateId candidate) := by
  intro id other hget
  rw [Dict.get?_set] at hget
  split_ifs at hget with hid
  · obtain rfl := Option.some.inj hget
    exact ⟨hid, hfrom⟩
  · exact h id other hget

/-- The entry was accepted by the registry, and its candidate has a row. -/
structure Accepted (config : FilterConfig) (rows : Dict String Candidate) (entry : LogEntry) :
    Prop where
  created : entry.event.eventType = .poolCreated → ∀ address,
    entry.event.pool? = some address → ∃ pool, createdPool entry.event address = .ok pool
  stored : ∀ candidate, candidateOf config entry.event = some candidate →
    ∃ row, rows.get? candidate.candidateId = some row

theorem candidateOf_spec {config : FilterConfig} {event : EventEnvelope} {candidate : Candidate}
    (h : candidateOf config event = some candidate) :
    event.eventType = .poolCreated ∧ event.pool? = some candidate.poolAddress := by
  unfold candidateOf at h
  split at h
  · cases h
  · split at h
    · cases h
    · obtain ⟨hcreated, hpool⟩ := createdCandidate_spec h
      exact ⟨hcreated, hpool⟩

/-! ## The filter -/

/-- What the filter reads of a candidate. -/
def filterKey (candidate : Candidate) : Time × CandidateState :=
  (candidate.detectedAt, candidate.state)

/-- The filter reads the record of the pool, and of its candidate the time and the state. -/
theorem eventStateFilterReason_congr {config : FilterConfig} {pools others : Dict String PoolRecord}
    {candidates rows : Dict String Candidate} {event : EventEnvelope}
    (hpools : event.pool?.bind pools.get? = event.pool?.bind others.get?)
    (hrows : ∀ id, (candidates.get? id).map filterKey = (rows.get? id).map filterKey) :
    eventStateFilterReason config pools candidates event =
      eventStateFilterReason config others rows event := by
  unfold eventStateFilterReason
  rw [hpools]
  by_cases hswap : event.eventType.Swap
  · rw [if_neg (not_not.mpr hswap), if_neg (not_not.mpr hswap)]
    cases event.pool?.bind others.get? with
    | none => rfl
    | some pool =>
        dsimp only
        have hkey := hrows (config.candidateId pool.baseMint pool.poolAddress)
        cases hfirst : candidates.get? (config.candidateId pool.baseMint pool.poolAddress) with
        | none =>
            rw [hfirst, Option.map_none] at hkey
            rw [Option.map_eq_none_iff.mp hkey.symm]
        | some candidate =>
            rw [hfirst, Option.map_some] at hkey
            obtain ⟨row, hrow, hsame⟩ := Option.map_eq_some_iff.mp hkey.symm
            obtain ⟨hdetected, hstate⟩ := Prod.mk.inj hsame
            rw [hrow]
            dsimp only
            unfold candidateFilterReason
            rw [hdetected, hstate]
  · rw [if_pos hswap, if_pos hswap]

/-- An event that is no swap passes. -/
theorem eventStateFilterReason_of_not_swap {config : FilterConfig} {pools : Dict String PoolRecord}
    {candidates : Dict String Candidate} {event : EventEnvelope} (hswap : ¬ event.eventType.Swap) :
    eventStateFilterReason config pools candidates event = none := by
  unfold eventStateFilterReason
  rw [if_pos hswap]

/-! ## Rehydrating one event -/

/-- The memory with the quote prices of an entry. -/
def Memory.knowing (memory : Memory) (quotePrices : Dict String QuoteAssetPrice) : Memory :=
  { memory with pools := { memory.pools with quotePrices := quotePrices } }

section Rehydrate

variable {config : FilterConfig} {rows : Dict String Candidate} {memory next : Memory}
  {entry : LogEntry} {done : List LogEntry} {address : String}

/-- The entry was filtered, or it was applied with the flag of its stored payload. -/
inductive Rehydrated (config : FilterConfig) (memory : Memory) (entry : LogEntry) :
    Memory → Prop
  | filtered (reason : FilterReason)
      (hfilter : eventStateFilterReason config memory.pools.pools memory.candidates entry.event =
        some reason) :
      Rehydrated config memory entry (memory.knowing entry.quotePrices)
  | applied (outcome : Memory × Option Candidate)
      (hfilter : eventStateFilterReason config memory.pools.pools memory.candidates entry.event =
        none)
      (happlies : Applies config (memory.knowing entry.quotePrices) entry.event
        entry.event.payload.sameFunderCluster outcome) :
      Rehydrated config memory entry
        { outcome.1 with wallets := outcome.1.wallets.observe entry.event }

/-- An accepted event is accepted again. -/
theorem exists_rehydrate (memory : Memory) (haccepted : Accepted config rows entry) :
    ∃ next, rehydrateEvent config memory entry = .ok next ∧ Rehydrated config memory entry next := by
  unfold rehydrateEvent
  dsimp only
  cases hfilter : eventStateFilterReason config memory.pools.pools memory.candidates entry.event with
  | some reason => exact ⟨_, rfl, .filtered reason hfilter⟩
  | none =>
      obtain ⟨⟨pools, state⟩, hpools⟩ :=
        exists_apply (memory.knowing entry.quotePrices).pools haccepted.created
      have happly : ∃ outcome, applyUnobserved config (memory.knowing entry.quotePrices)
          entry.event = .ok outcome := by
        unfold applyUnobserved
        rw [hpools]
        exact ⟨_, rfl⟩
      obtain ⟨outcome, houtcome⟩ := happly
      refine ⟨_, ?_, .applied outcome hfilter (applies_of_unobserved houtcome)⟩
      rw [show applyUnobserved config
        { memory with pools := { memory.pools with quotePrices := entry.quotePrices } }
        entry.event = .ok outcome from houtcome]
      rfl

/-- What holds of a memory that the entries of a list were applied to again. -/
structure Replayed (rows : Dict String Candidate) (done : List LogEntry) (memory : Memory) :
    Prop where
  candidates : ∀ id, (memory.candidates.get? id).map filterKey = (rows.get? id).map filterKey
  pools : ∀ address pool, memory.pools.pools.get? address = some pool →
    ∃ entry ∈ done, Creates address entry
  seen : ∀ id ∈ memory.features.seen, Observed done id

theorem Replayed.mono {longer : List LogEntry} (hsub : done ⊆ longer)
    (h : Replayed rows done memory) : Replayed rows longer memory where
  candidates := h.candidates
  pools := by
    intro address pool hget
    obtain ⟨entry, hentry, hcreates⟩ := h.pools address pool hget
    exact ⟨entry, hsub hentry, hcreates⟩
  seen := fun id hid => (h.seen id hid).mono hsub

theorem Rehydrated.replayed (hstep : Rehydrated config memory entry next)
    (haccepted : Accepted config rows entry) (h : Replayed rows done memory) :
    Replayed rows (done ++ [entry]) next := by
  have hsub : done ⊆ done ++ [entry] := List.subset_append_left _ _
  have hmem : entry ∈ done ++ [entry] := List.mem_append_right _ (List.mem_singleton_self entry)
  cases hstep with
  | filtered reason hfilter =>
      have hlonger := h.mono hsub
      exact ⟨hlonger.candidates, hlonger.pools, hlonger.seen⟩
  | applied outcome hfilter happlies =>
      obtain ⟨-, hpools, hseen⟩ := happlies.rest
      refine ⟨?_, ?_, ?_⟩
      · intro id
        refine (happlies.candidates filterKey (fun _ _ => rfl) id).trans ?_
        rw [happlies.candidate]
        cases hcandidate : candidateOf config entry.event with
        | none => exact h.candidates id
        | some candidate =>
            dsimp only
            split_ifs with hid
            · obtain ⟨row, hrow⟩ := haccepted.stored candidate hcandidate
              have hkey := h.candidates id
              rw [← hid, hrow] at hkey ⊢
              rw [show (memory.knowing entry.quotePrices).candidates = memory.candidates from rfl,
                hkey]
              rfl
            · exact h.candidates id
      · intro address pool hget
        rcases hpools address pool hget with ⟨old, hold, -⟩ | ⟨hcreates, -⟩
        · exact (h.mono hsub).pools address old hold
        · exact ⟨entry, hmem, hcreates⟩
      · intro id hid
        rcases hseen id hid with hold | hnew
        · exact (h.seen id hold).mono hsub
        · exact ⟨entry, hmem, hnew⟩

theorem Rehydrated.view_of_ne (hstep : Rehydrated config memory entry next)
    (hother : entry.event.pool? ≠ some address) : next.view address = memory.view address := by
  cases hstep with
  | filtered reason hfilter => rfl
  | applied outcome hfilter happlies => exact happlies.view_of_ne hother

theorem Rehydrated.creatorOf (hstep : Rehydrated config memory entry next)
    (hcurve : entry.event.eventType = .tokenCreated →
      entry.event.pool?.bind memory.pools.pools.get? = none) (mint : String) :
    creatorOf next.tokens mint =
      if entry.event.eventType = .tokenCreated ∧ entry.event.mint = some mint ∧ mint ≠ "" then
        text (orText entry.event.payload.creator entry.event.payload.user)
      else creatorOf memory.tokens mint := by
  cases hstep with
  | filtered reason hfilter =>
      have hswap : entry.event.eventType.Swap := by
        by_contra hswap
        rw [eventStateFilterReason_of_not_swap hswap] at hfilter
        cases hfilter
      rw [if_neg]
      · rfl
      · rintro ⟨hcreated, -, -⟩
        rcases hswap with h | h <;> rw [hcreated] at h <;> cases h
  | applied outcome hfilter happlies => exact happlies.creatorOf hcurve mint

end Rehydrate

/-! ## The live process -/

/-- `_with_known_pool_mint` changes the mint only. -/
theorem withKnownPoolMint_same (pools : Dict String PoolRecord) (event : EventEnvelope) :
    ∃ mint, withKnownPoolMint pools event = { event with mint := mint } := by
  unfold withKnownPoolMint
  split
  · exact ⟨_, rfl⟩
  · exact ⟨event.mint, rfl⟩

/-- The mint of an event of an unknown pool stays. -/
theorem withKnownPoolMint_unknown {pools : Dict String PoolRecord} {event : EventEnvelope}
    (hunknown : event.pool?.bind pools.get? = none) : withKnownPoolMint pools event = event := by
  unfold withKnownPoolMint
  rw [hunknown]
  split
  · rename_i hpool
    cases hpool
  · rfl

/-- The entry that an event gets in the log. -/
def LiveProcess.entryOf (live : LiveProcess) (event : EventEnvelope) : LogEntry :=
  ⟨withKnownPoolMint live.memory.pools.pools event, live.memory.pools.quotePrices⟩

/-- Everything that `process_event` can do. -/
inductive Delivered (config : FilterConfig) (live : LiveProcess) (event : EventEnvelope) :
    LiveProcess → Prop
  | unchanged : Delivered config live event live
  | filtered (reason : FilterReason) (hnew : ¬ live.Processed event)
      (hfilter : eventStateFilterReason config live.memory.pools.pools live.memory.candidates
        event = some reason) :
      Delivered config live event { live with log := live.log ++ [live.entryOf event] }
  | applied (outcome : Memory × Option Candidate) (pools : PoolStateTracker)
      (state : Option PoolState) (hnew : ¬ live.Processed event)
      (hfilter : eventStateFilterReason config live.memory.pools.pools live.memory.candidates
        event = none)
      (happly : live.memory.pools.apply (live.entryOf event).event = .ok (pools, state))
      (happlies : Applies config live.memory (live.entryOf event).event
        (sameFunderFlag live.memory.wallets
          (effectiveEvent ((live.entryOf event).event.pool?.bind pools.pools.get?)
            (live.entryOf event).event)) outcome) :
      Delivered config live event
        { memory := outcome.1
          rows := match outcome.2 with
            | some candidate => live.rows.set candidate.candidateId candidate
            | none => live.rows
          log := live.log ++ [live.entryOf event] }

theorem delivered_processEvent (config : FilterConfig) (live : LiveProcess)
    (event : EventEnvelope) : Delivered config live event (live.processEvent config event) := by
  unfold LiveProcess.processEvent
  split_ifs with hnew
  · exact .unchanged
  · dsimp only
    obtain ⟨mint, hmint⟩ := withKnownPoolMint_same live.memory.pools.pools event
    have hsame : eventStateFilterReason config live.memory.pools.pools live.memory.candidates
        (withKnownPoolMint live.memory.pools.pools event) =
        eventStateFilterReason config live.memory.pools.pools live.memory.candidates event := by
      rw [hmint]
      rfl
    rw [hsame]
    cases hfilter : eventStateFilterReason config live.memory.pools.pools live.memory.candidates
        event with
    | some reason => exact .filtered reason hnew hfilter
    | none =>
        dsimp only
        cases happly : applyObserved config live.memory
            (withKnownPoolMint live.memory.pools.pools event) with
        | error error => exact .unchanged
        | ok outcome =>
            obtain ⟨pools, state, hpools, happlies⟩ := applies_of_observed happly
            exact .applied outcome pools state hnew hfilter hpools happlies

/-- What the log and the ids of the live process say about its memory and its rows. -/
structure LiveProcess.Sound (config : FilterConfig) (live : LiveProcess) : Prop where
  ids : (live.log.map (·.event.eventId)).Nodup
  accepted : ∀ entry ∈ live.log, Accepted config live.rows entry
  candidates : Traced live.log live.memory.candidates
  rows : Traced live.log live.rows
  /-- the mint of a record is that of a creation -/
  pools : ∀ address pool, live.memory.pools.pools.get? address = some pool →
    ∃ entry ∈ live.log, Creates address entry ∧
      ∃ record, createdPool entry.event address = .ok record ∧ record.baseMint = pool.baseMint
  /-- an id that is no event's holds two colons -/
  seen : ∀ id ∈ live.memory.features.seen, Observed live.log id ∨ 2 ≤ id.toList.count ':'

theorem Accepted.mono {config : FilterConfig} {rows more : Dict String Candidate} {entry : LogEntry}
    (h : Accepted config rows entry)
    (hrows : ∀ id row, rows.get? id = some row → ∃ row', more.get? id = some row') :
    Accepted config more entry where
  created := h.created
  stored := by
    intro candidate hcandidate
    obtain ⟨row, hrow⟩ := h.stored candidate hcandidate
    exact hrows _ row hrow

namespace LiveProcess.Sound

variable {config : FilterConfig} {live next : LiveProcess}

theorem start (config : FilterConfig) (wallets : WalletAnalyzer) :
    LiveProcess.Sound config { memory := { wallets := wallets } } where
  ids := List.nodup_nil
  accepted := fun _ h => absurd h List.not_mem_nil
  candidates := fun _ _ h => nomatch h
  rows := fun _ _ h => nomatch h
  pools := fun _ _ h => nomatch h
  seen := fun _ h => absurd h List.not_mem_nil

theorem nodup_entryOf (h : live.Sound config) {event : EventEnvelope}
    (hnew : ¬ live.Processed event) :
    ((live.log ++ [live.entryOf event]).map (·.event.eventId)).Nodup := by
  obtain ⟨mint, hmint⟩ := withKnownPoolMint_same live.memory.pools.pools event
  rw [List.map_append, List.nodup_append]
  refine ⟨h.ids, List.nodup_singleton _, ?_⟩
  intro id hid other hother heq
  obtain rfl := List.mem_singleton.mp hother
  refine hnew ?_
  unfold LiveProcess.Processed
  rw [heq] at hid
  unfold LiveProcess.entryOf at hid
  rw [hmint] at hid
  exact hid

/-- A filtered event is a swap. -/
theorem swap_of_filtered {pools : Dict String PoolRecord} {candidates : Dict String Candidate}
    {event : EventEnvelope} {reason : FilterReason}
    (hfilter : eventStateFilterReason config pools candidates event = some reason) :
    event.eventType.Swap := by
  by_contra hswap
  rw [eventStateFilterReason_of_not_swap hswap] at hfilter
  cases hfilter

theorem not_created_of_swap {eventType : ChainEventType} (h : eventType.Swap) :
    eventType ≠ .poolCreated ∧ eventType ≠ .tokenCreated := by
  rcases h with rfl | rfl <;> exact ⟨by decide, by decide⟩

theorem accepted_of_filtered {event : EventEnvelope} {reason : FilterReason}
    (hfilter : eventStateFilterReason config live.memory.pools.pools live.memory.candidates event =
      some reason) (rows : Dict String Candidate) :
    Accepted config rows (live.entryOf event) := by
  have htype : (live.entryOf event).event.eventType ≠ .poolCreated := by
    obtain ⟨mint, hmint⟩ := withKnownPoolMint_same live.memory.pools.pools event
    unfold LiveProcess.entryOf
    rw [hmint]
    exact (not_created_of_swap (swap_of_filtered hfilter)).1
  exact ⟨fun h => absurd h htype,
    fun candidate hcandidate => absurd (candidateOf_spec hcandidate).1 htype⟩

/-- Delivering an event keeps the memory and the rows in step with the log. -/
theorem delivered (h : live.Sound config) {event : EventEnvelope}
    (hstep : Delivered config live event next) : next.Sound config := by
  have hsub : live.log ⊆ live.log ++ [live.entryOf event] := List.subset_append_left _ _
  have hmem : live.entryOf event ∈ live.log ++ [live.entryOf event] :=
    List.mem_append_right _ (List.mem_singleton_self _)
  cases hstep with
  | unchanged => exact h
  | filtered reason hnew hfilter =>
      refine ⟨h.nodup_entryOf hnew, ?_, h.candidates.mono hsub, h.rows.mono hsub, ?_, ?_⟩
      · intro entry hentry
        rcases List.mem_append.mp hentry with hold | hlast
        · exact h.accepted entry hold
        · rw [List.mem_singleton.mp hlast]
          exact accepted_of_filtered hfilter _
      · intro address pool hget
        obtain ⟨entry, hentry, hcreates⟩ := h.pools address pool hget
        exact ⟨entry, hsub hentry, hcreates⟩
      · exact fun id hid => (h.seen id hid).imp_left (Observed.mono hsub)
  | applied outcome pools state hnew hfilter happly happlies =>
      obtain ⟨-, hpools, hseen⟩ := happlies.rest
      have hcandidate := happlies.candidate
      have hcreates : ∀ candidate, outcome.2 = some candidate →
          Creates candidate.poolAddress (live.entryOf event) := by
        intro candidate heq
        exact candidateOf_spec (hcandidate.symm.trans heq)
      refine ⟨h.nodup_entryOf hnew, ?_, ?_, ?_, ?_, ?_⟩
      · have hrows : ∀ id row, live.rows.get? id = some row → ∃ row',
            (match outcome.2 with
              | some candidate => live.rows.set candidate.candidateId candidate
              | none => live.rows).get? id = some row' := by
          intro id row hrow
          cases outcome.2 with
          | none => exact ⟨row, hrow⟩
          | some candidate =>
              dsimp only
              rw [Dict.get?_set]
              split_ifs
              · exact ⟨candidate, rfl⟩
              · exact ⟨row, hrow⟩
        intro entry hentry
        rcases List.mem_append.mp hentry with hold | hlast
        · exact (h.accepted entry hold).mono hrows
        · rw [List.mem_singleton.mp hlast]
          refine ⟨fun hcreated address hpool => exists_createdPool happly hcreated hpool, ?_⟩
          intro candidate hof
          rw [hcandidate, hof]
          exact ⟨candidate, Dict.get?_set_self _ _ _⟩
      · intro id candidate hget
        have hkept := happlies.candidates (fun c => (c.candidateId, c.poolAddress))
          (fun _ _ => rfl) id
        rw [hget, Option.map_some] at hkept
        have hofOld : ∀ old, live.memory.candidates.get? id = some old →
            (candidate.candidateId, candidate.poolAddress) = (old.candidateId, old.poolAddress) →
            candidate.candidateId = id ∧
              ∃ entry ∈ live.log ++ [live.entryOf event], Creates candidate.poolAddress entry := by
          intro old hold heq
          obtain ⟨hid, hpool⟩ := Prod.mk.inj heq
          rw [hid, hpool]
          exact (h.candidates.mono hsub) id old hold
        cases houtcome : outcome.2 with
        | none =>
            rw [houtcome] at hkept
            obtain ⟨old, hold, heq⟩ := Option.map_eq_some_iff.mp hkept.symm
            exact hofOld old hold heq.symm
        | some created =>
            rw [houtcome] at hkept
            dsimp only at hkept
            split_ifs at hkept with hid
            · cases hold : live.memory.candidates.get? id with
              | some old =>
                  rw [hold] at hkept
                  exact hofOld old hold (Option.some.inj hkept)
              | none =>
                  rw [hold] at hkept
                  obtain ⟨hsame, hpool⟩ := Prod.mk.inj (Option.some.inj hkept)
                  rw [hsame, hpool]
                  exact ⟨hid, _, hmem, hcreates created houtcome⟩
            · obtain ⟨old, hold, heq⟩ := Option.map_eq_some_iff.mp hkept.symm
              exact hofOld old hold heq.symm
      · cases houtcome : outcome.2 with
        | none => exact h.rows.mono hsub
        | some candidate =>
            exact (h.rows.mono hsub).set ⟨_, hmem, hcreates candidate houtcome⟩
      · intro address pool hget
        rcases hpools address pool hget with ⟨old, hold, hmint⟩ | hnewPool
        · obtain ⟨entry, hentry, hcreated⟩ := h.pools address old hold
          exact ⟨entry, hsub hentry, hmint ▸ hcreated⟩
        · exact ⟨_, hmem, hnewPool⟩
      · intro id hid
        rcases hseen id hid with hold | hid
        · exact (h.seen id hold).imp_left (Observed.mono hsub)
        · exact Or.inl ⟨_, hmem, hid⟩

/-- The ids of supply and holder observations hold two colons. -/
theorem two_colons (before between after : String) (separator : String)
    (hseparator : separator.toList.count ':' = 2) :
    2 ≤ (before ++ separator ++ between ++ after).toList.count ':' := by
  simp only [String.toList_append, List.count_append, hseparator]
  omega

theorem keeps_memory (h : live.Sound config) {memory : Memory}
    (hpools : memory.pools.pools = live.memory.pools.pools)
    (hcandidates : memory.candidates = live.memory.candidates)
    (hseen : ∀ id ∈ memory.features.seen,
      id ∈ live.memory.features.seen ∨ 2 ≤ id.toList.count ':') :
    ({ live with memory := memory } : LiveProcess).Sound config where
  ids := h.ids
  accepted := h.accepted
  candidates := by
    dsimp only
    rw [hcandidates]
    exact h.candidates
  rows := h.rows
  pools := by
    dsimp only
    rw [hpools]
    exact h.pools
  seen := by
    intro id hid
    rcases hseen id hid with hold | hrpc
    · exact h.seen id hold
    · exact Or.inr hrpc

theorem step (config : PipelineConfig) {live : LiveProcess} (h : live.Sound config.toFilterConfig)
    (label : LiveStep) : (live.step config label).Sound config.toFilterConfig := by
  cases label with
  | processEvent event => exact h.delivered (delivered_processEvent _ live event)
  | setQuotePrice price => exact h.keeps_memory rfl rfl fun _ => Or.inl
  | applyEnrichment mint name symbol observedAt => exact h.keeps_memory rfl rfl fun _ => Or.inl
  | applyMintState mint tokenProgram decimals totalSupplyRaw observedAt =>
      exact h.keeps_memory rfl rfl fun _ => Or.inl
  | updatePoolSupply poolAddress totalSupplyRaw observedAt =>
      unfold LiveProcess.step updatePoolSupply PoolStateTracker.applyBaseSupply
      dsimp only
      cases live.memory.pools.states.get? poolAddress with
      | none => exact h
      | some state =>
          cases live.memory.pools.pools.get? poolAddress with
          | none => exact h
          | some pool =>
              refine h.keeps_memory rfl rfl ?_
              intro id hid
              rcases (mem_seen_ingest _ _).2.1 _ hid with hold | rfl
              · exact Or.inl hold
              · refine Or.inr ?_
                have hcolons := two_colons poolAddress (config.normalized totalSupplyRaw) ""
                  ":supply:" (by decide)
                simpa using hcolons
  | ingestHolders candidateId holders =>
      refine h.keeps_memory rfl rfl ?_
      intro id hid
      rcases (mem_seen_ingest _ _).2.2 _ hid with hold | rfl
      · exact Or.inl hold
      · refine Or.inr ?_
        simp only [String.toList_append, List.count_append]
        have hfirst : "holders:".toList.count ':' = 1 := by decide
        have hsecond : ":".toList.count ':' = 1 := by decide
        omega
  | setCandidate candidate =>
      unfold LiveProcess.step
      dsimp only
      split
      · rename_i current hcurrent
        split_ifs with hsame
        · refine ⟨h.ids, h.accepted, ?_, h.rows, h.pools, h.seen⟩
          refine h.candidates.set ?_
          rw [hsame.2.1]
          exact (h.candidates _ current hcurrent).2
        · exact h
      · exact h
  | upsertCandidate candidate =>
      unfold LiveProcess.step
      dsimp only
      split
      · rename_i current hcurrent
        split_ifs with hsame
        · refine ⟨h.ids, ?_, h.candidates, h.rows.set ?_, h.pools, h.seen⟩
          · intro entry hentry
            refine (h.accepted entry hentry).mono ?_
            intro id row hrow
            rw [Dict.get?_set]
            split_ifs
            · exact ⟨candidate, rfl⟩
            · exact ⟨row, hrow⟩
          · rw [hsame.2.1]
            exact (h.candidates _ current hcurrent).2
        · exact h
      · exact h

end LiveProcess.Sound

end SniperBot.Features
