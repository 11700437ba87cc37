import SniperBot.Events.Ownership
import SniperBot.Events.Pipeline
import Mathlib.Algebra.GroupWithZero.Nat

/-!
# Every event is applied once

`Delivering` is the invariant of the pipeline while no batch of the durable worker meets a claim
that is still outstanding: the events in flight are pairwise different, each of them is claimed
with the token in memory, and everything the state stage has handled is settled or in the open
batch. From it follow that the pipeline never poisons itself, that no event is applied twice, and
that a drained pipeline has applied all that was ingested.

When a batch does meet an outstanding claim, `record_events` claims the event again, because it
resumes claims with its own token. The event is then handed over twice and the state worker
rejects the second copy by poisoning the pipeline.
-/

namespace SniperBot.Events

open Basis

/-! ## Batches -/

theorem collectStageBatch_flatten (events : List String) (queue : List (List String)) :
    (collectStageBatch events queue).1 ++ (collectStageBatch events queue).2.flatten =
      events ++ queue.flatten := by
  induction queue generalizing events with
  | nil => rfl
  | cons batch queue ih =>
      unfold collectStageBatch
      split
      · rfl
      · rw [ih, List.flatten_cons, List.append_assoc]

theorem collectStageBatch_queue (events : List String) (queue : List (List String)) :
    ∀ batch ∈ (collectStageBatch events queue).2, batch ∈ queue := by
  induction queue generalizing events with
  | nil => exact fun _ h => h
  | cons first queue ih =>
      unfold collectStageBatch
      split
      · exact fun _ h => h
      · exact fun batch h => List.mem_cons_of_mem _ (ih _ batch h)

theorem collectStageBatch_length {events : List String} (h : events.length ≤ maxEventBatchSize)
    (queue : List (List String)) :
    (collectStageBatch events queue).1.length ≤ maxEventBatchSize := by
  induction queue generalizing events with
  | nil => exact h
  | cons batch queue ih =>
      unfold collectStageBatch
      split
      · exact h
      · rename_i hfits
        refine ih ?_
        rw [List.length_append]
        omega

theorem collectStageBatch_ne_nil {events : List String} (h : events ≠ [])
    (queue : List (List String)) : (collectStageBatch events queue).1 ≠ [] := by
  induction queue generalizing events with
  | nil => exact h
  | cons batch queue ih =>
      unfold collectStageBatch
      split
      · exact h
      · exact ih (List.append_ne_nil_of_left_ne_nil h batch)

/-- Joining batches saves what each of them costs. -/
theorem collectStageBatch_weight (c : Nat) (events : List String) (queue : List (List String)) :
    (collectStageBatch events queue).1.length +
      ((collectStageBatch events queue).2.map fun batch => batch.length + c).sum ≤
      events.length + (queue.map fun batch => batch.length + c).sum := by
  induction queue generalizing events with
  | nil => exact le_rfl
  | cons batch queue ih =>
      unfold collectStageBatch
      split
      · exact le_rfl
      · have h := ih (events ++ batch)
        rw [List.length_append] at h
        rw [List.map_cons, List.sum_cons]
        omega

/-- Every batch of `process_transactions` fits into one `record_events` call. -/
theorem eventBatches_bounded {decoded : List (List String)} {current : List String}
    {batches : List (List String)} (hcurrent : current.length ≤ maxEventBatchSize)
    (h : eventBatches decoded current = some batches) :
    ∀ batch ∈ batches, batch ≠ [] ∧ batch.length ≤ maxEventBatchSize := by
  induction decoded generalizing current batches with
  | nil =>
      cases h
      intro batch hbatch
      split at hbatch
      · cases hbatch
      · rename_i hne
        rw [List.mem_singleton.mp hbatch]
        exact ⟨hne, hcurrent⟩
  | cons events rest ih =>
      unfold eventBatches at h
      split at h
      · cases h
      · rename_i hevents
        split at h
        · rename_i hfull
          obtain ⟨later, hlater, rfl⟩ := Option.map_eq_some_iff.mp h
          intro batch hbatch
          rcases List.mem_cons.mp hbatch with rfl | hbatch
          · exact ⟨hfull.1, hcurrent⟩
          · exact ih (by omega) hlater batch hbatch
        · rename_i hfits
          refine ih ?_ h
          rw [List.length_append]
          by_cases hempty : current = []
          · rw [hempty, List.length_nil]
            omega
          · have hnot : ¬ current.length + events.length > maxEventBatchSize :=
              fun hlong => hfits ⟨hempty, hlong⟩
            omega

/-! ## Claims and rows -/

/-- The event is settled for good. -/
def EventDb.Settled (db : EventDb) (id : String) : Prop :=
  ∃ row, db.dedup.get? id = some row ∧ row.status = .processed

theorem EventDb.Owns.not_settled {db : EventDb} {held : Dict String Nat} {id : String}
    (h : db.Owns held id) : ¬ db.Settled id := by
  obtain ⟨row, hrow, hprocessing, -⟩ := h
  rintro ⟨row', hrow', hprocessed⟩
  rw [Option.mem_def, hrow'] at hrow
  cases hrow
  rw [hprocessed] at hprocessing
  cases hprocessing

theorem EventDb.Owns.held_some {db : EventDb} {held : Dict String Nat} {id : String}
    (h : db.Owns held id) : ∃ t, held.get? id = some t := by
  obtain ⟨row, -, -, htoken, hheld⟩ := h
  exact Option.ne_none_iff_exists'.mp (hheld ▸ htoken)

/-- Ownership depends on the row and on the token of the event only. -/
theorem EventDb.Owns.congr {db db' : EventDb} {held held' : Dict String Nat} {id : String}
    (h : db.Owns held id) (hdb : db'.dedup.get? id = db.dedup.get? id)
    (hheld : held'.get? id = held.get? id) : db'.Owns held' id := by
  obtain ⟨row, hrow, hprocessing, htoken, heq⟩ := h
  exact ⟨row, by rw [Option.mem_def, hdb]; exact hrow, hprocessing, htoken, heq.trans hheld.symm⟩

section Record

variable {dialect : Dialect} {now : Time} {held claims : Dict String Nat} {unique : List String}
  {db : EventDb} {id : String}

/-- The durable worker resumes exactly the claims that are still its own. -/
theorem resumes_iff (now : Time) {row : DedupRow} (hrow : db.dedup.get? id = some row) :
    (durableCall now).Resumes (held.get? id) row ↔ db.Owns held id := by
  constructor
  · rintro ⟨-, hheld, hprocessing, htoken⟩
    exact ⟨row, hrow, hprocessing, htoken ▸ hheld, htoken⟩
  · rintro ⟨row', hrow', hprocessing, htoken, hheld⟩
    rw [Option.mem_def, hrow] at hrow'
    cases hrow'
    exact ⟨rfl, hheld ▸ htoken, hprocessing, hheld⟩

/-- A fresh claim stores the token of the call. -/
theorem claimRow_of_claimed (hfree : ¬ db.Owns held id)
    (h : db.verdict (durableCall now) held claims id = .claimed) :
    ((durableCall now).row (held.get? id) (claims.get? id) (db.dedup.get? id)).status =
        .processing ∧
      ((durableCall now).row (held.get? id) (claims.get? id) (db.dedup.get? id)).token =
        claims.get? id := by
  unfold EventDb.verdict at h
  cases hrow : db.dedup.get? id with
  | none => exact ⟨rfl, rfl⟩
  | some row =>
      have hresumes := (resumes_iff now hrow).not.mpr hfree
      rw [hrow] at h
      simp only [ClaimCall.verdict, if_neg hresumes] at h
      split at h
      · split at h <;> cases h
      · rename_i hblocked
        simp only [ClaimCall.row, if_neg hresumes, if_neg hblocked, and_self]

/-- An event that is not claimed has a row, which stays as it is and is not `FAILED`. -/
theorem claimRow_of_not_claimed
    (h : db.verdict (durableCall now) held claims id ≠ .claimed) :
    ∃ row, db.dedup.get? id = some row ∧ row.status ≠ .failed ∧
      (durableCall now).row (held.get? id) (claims.get? id) (some row) = row := by
  unfold EventDb.verdict at h
  cases hrow : db.dedup.get? id with
  | none =>
      rw [hrow] at h
      exact absurd rfl h
  | some row =>
      rw [hrow] at h
      refine ⟨row, rfl, ?_⟩
      by_cases hresumes : (durableCall now).Resumes (held.get? id) row
      · simp [ClaimCall.verdict, if_pos hresumes] at h
      · by_cases hblocked : (durableCall now).Blocked row
        · refine ⟨?_, by simp only [ClaimCall.row, if_neg hresumes, if_pos hblocked]⟩
          intro hfailed
          rcases hblocked with hprocessed | ⟨hprocessing, -⟩
          · rw [hfailed] at hprocessed
            cases hprocessed
          · rw [hfailed] at hprocessing
            cases hprocessing
        · simp [ClaimCall.verdict, if_neg hblocked] at h

theorem not_settled_of_claimed (h : db.verdict (durableCall now) held claims id = .claimed) :
    ¬ db.Settled id := by
  rintro ⟨row, hrow, hprocessed⟩
  have hresumes : ¬ (durableCall now).Resumes (held.get? id) row := by
    rintro ⟨-, -, hprocessing, -⟩
    rw [hprocessed] at hprocessing
    cases hprocessing
  have hblocked : (durableCall now).Blocked row := Or.inl hprocessed
  rw [EventDb.verdict, hrow] at h
  simp only [ClaimCall.verdict, if_neg hresumes, if_pos hblocked] at h
  split at h <;> cases h

theorem claimBatch_dedup_of_not_claimed (hnodup : unique.Nodup)
    (h : id ∈ unique → db.verdict (durableCall now) held claims id ≠ .claimed) :
    (db.claimBatch dialect (durableCall now) held claims unique).dedup.get? id =
      db.dedup.get? id := by
  rw [claimBatch_dedup hnodup]
  split
  · rename_i hid
    obtain ⟨row, hget, -, hsame⟩ := claimRow_of_not_claimed (h hid)
    rw [hget, hsame]
  · rfl

theorem EventDb.Settled.claimBatch (h : db.Settled id) (hnodup : unique.Nodup) :
    (db.claimBatch dialect (durableCall now) held claims unique).Settled id := by
  obtain ⟨row, hget, hprocessed⟩ := h
  refine ⟨row, ?_, hprocessed⟩
  rw [claimBatch_dedup hnodup, hget, claimRow_of_processed hprocessed]
  split <;> rfl

/-- A fresh claim is owned when its token is still in memory. -/
theorem claimBatch_owns (hnodup : unique.Nodup) (hid : id ∈ unique) (hfree : ¬ db.Owns held id)
    (h : db.verdict (durableCall now) held claims id = .claimed) (hclaim : claims.get? id ≠ none)
    (hheld : held.get? id = claims.get? id) :
    (db.claimBatch dialect (durableCall now) held claims unique).Owns held id := by
  obtain ⟨hstatus, htoken⟩ := claimRow_of_claimed hfree h
  refine ⟨_, ?_, hstatus, ?_, htoken.trans hheld.symm⟩
  · rw [Option.mem_def, claimBatch_dedup hnodup, if_pos hid]
  · rw [htoken]
    exact hclaim

end Record

section Commit

variable {at' : Time} {unique : List String} {db : EventDb} {id : String}

theorem EventDb.Settled.settleBatch (h : db.Settled id) (hnodup : unique.Nodup) :
    (db.settleBatch .processed at' unique).Settled id := by
  obtain ⟨row, hrow, hprocessed⟩ := h
  unfold EventDb.Settled
  rw [settleBatch_dedup hnodup, hrow]
  split
  · exact ⟨_, rfl, rfl⟩
  · exact ⟨row, rfl, hprocessed⟩

theorem settleBatch_settled (hnodup : unique.Nodup) (hid : id ∈ unique) {held : Dict String Nat}
    (h : db.Owns held id) : (db.settleBatch .processed at' unique).Settled id := by
  obtain ⟨row, hrow, -⟩ := h
  unfold EventDb.Settled
  rw [settleBatch_dedup hnodup, if_pos hid, Option.mem_def.mp hrow]
  exact ⟨_, rfl, rfl⟩

end Commit

theorem accept_of_notMem {d : Deduplicator} {id : String} (h : id ∉ d.seen) :
    (d.accept id).1 = true ∧ ∀ other ∈ (d.accept id).2.seen, other ∈ d.seen ∨ other = id := by
  unfold Deduplicator.accept
  rw [if_neg h]
  refine ⟨rfl, fun other hother => ?_⟩
  have hmem : other ∈ d.seen ++ [id] := by
    dsimp only at hother
    split at hother
    · exact List.mem_of_mem_tail hother
    · exact hother
  rcases List.mem_append.mp hmem with hmem | hmem
  · exact Or.inl hmem
  · exact Or.inr (List.mem_singleton.mp hmem)

theorem dropTokens_get?_of_retained {held claims : Dict String Nat} {unique : List String}
    {retained : String → Bool} {id : String} (h : id ∈ unique → retained id = true) :
    (dropTokens held claims unique retained).get? id = held.get? id := by
  rw [dropTokens, Dict.get?_filter]
  cases held.get? id with
  | none => rfl
  | some t =>
      rw [Option.filter_some, if_pos]
      by_cases hid : id ∈ unique
      · simp [h hid]
      · simp [hid]

/-! ## What one step does -/

section Equations

variable {s : Pipeline}

theorem assign_eq (now : Time) {first : List String} {queue : List (List String)}
    (hdurable : s.durable = .idle) (hqueue : s.durableQueue = first :: queue)
    (hbatch : ¬ ((collectStageBatch first queue).1 = [] ∨
      (collectStageBatch first queue).1.length > maxEventBatchSize)) :
    s.assign now =
      { s with
        held := (assignTokens (firstOccurrences (collectStageBatch first queue).1) s.held s.next).1
        next := (assignTokens (firstOccurrences (collectStageBatch first queue).1) s.held s.next).2
        durableQueue := (collectStageBatch first queue).2
        durable := .assigned (collectStageBatch first queue).1
          (assignTokens (firstOccurrences (collectStageBatch first queue).1) s.held s.next).1
          now } := by
  unfold Pipeline.assign
  rw [hdurable, hqueue]
  exact if_neg hbatch

theorem assign_of_not {now : Time} (h : ¬ ∃ first queue, s.durable = .idle ∧
    s.durableQueue = first :: queue ∧ ¬ ((collectStageBatch first queue).1 = [] ∨
      (collectStageBatch first queue).1.length > maxEventBatchSize)) : s.assign now = s := by
  unfold Pipeline.assign
  split
  · rename_i first queue hdurable hqueue
    refine if_pos ?_
    by_contra hbatch
    exact h ⟨first, queue, hdurable, hqueue, hbatch⟩
  · rfl

theorem record_eq {dialect : Dialect} {events : List String} {claims : Dict String Nat}
    {now : Time} (hdurable : s.durable = .assigned events claims now) :
    s.record dialect =
      { s with
        db := s.db.claimBatch dialect (durableCall now) s.held claims (firstOccurrences events)
        durable := .recorded events claims
          ((firstOccurrences events).filter fun id =>
            s.db.verdict (durableCall now) s.held claims id ≠ .refused)
          ((firstOccurrences events).filter fun id =>
            s.db.verdict (durableCall now) s.held claims id = .claimed) } := by
  unfold Pipeline.record
  rw [hdurable]

theorem record_of_not (dialect : Dialect)
    (h : ¬ ∃ events claims now, s.durable = .assigned events claims now) :
    s.record dialect = s := by
  unfold Pipeline.record
  split
  · rename_i events claims now hdurable
    exact absurd ⟨events, claims, now, hdurable⟩ h
  · rfl

theorem clean_eq {events retained claimed : List String} {claims : Dict String Nat}
    (hdurable : s.durable = .recorded events claims retained claimed) :
    s.clean =
      { s with
        held := dropTokens s.held claims (firstOccurrences events) fun id => decide (id ∈ retained)
        durable := if claimed = [] then .idle else .handing claimed } := by
  unfold Pipeline.clean
  rw [hdurable]

theorem clean_of_not
    (h : ¬ ∃ events claims retained claimed, s.durable = .recorded events claims retained claimed) :
    s.clean = s := by
  unfold Pipeline.clean
  split
  · rename_i events claims retained claimed hdurable
    exact absurd ⟨events, claims, retained, claimed, hdurable⟩ h
  · rfl

theorem enqueue_eq {events : List String} (hdurable : s.durable = .handing events) :
    s.enqueue = { s with stateQueue := s.stateQueue ++ [events], durable := .idle } := by
  unfold Pipeline.enqueue
  rw [hdurable]

theorem enqueue_of_not (h : ¬ ∃ events, s.durable = .handing events) : s.enqueue = s := by
  unfold Pipeline.enqueue
  split
  · rename_i events hdurable
    exact absurd ⟨events, hdurable⟩ h
  · rfl

theorem collect_eq {first : List String} {queue : List (List String)} (hstate : s.state = .idle)
    (hqueue : s.stateQueue = first :: queue) :
    s.collect =
      { s with
        stateQueue := (collectStageBatch first queue).2
        state := .applying [] (collectStageBatch first queue).1 Dict.empty } := by
  unfold Pipeline.collect
  rw [hstate, hqueue]

theorem collect_of_not (h : ¬ ∃ first queue, s.state = .idle ∧ s.stateQueue = first :: queue) :
    s.collect = s := by
  unfold Pipeline.collect
  split
  · rename_i first queue hstate hqueue
    exact absurd ⟨first, queue, hstate, hqueue⟩ h
  · rfl

theorem processEvent_of_not (keep : Bool)
    (h : ¬ ∃ done id todo staged, s.state = .applying done (id :: todo) staged) :
    s.processEvent keep = s := by
  unfold Pipeline.processEvent
  split
  · rename_i done id todo staged hstate
    exact absurd ⟨done, id, todo, staged, hstate⟩ h
  · rfl

theorem commit_of_not (at' : Time) (h : ¬ ∃ done staged, s.state = .applying done [] staged) :
    s.commit at' = s := by
  unfold Pipeline.commit
  split
  · rename_i done staged hstate
    exact absurd ⟨done, staged, hstate⟩ h
  · rfl

theorem release_eq {events : List String} (hstate : s.state = .committed events) :
    s.release = { s with held := events.foldl Dict.erase s.held, state := .idle } := by
  unfold Pipeline.release
  rw [hstate]

theorem release_of_not (h : ¬ ∃ events, s.state = .committed events) : s.release = s := by
  unfold Pipeline.release
  split
  · rename_i events hstate
    exact absurd ⟨events, hstate⟩ h
  · rfl

end Equations

/-! ## The invariant -/

/-- The staged claims are those of the applied part of the batch, with the tokens in memory. -/
def StatePhase.Staged (held : Dict String Nat) : StatePhase → Prop
  | .applying done _ staged =>
      (∀ id t, staged.get? id = some t → id ∈ done ∧ held.get? id = some t) ∧
      ∀ id ∈ done, ∃ t, staged.get? id = some t
  | .committed _ | .idle => True
  | .failing _ | .stopped => False

/-- What the durable worker knows about the tokens of its batch. -/
def DurablePhase.Tracked (db : EventDb) (held : Dict String Nat) (inFlight : List String) :
    DurablePhase → Prop
  | .assigned events claims _ => ∀ id ∈ events,
      claims.get? id ≠ none ∧ (held.get? id = claims.get? id ∨ db.Settled id)
  | .recorded events _ retained _ => ∀ id ∈ events, id ∉ retained → id ∉ inFlight
  | _ => True

/-- The events in flight are different and claimed, and every other row is settled by this
process or as an earlier one left it. -/
structure Flight (start : EventDb) (s : Pipeline) : Prop where
  handedOnce : s.inFlight.Nodup
  owned : ∀ id ∈ s.inFlight, s.db.Owns s.held id
  origin : ∀ id row, s.db.dedup.get? id = some row →
    start.dedup.get? id = some row ∨ id ∈ s.inFlight ∨
      (row.status = .processed ∧ id ∈ s.handled.map Prod.fst)

/-- What was handled or seen is settled or in the applied part of the open batch. -/
structure Journal (start : EventDb) (s : Pipeline) : Prop where
  kept : ∀ id, start.Settled id → s.db.Settled id
  appliedOnce : (s.handled.map Prod.fst).Nodup
  appliedNew : ∀ id ∈ s.handled.map Prod.fst, ¬ start.Settled id
  settled : ∀ id ∈ s.handled.map Prod.fst, id ∈ s.state.done ∨ s.db.Settled id
  known : ∀ id ∈ s.deduplicator.seen, id ∈ s.state.done ∨ s.db.Settled id
  applied : ∀ id ∈ s.state.done, id ∈ s.handled.map Prod.fst

/-- The tokens that the two workers rely on are in memory. -/
structure Holdings (base : Nat) (s : Pipeline) : Prop where
  staged : s.state.Staged s.held
  committed : ∀ events, s.state = .committed events → ∀ id ∈ events, s.db.Settled id
  tracked : s.durable.Tracked s.db s.held s.inFlight
  fresh : base ≤ s.next ∧ ∀ id t, s.held.get? id = some t → base ≤ t ∧ t < s.next

/-- Where an ingested event can be: waiting, in flight, handled, or kept by a row that an
earlier process left. -/
def Pipeline.Accounted (start : EventDb) (s : Pipeline) (id : String) : Prop :=
  id ∈ s.durableQueue.flatten ++ s.durable.batch ∨ id ∈ s.inFlight ∨
    id ∈ s.handled.map Prod.fst ∨ ∃ row, start.dedup.get? id = some row ∧ row.status ≠ .failed

/-- No ingested event is lost, and every batch can be recorded. -/
structure Intake (start : EventDb) (s : Pipeline) : Prop where
  accounted : ∀ id ∈ s.ingested, s.Accounted start id
  bounded : ∀ batch ∈ s.durableQueue, batch ≠ [] ∧ batch.length ≤ maxEventBatchSize

/-- The invariant of a pipeline that started on the table `start` with the token `base` next. -/
structure Delivering (start : EventDb) (base : Nat) (s : Pipeline) : Prop extends
    Flight start s, Journal start s, Holdings base s, Intake start s where
  alive : s.poisoned = false

theorem Delivering.started {db : EventDb} {next : Nat} {deduplicator : Deduplicator}
    (hseen : ∀ id ∈ deduplicator.seen, db.Settled id) :
    Delivering db next (Pipeline.started db next deduplicator) where
  handedOnce := List.nodup_nil
  owned := by rintro id ⟨⟩
  origin := fun id row hrow => Or.inl hrow
  kept := fun _ hid => hid
  appliedOnce := List.nodup_nil
  appliedNew := by rintro id ⟨⟩
  settled := by rintro id ⟨⟩
  known := fun id hid => Or.inr (hseen id hid)
  applied := by rintro id ⟨⟩
  staged := trivial
  committed := by rintro events ⟨⟩
  tracked := trivial
  fresh := ⟨le_rfl, by rintro id t ⟨⟩⟩
  accounted := by rintro id ⟨⟩
  bounded := by rintro batch ⟨⟩
  alive := rfl

section Moves

variable {start : EventDb} {base : Nat} {s s' : Pipeline}

/-- Tokens that the events in flight keep are enough for the staged claims. -/
theorem Delivering.staged_of_held (h : Delivering start base s) {held : Dict String Nat}
    (hheld : ∀ id ∈ s.inFlight, held.get? id = s.held.get? id) : s.state.Staged held := by
  have hstaged := h.staged
  have hmem : ∀ id ∈ s.state.inFlight, id ∈ s.inFlight := by
    intro id hid
    exact List.mem_append_left _ (List.mem_append_left _ hid)
  cases hstate : s.state with
  | applying done todo staged =>
      rw [hstate] at hstaged hmem
      refine ⟨fun id t hget => ?_, hstaged.2⟩
      obtain ⟨hdone, htoken⟩ := hstaged.1 id t hget
      exact ⟨hdone, (hheld id (hmem id (List.mem_append_left _ hdone))).trans htoken⟩
  | idle => trivial
  | committed events => trivial
  | failing events =>
      rw [hstate] at hstaged
      exact hstaged
  | stopped =>
      rw [hstate] at hstaged
      exact hstaged

/-- A step that moves events without changing which are in flight. -/
theorem Flight.moved (h : Flight start s) (hdb : s'.db = s.db)
    (hhandled : ∀ id ∈ s.handled.map Prod.fst, id ∈ s'.handled.map Prod.fst)
    (hflight : s'.inFlight = s.inFlight)
    (hheld : ∀ id ∈ s.inFlight, s'.held.get? id = s.held.get? id) : Flight start s' := by
  refine ⟨?_, ?_, ?_⟩
  · rw [hflight]
    exact h.handedOnce
  · rw [hdb, hflight]
    exact fun id hid => (h.owned id hid).congr rfl (hheld id hid)
  · rw [hdb, hflight]
    intro id row hrow
    exact (h.origin id row hrow).imp_right (Or.imp_right (And.imp_right (hhandled id)))

/-- A change of the phases with the same applied part. -/
theorem Journal.moved (h : Journal start s) (hdb : s'.db = s.db)
    (hhandled : s'.handled = s.handled) (hseen : s'.deduplicator = s.deduplicator)
    (hdone : s'.state.done = s.state.done) : Journal start s' := by
  refine ⟨?_, ?_, ?_, ?_, ?_, ?_⟩
  · rw [hdb]
    exact h.kept
  · rw [hhandled]
    exact h.appliedOnce
  · rw [hhandled]
    exact h.appliedNew
  · rw [hhandled, hdone, hdb]
    exact h.settled
  · rw [hseen, hdone, hdb]
    exact h.known
  · rw [hhandled, hdone]
    exact h.applied

theorem Intake.moved (h : Intake start s) (hingested : s'.ingested = s.ingested)
    (hhandled : ∀ id ∈ s.handled.map Prod.fst, id ∈ s'.handled.map Prod.fst)
    (hflight : s'.inFlight = s.inFlight)
    (hwait : ∀ id ∈ s.durableQueue.flatten ++ s.durable.batch,
      id ∈ s'.durableQueue.flatten ++ s'.durable.batch)
    (hqueue : ∀ batch ∈ s'.durableQueue, batch ∈ s.durableQueue) : Intake start s' := by
  refine ⟨?_, fun batch hbatch => h.bounded batch (hqueue batch hbatch)⟩
  rw [hingested]
  intro id hid
  unfold Pipeline.Accounted
  rw [hflight]
  exact (h.accounted id hid).imp (hwait id) (Or.imp_right (Or.imp_left (hhandled id)))

/-- Tracking survives when rows only get settled, tokens only go with them, and events only
leave the flight. -/
theorem DurablePhase.Tracked.mono {phase : DurablePhase} {db db' : EventDb}
    {held held' : Dict String Nat} {fly fly' : List String} (h : phase.Tracked db held fly)
    (hsettled : ∀ id, db.Settled id → db'.Settled id)
    (hheld : ∀ id, held'.get? id = held.get? id ∨ db'.Settled id)
    (hfly : ∀ id ∈ fly', id ∈ fly) : phase.Tracked db' held' fly' := by
  cases phase with
  | assigned events claims now =>
      intro id hid
      obtain ⟨hclaim, hold⟩ := h id hid
      refine ⟨hclaim, ?_⟩
      rcases hheld id with hsame | hdone
      · rw [hsame]
        exact hold.imp_right (hsettled id)
      · exact Or.inr hdone
  | recorded events claims retained claimed =>
      exact fun id hid hretained hmem => h id hid hretained (hfly id hmem)
  | idle => trivial
  | handing events => trivial

/-- What the worker hands over after the cleanup is what it claimed. -/
theorem handing_spec (claimed : List String) :
    (if claimed = [] then DurablePhase.idle else .handing claimed).inFlight = claimed ∧
      (if claimed = [] then DurablePhase.idle else .handing claimed).batch = [] ∧
      ∀ db held fly,
        (if claimed = [] then DurablePhase.idle else .handing claimed).Tracked db held fly := by
  split
  · rename_i hempty
    exact ⟨hempty.symm, rfl, fun _ _ _ => trivial⟩
  · exact ⟨rfl, rfl, fun _ _ _ => trivial⟩

end Moves

section Steps

variable {start : EventDb} {base : Nat} {s : Pipeline}

theorem Delivering.processTransactions (h : Delivering start base s)
    (decoded : List (List String)) :
    Delivering start base (s.processTransactions decoded) := by
  unfold Pipeline.processTransactions
  split
  · exact h
  · cases hbatches : eventBatches decoded [] with
    | none => exact h
    | some batches =>
        refine { h with accounted := ?_, bounded := ?_ }
        · intro id hid
          unfold Pipeline.Accounted
          rw [List.flatten_append, List.append_assoc, List.mem_append]
          rcases List.mem_append.mp hid with hid | hid
          · refine (h.accounted id hid).imp_left fun hwait => ?_
            rcases List.mem_append.mp hwait with hqueue | hbatch
            · exact Or.inl hqueue
            · exact Or.inr (List.mem_append_right _ hbatch)
          · exact Or.inl (Or.inr (List.mem_append_left _ hid))
        · intro batch hbatch
          rcases List.mem_append.mp hbatch with hbatch | hbatch
          · exact h.bounded batch hbatch
          · exact eventBatches_bounded (Nat.zero_le _) hbatches batch hbatch

/-! ### The durable worker -/

theorem Delivering.assign (h : Delivering start base s) (now : Time) :
    Delivering start base (s.assign now) := by
  by_cases hready : ∃ first queue, s.durable = .idle ∧ s.durableQueue = first :: queue ∧
      ¬ ((collectStageBatch first queue).1 = [] ∨
        (collectStageBatch first queue).1.length > maxEventBatchSize)
  · obtain ⟨first, queue, hdurable, hqueue, hbatch⟩ := hready
    have hassigned := assignTokens_spec (firstOccurrences (collectStageBatch first queue).1)
      s.held s.next (fun id t hget => (h.fresh.2 id t hget).2)
    rw [assign_eq now hdurable hqueue hbatch]
    set assigned := assignTokens (firstOccurrences (collectStageBatch first queue).1) s.held s.next
    have hheld : ∀ id ∈ s.inFlight, assigned.1.get? id = s.held.get? id := by
      intro id hid
      obtain ⟨t, ht⟩ := (h.owned id hid).held_some
      rw [ht, hassigned.kept id t ht]
    have hflight : s.state.inFlight ++ s.stateQueue.flatten ++ [] = s.inFlight := by
      rw [Pipeline.inFlight, hdurable]
      rfl
    refine ⟨h.toFlight.moved rfl (fun _ hid => hid) hflight hheld, h.toJournal.moved rfl rfl rfl rfl,
      ⟨h.staged_of_held hheld, h.committed, ?_, ?_⟩, ?_, h.alive⟩
    · intro id hid
      obtain ⟨t, ht⟩ := hassigned.given id (mem_firstOccurrences.mpr hid)
      refine ⟨?_, Or.inl rfl⟩
      rw [ht]
      exact Option.some_ne_none t
    · have hle := hassigned.le
      refine ⟨h.fresh.1.trans hle, fun id t hget => ?_⟩
      rcases hassigned.origin id t hget with hold | ⟨-, -, hlow, hhigh⟩
      · have hfresh := h.fresh.2 id t hold
        exact ⟨hfresh.1, hfresh.2.trans_le hle⟩
      · exact ⟨h.fresh.1.trans hlow, hhigh⟩
    · refine h.toIntake.moved rfl (fun _ hid => hid) hflight (fun id hwait => ?_) fun batch hbatch => ?_
      · rw [hqueue, hdurable, List.flatten_cons, ← collectStageBatch_flatten first queue] at hwait
        simp only [DurablePhase.batch, List.append_nil, List.mem_append] at hwait ⊢
        exact hwait.symm
      · rw [hqueue]
        exact List.mem_cons_of_mem _ (collectStageBatch_queue first queue batch hbatch)
  · rw [assign_of_not hready]
    exact h

section Record

variable {events : List String} {claims : Dict String Nat} {now : Time}

/-- The events of the batch that the transaction claims. -/
def Pipeline.newClaims (s : Pipeline) (events : List String) (claims : Dict String Nat)
    (now : Time) : List String :=
  (firstOccurrences events).filter fun id =>
    s.db.verdict (durableCall now) s.held claims id = .claimed

theorem mem_newClaims {id : String} : id ∈ s.newClaims events claims now ↔
    id ∈ events ∧ s.db.verdict (durableCall now) s.held claims id = .claimed := by
  rw [Pipeline.newClaims, List.mem_filter, mem_firstOccurrences, decide_eq_true_eq]

/-- The rows of the other events stay. -/
theorem record_row (dialect : Dialect) (hdurable : s.durable = .assigned events claims now)
    {id : String} (hid : id ∉ s.newClaims events claims now) :
    (s.record dialect).db.dedup.get? id = s.db.dedup.get? id := by
  rw [record_eq hdurable]
  refine claimBatch_dedup_of_not_claimed (firstOccurrences_nodup events)
    fun hunique hverdict => hid ?_
  exact mem_newClaims.mpr ⟨mem_firstOccurrences.mp hunique, hverdict⟩

theorem record_settled (dialect : Dialect) (hdurable : s.durable = .assigned events claims now)
    {id : String} (hid : s.db.Settled id) : (s.record dialect).db.Settled id := by
  rw [record_eq hdurable]
  exact hid.claimBatch (firstOccurrences_nodup events)

/-- The claimed events join the flight. -/
theorem record_inFlight (dialect : Dialect) (hdurable : s.durable = .assigned events claims now) :
    (s.record dialect).inFlight = s.inFlight ++ s.newClaims events claims now := by
  have hbefore : s.inFlight = s.state.inFlight ++ s.stateQueue.flatten := by
    rw [Pipeline.inFlight, hdurable]
    exact List.append_nil _
  rw [record_eq hdurable, hbefore]
  rfl

theorem Delivering.record_flight (h : Delivering start base s) (dialect : Dialect)
    (hdurable : s.durable = .assigned events claims now)
    (hfree : ∀ id ∈ events, ¬ s.db.Owns s.held id) : Flight start (s.record dialect) := by
  have htracked := h.tracked
  rw [hdurable] at htracked
  -- what was in flight is not in the batch
  have hother : ∀ id ∈ s.inFlight, id ∉ s.newClaims events claims now :=
    fun id hid hclaim => hfree id (mem_newClaims.mp hclaim).1 (h.owned id hid)
  have hheld : (s.record dialect).held = s.held := by rw [record_eq hdurable]
  have hhandled : (s.record dialect).handled = s.handled := by rw [record_eq hdurable]
  refine ⟨?_, ?_, ?_⟩
  · rw [record_inFlight dialect hdurable]
    refine List.nodup_append.mpr ⟨h.handedOnce, (firstOccurrences_nodup events).filter _, ?_⟩
    rintro a ha b hb rfl
    exact hother a ha hb
  · intro id hid
    rw [record_inFlight dialect hdurable] at hid
    rcases List.mem_append.mp hid with hid | hid
    · exact (h.owned id hid).congr (record_row dialect hdurable (hother id hid)) (by rw [hheld])
    · obtain ⟨hevents, hverdict⟩ := mem_newClaims.mp hid
      obtain ⟨hclaim, htoken⟩ := htracked id hevents
      rw [record_eq hdurable]
      exact claimBatch_owns (firstOccurrences_nodup events) (mem_firstOccurrences.mpr hevents)
        (hfree id hevents) hverdict hclaim
        (htoken.resolve_right (not_settled_of_claimed hverdict))
  · intro id row hget
    rw [record_inFlight dialect hdurable, hhandled]
    by_cases hid : id ∈ s.newClaims events claims now
    · exact Or.inr (Or.inl (List.mem_append_right _ hid))
    · rw [record_row dialect hdurable hid] at hget
      rcases h.origin id row hget with hstart | hfly | hdone
      · exact Or.inl hstart
      · exact Or.inr (Or.inl (List.mem_append_left _ hfly))
      · exact Or.inr (Or.inr hdone)

theorem Delivering.record_journal (h : Delivering start base s) (dialect : Dialect)
    (hdurable : s.durable = .assigned events claims now) : Journal start (s.record dialect) := by
  have hsettled := fun id (hid : s.db.Settled id) => record_settled dialect hdurable hid
  rw [record_eq hdurable] at hsettled ⊢
  refine { h.toJournal with kept := ?_, settled := ?_, known := ?_ }
  · exact fun id hid => hsettled id (h.kept id hid)
  · exact fun id hid => (h.settled id hid).imp_right (hsettled id)
  · exact fun id hid => (h.known id hid).imp_right (hsettled id)

theorem Delivering.record_holdings (h : Delivering start base s) (dialect : Dialect)
    (hdurable : s.durable = .assigned events claims now)
    (hfree : ∀ id ∈ events, ¬ s.db.Owns s.held id) : Holdings base (s.record dialect) := by
  have hflight := record_inFlight dialect hdurable
  have hsettled := fun id (hid : s.db.Settled id) => record_settled dialect hdurable hid
  rw [record_eq hdurable] at hflight hsettled ⊢
  refine { h.toHoldings with committed := ?_, tracked := ?_ }
  · exact fun batch hstate id hid => hsettled id (h.committed batch hstate id hid)
  · intro id hevents hretained hmem
    rw [hflight] at hmem
    rcases List.mem_append.mp hmem with hfly | hclaim
    · exact hfree id hevents (h.owned id hfly)
    · refine hretained (List.mem_filter.mpr ⟨mem_firstOccurrences.mpr hevents, ?_⟩)
      rw [(mem_newClaims.mp hclaim).2]
      rfl

theorem Delivering.record_intake (h : Delivering start base s) (dialect : Dialect)
    (hdurable : s.durable = .assigned events claims now) : Intake start (s.record dialect) := by
  have hflight := record_inFlight dialect hdurable
  rw [record_eq hdurable] at hflight ⊢
  refine ⟨fun id hid => ?_, h.bounded⟩
  unfold Pipeline.Accounted
  rw [hflight]
  rcases h.accounted id hid with hwait | hfly | hrest
  · rw [hdurable, List.mem_append] at hwait
    rcases hwait with hqueue | hevents
    · exact Or.inl (List.mem_append_left _ hqueue)
    · by_cases hclaim : id ∈ s.newClaims events claims now
      · exact Or.inr (Or.inl (List.mem_append_right _ hclaim))
      · -- a refused event has a row, and the row says where the event is
        obtain ⟨row, hget, hfailed, -⟩ := claimRow_of_not_claimed
          fun hverdict => hclaim (mem_newClaims.mpr ⟨hevents, hverdict⟩)
        rcases h.origin id row hget with hstart | hfly | ⟨-, hdone⟩
        · exact Or.inr (Or.inr (Or.inr ⟨row, hstart, hfailed⟩))
        · exact Or.inr (Or.inl (List.mem_append_left _ hfly))
        · exact Or.inr (Or.inr (Or.inl hdone))
  · exact Or.inr (Or.inl (List.mem_append_left _ hfly))
  · exact Or.inr (Or.inr hrest)

theorem Delivering.record (h : Delivering start base s) (dialect : Dialect)
    (hfree : Step.record.Undisturbed s) : Delivering start base (s.record dialect) := by
  by_cases hready : ∃ events claims now, s.durable = .assigned events claims now
  · obtain ⟨events, claims, now, hdurable⟩ := hready
    have hbatch : ∀ id ∈ events, ¬ s.db.Owns s.held id := by
      intro id hid
      refine hfree id ?_
      rw [hdurable]
      exact hid
    refine ⟨h.record_flight dialect hdurable hbatch, h.record_journal dialect hdurable,
      h.record_holdings dialect hdurable hbatch, h.record_intake dialect hdurable, ?_⟩
    rw [record_eq hdurable]
    exact h.alive
  · rw [record_of_not dialect hready]
    exact h

end Record

theorem Delivering.clean (h : Delivering start base s) : Delivering start base s.clean := by
  by_cases hready : ∃ events claims retained claimed,
      s.durable = .recorded events claims retained claimed
  · obtain ⟨events, claims, retained, claimed, hdurable⟩ := hready
    have htracked := h.tracked
    rw [hdurable] at htracked
    have hkept : ∀ id ∈ s.inFlight, (dropTokens s.held claims (firstOccurrences events)
        fun id => decide (id ∈ retained)).get? id = s.held.get? id := by
      intro id hid
      refine dropTokens_get?_of_retained fun hunique => ?_
      by_contra hretained
      exact htracked id (mem_firstOccurrences.mp hunique)
        (fun hmem => hretained (decide_eq_true hmem)) hid
    rw [clean_eq hdurable]
    -- the worker hands over what it claimed, or is idle again when that is nothing
    obtain ⟨hfly, hbatch, htrack⟩ := handing_spec claimed
    generalize (if claimed = [] then DurablePhase.idle else .handing claimed) = phase
      at hfly hbatch htrack ⊢
    have hflight : s.state.inFlight ++ s.stateQueue.flatten ++ phase.inFlight = s.inFlight := by
      rw [Pipeline.inFlight, hdurable, hfly]
      rfl
    refine ⟨h.toFlight.moved rfl (fun _ hid => hid) hflight hkept, h.toJournal.moved rfl rfl rfl rfl,
      ⟨h.staged_of_held hkept, h.committed, htrack _ _ _, h.fresh.1, fun id t hget =>
        h.fresh.2 id t (dropTokens_get? hget)⟩,
      h.toIntake.moved rfl (fun _ hid => hid) hflight (fun id hwait => ?_) fun _ hqueue => hqueue, h.alive⟩
    rw [hdurable] at hwait
    rw [hbatch]
    exact hwait
  · rw [clean_of_not hready]
    exact h

theorem Delivering.enqueue (h : Delivering start base s) : Delivering start base s.enqueue := by
  by_cases hready : ∃ events, s.durable = .handing events
  · obtain ⟨events, hdurable⟩ := hready
    rw [enqueue_eq hdurable]
    have hflight : s.state.inFlight ++ (s.stateQueue ++ [events]).flatten ++ [] = s.inFlight := by
      simp [Pipeline.inFlight, hdurable, DurablePhase.inFlight]
    refine ⟨h.toFlight.moved rfl (fun _ hid => hid) hflight fun _ _ => rfl, h.toJournal.moved rfl rfl rfl rfl,
      { h.toHoldings with tracked := trivial },
      h.toIntake.moved rfl (fun _ hid => hid) hflight (fun id hwait => ?_) fun _ hqueue => hqueue, h.alive⟩
    rw [hdurable] at hwait
    exact hwait
  · rw [enqueue_of_not hready]
    exact h

/-! ### The state worker -/

theorem Delivering.collect (h : Delivering start base s) : Delivering start base s.collect := by
  by_cases hready : ∃ first queue, s.state = .idle ∧ s.stateQueue = first :: queue
  · obtain ⟨first, queue, hstate, hqueue⟩ := hready
    rw [collect_eq hstate hqueue]
    have hflight : [] ++ (collectStageBatch first queue).1 ++
        (collectStageBatch first queue).2.flatten ++ s.durable.inFlight = s.inFlight := by
      simp only [Pipeline.inFlight, hstate, hqueue, StatePhase.inFlight, List.nil_append,
        List.flatten_cons, collectStageBatch_flatten]
    refine ⟨h.toFlight.moved rfl (fun _ hid => hid) hflight fun _ _ => rfl,
      h.toJournal.moved rfl rfl rfl (by rw [hstate]; rfl), ⟨⟨?_, ?_⟩, ?_, ?_, h.fresh⟩,
      h.toIntake.moved rfl (fun _ hid => hid) hflight (fun _ hwait => hwait) fun _ hqueue => hqueue, h.alive⟩
    · rintro id t ⟨⟩
    · rintro id ⟨⟩
    · rintro events ⟨⟩
    · exact h.tracked.mono (fun _ hid => hid) (fun _ => Or.inl rfl) fun id hid => hflight ▸ hid
  · rw [collect_of_not hready]
    exact h

/-- The next event of the open batch is claimed and nothing has seen it. -/
theorem Delivering.head (h : Delivering start base s) {done todo : List String} {id : String}
    {staged : Dict String Nat} (hstate : s.state = .applying done (id :: todo) staged) :
    s.db.Owns s.held id ∧ id ∉ s.deduplicator.seen ∧ id ∉ s.handled.map Prod.fst ∧
      staged.get? id = none := by
  have hflight : s.inFlight =
      done ++ id :: (todo ++ s.stateQueue.flatten ++ s.durable.inFlight) := by
    simp [Pipeline.inFlight, hstate, StatePhase.inFlight]
  have hnodup := h.handedOnce
  rw [hflight, List.nodup_middle, List.nodup_cons, List.mem_append, not_or] at hnodup
  have howned : s.db.Owns s.held id := by
    refine h.owned id ?_
    rw [hflight]
    exact List.mem_append_right _ List.mem_cons_self
  have hdone : s.state.done = done := by rw [hstate]; rfl
  have hnew : ¬ (id ∈ s.state.done ∨ s.db.Settled id) := by
    rw [hdone, not_or]
    exact ⟨hnodup.1.1, howned.not_settled⟩
  refine ⟨howned, fun hseen => hnew (h.known id hseen),
    fun hhandled => hnew (h.settled id hhandled), ?_⟩
  have hstaged := h.staged
  rw [hstate] at hstaged
  cases hget : staged.get? id with
  | none => rfl
  | some t => exact absurd (hstaged.1 id t hget).1 hnodup.1.1

section Process

variable {done todo : List String} {id : String} {staged : Dict String Nat}

/-- So the event is applied and its claim staged. -/
theorem Delivering.processEvent_eq (h : Delivering start base s)
    (hstate : s.state = .applying done (id :: todo) staged) (keep : Bool) :
    ∃ t, s.held.get? id = some t ∧ s.processEvent keep =
      { s with
        deduplicator := (s.deduplicator.accept id).2
        handled := s.handled ++ [(id, keep)]
        state := .applying (done ++ [id]) todo (staged.set id t) } := by
  obtain ⟨howned, hseen, -, hget⟩ := h.head hstate
  obtain ⟨t, ht⟩ := howned.held_some
  refine ⟨t, ht, ?_⟩
  unfold Pipeline.processEvent
  rw [hstate]
  simp only [h.alive, Bool.false_eq_true, (accept_of_notMem hseen).1, Bool.true_eq_false, if_false,
    ht, hget, true_or, if_true]

theorem mem_handled_append {handled : List (String × Bool)} {keep : Bool} {other : String} :
    other ∈ (handled ++ [(id, keep)]).map Prod.fst ↔
      other ∈ handled.map Prod.fst ∨ other = id := by
  rw [List.map_append, List.mem_append, List.map_singleton, List.mem_singleton]

theorem mem_done_append {other : String} : other ∈ done ++ [id] ↔ other ∈ done ∨ other = id := by
  rw [List.mem_append, List.mem_singleton]

theorem Delivering.processEvent_journal (h : Delivering start base s)
    (hstate : s.state = .applying done (id :: todo) staged) (keep : Bool) :
    Journal start (s.processEvent keep) := by
  obtain ⟨howned, hseen, hhandled, -⟩ := h.head hstate
  obtain ⟨t, -, heq⟩ := h.processEvent_eq hstate keep
  have hsettled := h.settled
  have hknown := h.known
  have happlied := h.applied
  rw [hstate] at hsettled hknown happlied
  rw [heq]
  refine ⟨h.kept, ?_, ?_, ?_, ?_, ?_⟩
  · rw [List.map_append, List.nodup_append]
    refine ⟨h.appliedOnce, List.nodup_singleton _, ?_⟩
    rintro a ha b hb rfl
    rw [List.mem_singleton.mp hb] at ha
    exact hhandled ha
  · intro other hother
    rcases mem_handled_append.mp hother with hold | rfl
    · exact h.appliedNew other hold
    · exact fun hstart => howned.not_settled (h.kept other hstart)
  · intro other hother
    rcases mem_handled_append.mp hother with hold | rfl
    · exact (hsettled other hold).imp_left fun hmem => mem_done_append.mpr (Or.inl hmem)
    · exact Or.inl (mem_done_append.mpr (Or.inr rfl))
  · intro other hother
    rcases (accept_of_notMem hseen).2 other hother with hold | rfl
    · exact (hknown other hold).imp_left fun hmem => mem_done_append.mpr (Or.inl hmem)
    · exact Or.inl (mem_done_append.mpr (Or.inr rfl))
  · intro other hother
    exact mem_handled_append.mpr ((mem_done_append.mp hother).imp_left (happlied other))

theorem Delivering.processEvent_staged (h : Delivering start base s)
    (hstate : s.state = .applying done (id :: todo) staged) {t : Nat}
    (ht : s.held.get? id = some t) :
    StatePhase.Staged s.held (.applying (done ++ [id]) todo (staged.set id t)) := by
  have hstaged := h.staged
  rw [hstate] at hstaged
  refine ⟨fun other token hother => ?_, fun other hother => ?_⟩
  · rw [Dict.get?_set] at hother
    split at hother
    · rename_i heq
      cases hother
      exact ⟨mem_done_append.mpr (Or.inr heq.symm), heq ▸ ht⟩
    · obtain ⟨hmem, hheld⟩ := hstaged.1 other token hother
      exact ⟨mem_done_append.mpr (Or.inl hmem), hheld⟩
  · rw [Dict.get?_set]
    split
    · exact ⟨t, rfl⟩
    · rename_i hne
      exact hstaged.2 other ((mem_done_append.mp hother).resolve_right (Ne.symm hne))

theorem Delivering.processEvent (h : Delivering start base s) (keep : Bool) :
    Delivering start base (s.processEvent keep) := by
  by_cases hready : ∃ done id todo staged, s.state = .applying done (id :: todo) staged
  · obtain ⟨done, id, todo, staged, hstate⟩ := hready
    have hjournal := h.processEvent_journal hstate keep
    obtain ⟨t, ht, heq⟩ := h.processEvent_eq hstate keep
    rw [heq] at hjournal ⊢
    have hflight : done ++ [id] ++ todo ++ s.stateQueue.flatten ++ s.durable.inFlight =
        s.inFlight := by
      simp [Pipeline.inFlight, hstate, StatePhase.inFlight]
    have hlog : ∀ other, other ∈ s.handled.map Prod.fst →
        other ∈ (s.handled ++ [(id, keep)]).map Prod.fst :=
      fun other hother => mem_handled_append.mpr (Or.inl hother)
    refine ⟨h.toFlight.moved rfl hlog hflight fun _ _ => rfl, hjournal,
      ⟨h.processEvent_staged hstate ht, ?_, ?_, h.fresh⟩,
      h.toIntake.moved rfl hlog hflight (fun _ hwait => hwait) fun _ hqueue => hqueue, h.alive⟩
    · rintro events ⟨⟩
    · exact h.tracked.mono (fun _ hid => hid) (fun _ => Or.inl rfl) fun other hother =>
        hflight ▸ hother
  · rw [processEvent_of_not keep hready]
    exact h

end Process

section Commit

variable {done : List String} {staged : Dict String Nat}

/-- The staged claims of an open batch are still owned, and they are those of the batch. -/
theorem Delivering.stagedOwned (h : Delivering start base s) {todo : List String}
    (hstate : s.state = .applying done todo staged) :
    (∀ id, id ∈ staged.keys ↔ id ∈ done) ∧ ∀ id ∈ staged.keys, s.db.Owns staged id := by
  have hstaged := h.staged
  rw [hstate] at hstaged
  refine ⟨fun id => ?_, fun id hid => ?_⟩
  · rw [Dict.mem_keys]
    constructor
    · rintro ⟨t, ht⟩
      exact (hstaged.1 id t ht).1
    · exact hstaged.2 id
  · obtain ⟨t, ht⟩ := Dict.mem_keys.mp hid
    obtain ⟨hmem, hheld⟩ := hstaged.1 id t ht
    refine (h.owned id ?_).congr rfl (ht.trans hheld.symm)
    simp [Pipeline.inFlight, hstate, StatePhase.inFlight, hmem]

theorem Delivering.commit_eq (h : Delivering start base s)
    (hstate : s.state = .applying done [] staged) (at' : Time) :
    s.commit at' =
      { s with
        db := s.db.settleBatch .processed at' staged.keys
        state := .committed done } := by
  unfold Pipeline.commit
  rw [hstate]
  exact if_pos (h.stagedOwned hstate).2

/-- The rows of the batch are settled, all others stay. -/
theorem Delivering.commit_rows (h : Delivering start base s)
    (hstate : s.state = .applying done [] staged) (at' : Time) :
    (∀ id ∈ done, (s.commit at').db.Settled id) ∧
      (∀ id, s.db.Settled id → (s.commit at').db.Settled id) ∧
      ∀ id, id ∉ done → (s.commit at').db.dedup.get? id = s.db.dedup.get? id := by
  obtain ⟨hkeys, howns⟩ := h.stagedOwned hstate
  have hnodup : staged.keys.Nodup := staged.nodup
  rw [h.commit_eq hstate]
  refine ⟨fun id hid => ?_, fun id hid => hid.settleBatch hnodup, fun id hid => ?_⟩
  · exact settleBatch_settled hnodup ((hkeys id).mpr hid) (howns id ((hkeys id).mpr hid))
  · rw [settleBatch_dedup hnodup, if_neg (fun hmem => hid ((hkeys id).mp hmem))]

/-- The batch leaves the flight. -/
theorem Delivering.commit_inFlight (h : Delivering start base s)
    (hstate : s.state = .applying done [] staged) (at' : Time) :
    s.inFlight = done ++ (s.commit at').inFlight := by
  rw [h.commit_eq hstate]
  simp [Pipeline.inFlight, hstate, StatePhase.inFlight]

theorem Delivering.commit_flight (h : Delivering start base s)
    (hstate : s.state = .applying done [] staged) (at' : Time) : Flight start (s.commit at') := by
  obtain ⟨hnew, -, hrow⟩ := h.commit_rows hstate at'
  have hflight := h.commit_inFlight hstate at'
  have hnodup := h.handedOnce
  rw [hflight, List.nodup_append] at hnodup
  obtain ⟨-, hrest, hdisjoint⟩ := hnodup
  have hheld : (s.commit at').held = s.held := by rw [h.commit_eq hstate]
  have hhandled : (s.commit at').handled = s.handled := by rw [h.commit_eq hstate]
  have happlied := h.applied
  rw [hstate] at happlied
  refine ⟨hrest, fun id hid => ?_, fun id row hget => ?_⟩
  · have hout : id ∉ done := fun hmem => hdisjoint id hmem id hid rfl
    have hfly : id ∈ s.inFlight := by
      rw [hflight]
      exact List.mem_append_right _ hid
    exact (h.owned id hfly).congr (hrow id hout) (by rw [hheld])
  · rw [hhandled]
    by_cases hid : id ∈ done
    · obtain ⟨row', hget', hprocessed⟩ := hnew id hid
      have heq : row' = row := Option.some.inj (hget'.symm.trans hget)
      exact Or.inr (Or.inr ⟨heq ▸ hprocessed, happlied id hid⟩)
    · refine (h.origin id row ((hrow id hid).symm.trans hget)).imp_right (Or.imp_left fun hfly => ?_)
      rw [hflight] at hfly
      exact (List.mem_append.mp hfly).resolve_left hid

theorem Delivering.commit_journal (h : Delivering start base s)
    (hstate : s.state = .applying done [] staged) (at' : Time) : Journal start (s.commit at') := by
  obtain ⟨hnew, hold, -⟩ := h.commit_rows hstate at'
  have hsettled := h.settled
  have hknown := h.known
  rw [hstate] at hsettled hknown
  rw [h.commit_eq hstate] at hnew hold ⊢
  refine { h.toJournal with kept := ?_, settled := ?_, known := ?_, applied := ?_ }
  · exact fun id hid => hold id (h.kept id hid)
  · exact fun id hid => Or.inr ((hsettled id hid).elim (hnew id) (hold id))
  · exact fun id hid => Or.inr ((hknown id hid).elim (hnew id) (hold id))
  · rintro id ⟨⟩

theorem Delivering.commit (h : Delivering start base s) (at' : Time) :
    Delivering start base (s.commit at') := by
  by_cases hready : ∃ done staged, s.state = .applying done [] staged
  · obtain ⟨done, staged, hstate⟩ := hready
    have hflight := h.commit_inFlight hstate at'
    obtain ⟨hnew, hold, -⟩ := h.commit_rows hstate at'
    have happlied := h.applied
    rw [hstate] at happlied
    refine ⟨h.commit_flight hstate at', h.commit_journal hstate at', ?_, ?_, ?_⟩
    · rw [h.commit_eq hstate] at hnew hold hflight ⊢
      refine ⟨trivial, ?_, ?_, h.fresh⟩
      · rintro events ⟨⟩ id hid
        exact hnew id hid
      · refine h.tracked.mono hold (fun _ => Or.inl rfl) fun id hid => ?_
        rw [hflight]
        exact List.mem_append_right _ hid
    · rw [h.commit_eq hstate] at hflight ⊢
      refine ⟨fun id hid => (h.accounted id hid).imp_right ?_, h.bounded⟩
      rintro (hfly | hrest)
      · rw [hflight] at hfly
        rcases List.mem_append.mp hfly with hmem | hfly
        · exact Or.inr (Or.inl (happlied id hmem))
        · exact Or.inl hfly
      · exact Or.inr hrest
    · rw [h.commit_eq hstate]
      exact h.alive
  · rw [commit_of_not at' hready]
    exact h

end Commit

theorem Delivering.release (h : Delivering start base s) : Delivering start base s.release := by
  by_cases hready : ∃ events, s.state = .committed events
  · obtain ⟨events, hstate⟩ := hready
    have hcommitted := h.committed events hstate
    have hheld : ∀ id, id ∉ events → (events.foldl Dict.erase s.held).get? id = s.held.get? id := by
      intro id hid
      rw [Dict.get?_foldl_erase, if_neg hid]
    have hkept : ∀ id ∈ s.inFlight, (events.foldl Dict.erase s.held).get? id = s.held.get? id :=
      fun id hid => hheld id fun hmem => (h.owned id hid).not_settled (hcommitted id hmem)
    have hflight : [] ++ s.stateQueue.flatten ++ s.durable.inFlight = s.inFlight := by
      rw [Pipeline.inFlight, hstate]
      rfl
    rw [release_eq hstate]
    refine ⟨h.toFlight.moved rfl (fun _ hid => hid) hflight hkept,
      h.toJournal.moved rfl rfl rfl (by rw [hstate]; rfl), ⟨trivial, ?_, ?_, h.fresh.1, ?_⟩,
      h.toIntake.moved rfl (fun _ hid => hid) hflight (fun _ hwait => hwait) fun _ hqueue => hqueue, h.alive⟩
    · rintro events ⟨⟩
    · refine h.tracked.mono (fun _ hid => hid) (fun id => ?_) fun id hid => hflight ▸ hid
      by_cases hid : id ∈ events
      · exact Or.inr (hcommitted id hid)
      · exact Or.inl (hheld id hid)
    · intro id t hget
      dsimp only at hget
      rw [Dict.get?_foldl_erase] at hget
      split at hget
      · cases hget
      · exact h.fresh.2 id t hget
  · rw [release_of_not hready]
    exact h

theorem Delivering.abandon (h : Delivering start base s) (at' : Time) (inTime : Bool) :
    Delivering start base (s.abandon at' inTime) := by
  unfold Pipeline.abandon
  split
  · rename_i events hstate
    have hstaged := h.staged
    rw [hstate] at hstaged
    cases hstaged
  · exact h

theorem Delivering.apply (h : Delivering start base s) (dialect : Dialect) (step : Step)
    (hfree : step.Undisturbed s) : Delivering start base (s.apply dialect step) := by
  cases step with
  | processTransactions decoded => exact h.processTransactions decoded
  | assign now => exact h.assign now
  | record => exact h.record dialect hfree
  | clean => exact h.clean
  | enqueue => exact h.enqueue
  | collect => exact h.collect
  | processEvent keep => exact h.processEvent keep
  | commit at' => exact h.commit at'
  | release => exact h.release
  | abandon at' inTime => exact h.abandon at' inTime

end Steps

end SniperBot.Events
