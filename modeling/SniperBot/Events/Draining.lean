import SniperBot.Events.Delivery
import Mathlib.Data.List.Perm.Subperm
import Mathlib.Algebra.GroupWithZero.Nat

/-!
# Draining the pipeline

Without new batches the workers empty every queue: each phase has a next step, and the step lowers
`Pipeline.work`. Together with the invariant this gives the theorem about every run,
`run_delivers`: while no batch meets an outstanding claim, the pipeline stays healthy, applies
nothing twice, and can always be drained, with every ingested event applied.

`overlapping_delivery_poisons` is the run in which a batch does meet one.
-/

namespace SniperBot.Events

open Basis

/-! ## The call of the durable worker -/

theorem dropTokens_congr {held claims : Dict String Nat} {unique : List String}
    {retained retained' : String → Bool} (h : ∀ id ∈ unique, retained id = retained' id) :
    dropTokens held claims unique retained = dropTokens held claims unique retained' := by
  unfold dropTokens
  congr 1
  funext id token
  by_cases hid : id ∈ unique
  · rw [h id hid]
  · simp [hid]

/-- Without a step of the state worker in between, the three steps of the durable worker are one
committed `record_events` call. -/
theorem durable_steps_eq_recordEvents (dialect : Dialect) (w : World) (owner : Nat)
    {s : Pipeline} {events : List String} (now : Time) (hdb : s.db = w.db)
    (hheld : s.held = w.held owner) (hnext : s.next = w.next) (hidle : s.durable = .idle)
    (hqueue : s.durableQueue = [events])
    (hevents : events ≠ [] ∧ events.length ≤ maxEventBatchSize) :
    (((s.assign now).record dialect).clean).db =
        (w.recordEvents dialect owner events (durableCall now) .committed).db ∧
      (((s.assign now).record dialect).clean).held =
        (w.recordEvents dialect owner events (durableCall now) .committed).held owner ∧
      (((s.assign now).record dialect).clean).next =
        (w.recordEvents dialect owner events (durableCall now) .committed).next := by
  have hnot : ¬ (events = [] ∨ events.length > maxEventBatchSize) := by
    rw [not_or, not_lt]
    exact hevents
  have hassign := assign_eq now hidle hqueue hnot
  simp only [collectStageBatch] at hassign
  have hrecord : w.recordEvents dialect owner events (durableCall now) .committed = _ :=
    if_neg hnot
  rw [hassign, hrecord, ← hdb, hheld, hnext]
  refine ⟨rfl, ?_, rfl⟩
  dsimp only [Pipeline.record, Pipeline.clean]
  rw [Function.update_self]
  refine dropTokens_congr fun id hid => ?_
  simp [List.mem_filter, hid]

/-! ## Draining -/

/-- The worker steps that a phase still needs. -/
def DurablePhase.work : DurablePhase → Nat
  | .idle => 0
  | .assigned events _ _ => events.length + 7
  | .recorded _ _ _ claimed => claimed.length + 6
  | .handing events => events.length + 5

def StatePhase.work : StatePhase → Nat
  | .applying _ todo _ => todo.length + 3
  | .committed _ => 2
  | _ => 0

/-- The worker steps until nothing is left to do. -/
def Pipeline.work (s : Pipeline) : Nat :=
  (s.durableQueue.map fun batch => batch.length + 8).sum + s.durable.work +
    (s.stateQueue.map fun batch => batch.length + 4).sum + s.state.work

section Drain

variable {start : EventDb} {base : Nat} {s : Pipeline}

/-- With nothing in flight no claim is outstanding: the tokens of older rows are not ours. -/
theorem Delivering.undisturbed_of_empty (h : Delivering start base s)
    (hstart : ∀ id row t, start.dedup.get? id = some row → row.token = some t → t < base)
    (hempty : s.inFlight = []) (step : Step) : step.Undisturbed s := by
  cases step with
  | record =>
      rintro id - ⟨row, hrow, hprocessing, htoken, hheld⟩
      obtain ⟨t, ht⟩ := Option.ne_none_iff_exists'.mp htoken
      rw [ht] at hheld
      have hfresh := (h.fresh.2 id t hheld.symm).1
      rcases h.origin id row hrow with hold | hfly | ⟨hprocessed, -⟩
      · have hlt := hstart id row t hold ht
        omega
      · rw [hempty] at hfly
        cases hfly
      · rw [hprocessed] at hprocessing
        cases hprocessing
  | _ => trivial

/-- The state worker always has a next step, and it is never disturbed. -/
theorem Delivering.state_advances (h : Delivering start base s) (dialect : Dialect)
    (hbusy : s.state ≠ .idle ∨ s.stateQueue ≠ []) :
    ∃ step : Step, step.Undisturbed s ∧ (s.apply dialect step).ingested = s.ingested ∧
      (s.apply dialect step).work < s.work := by
  have hstaged := h.staged
  cases hstate : s.state with
  | idle =>
      cases hqueue : s.stateQueue with
      | nil => exact absurd hqueue (hbusy.resolve_left (fun hne => hne hstate))
      | cons first queue =>
          refine ⟨.collect, trivial, ?_, ?_⟩
          · rw [Pipeline.apply, collect_eq hstate hqueue]
          · have hweight := collectStageBatch_weight 4 first queue
            rw [Pipeline.apply, collect_eq hstate hqueue]
            simp only [Pipeline.work, hstate, hqueue, StatePhase.work, List.map_cons, List.sum_cons]
            omega
  | applying done todo staged =>
      cases todo with
      | nil =>
          refine ⟨.commit 0, trivial, ?_, ?_⟩
          · rw [Pipeline.apply, h.commit_eq hstate]
          · rw [Pipeline.apply, h.commit_eq hstate]
            simp [Pipeline.work, hstate, StatePhase.work]
      | cons id todo =>
          obtain ⟨t, -, heq⟩ := h.processEvent_eq hstate true
          refine ⟨.processEvent true, trivial, ?_, ?_⟩
          · rw [Pipeline.apply, heq]
          · rw [Pipeline.apply, heq]
            simp [Pipeline.work, hstate, StatePhase.work]
  | committed events =>
      refine ⟨.release, trivial, ?_, ?_⟩
      · rw [Pipeline.apply, release_eq hstate]
      · rw [Pipeline.apply, release_eq hstate]
        simp [Pipeline.work, hstate, StatePhase.work]
  | failing events =>
      rw [hstate] at hstaged
      cases hstaged
  | stopped =>
      rw [hstate] at hstaged
      cases hstaged

theorem firstOccurrences_length_le (ids : List String) :
    (firstOccurrences ids).length ≤ ids.length :=
  (List.Nodup.subperm (firstOccurrences_nodup ids) fun _ hid =>
    mem_firstOccurrences.mp hid).length_le

/-- So has the durable worker, when the state worker is done. -/
theorem Delivering.durable_advances (h : Delivering start base s)
    (hstart : ∀ id row t, start.dedup.get? id = some row → row.token = some t → t < base)
    (dialect : Dialect) (hstate : s.state = .idle) (hqueue : s.stateQueue = [])
    (hbusy : s.durable ≠ .idle ∨ s.durableQueue ≠ []) :
    ∃ step : Step, step.Undisturbed s ∧ (s.apply dialect step).ingested = s.ingested ∧
      (s.apply dialect step).work < s.work := by
  cases hdurable : s.durable with
  | idle =>
      cases hwait : s.durableQueue with
      | nil => exact absurd hwait (hbusy.resolve_left (fun hne => hne hdurable))
      | cons first queue =>
          obtain ⟨hne, hlength⟩ := h.bounded first (by rw [hwait]; exact List.mem_cons_self)
          have hnot : ¬ ((collectStageBatch first queue).1 = [] ∨
              (collectStageBatch first queue).1.length > maxEventBatchSize) := by
            rw [not_or, not_lt]
            exact ⟨collectStageBatch_ne_nil hne queue, collectStageBatch_length hlength queue⟩
          refine ⟨.assign 0, trivial, ?_, ?_⟩
          · rw [Pipeline.apply, assign_eq 0 hdurable hwait hnot]
          · have hweight := collectStageBatch_weight 8 first queue
            rw [Pipeline.apply, assign_eq 0 hdurable hwait hnot]
            simp only [Pipeline.work, hdurable, hwait, DurablePhase.work, List.map_cons,
              List.sum_cons]
            omega
  | assigned events claims now =>
      have hempty : s.inFlight = [] := by
        simp [Pipeline.inFlight, hstate, hqueue, hdurable, StatePhase.inFlight,
          DurablePhase.inFlight]
      have hle : (s.newClaims events claims now).length ≤ events.length :=
        (List.length_filter_le _ _).trans (firstOccurrences_length_le events)
      refine ⟨.record, h.undisturbed_of_empty hstart hempty .record, ?_, ?_⟩
      · rw [Pipeline.apply, record_eq hdurable]
      · rw [Pipeline.newClaims] at hle
        rw [Pipeline.apply, record_eq hdurable]
        simp only [Pipeline.work, hdurable, DurablePhase.work]
        omega
  | recorded events claims retained claimed =>
      refine ⟨.clean, trivial, ?_, ?_⟩
      · rw [Pipeline.apply, clean_eq hdurable]
      · rw [Pipeline.apply, clean_eq hdurable]
        simp only [Pipeline.work, hdurable]
        split <;> simp only [DurablePhase.work] <;> omega
  | handing events =>
      refine ⟨.enqueue, trivial, ?_, ?_⟩
      · rw [Pipeline.apply, enqueue_eq hdurable]
      · rw [Pipeline.apply, enqueue_eq hdurable]
        simp only [Pipeline.work, hdurable, DurablePhase.work, List.map_append, List.map_singleton,
          List.sum_append, List.sum_singleton]
        omega

/-- Without new batches the workers empty every queue, and no duplicate disturbs them on the
way when the state worker goes first. -/
theorem Delivering.drains (h : Delivering start base s)
    (hstart : ∀ id row t, start.dedup.get? id = some row → row.token = some t → t < base)
    (dialect : Dialect) :
    ∃ more : List Step,
      Along (fun s step => Step.Undisturbed s step) (Pipeline.apply dialect) s more ∧
      (exec (Pipeline.apply dialect) s more).ingested = s.ingested ∧
      (exec (Pipeline.apply dialect) s more).Drained := by
  induction hwork : s.work using Nat.strong_induction_on generalizing s with
  | _ work ih =>
      by_cases hdrained : s.Drained
      · exact ⟨[], trivial, rfl, hdrained⟩
      · have hstep : ∃ step : Step, step.Undisturbed s ∧
            (s.apply dialect step).ingested = s.ingested ∧
            (s.apply dialect step).work < s.work := by
          by_cases hbusy : s.state ≠ .idle ∨ s.stateQueue ≠ []
          · exact h.state_advances dialect hbusy
          · obtain ⟨hstate, hqueue⟩ := not_or.mp hbusy
            rw [not_not] at hstate hqueue
            refine h.durable_advances hstart dialect hstate hqueue ?_
            by_contra hidle
            obtain ⟨hdurable, hwait⟩ := not_or.mp hidle
            rw [not_not] at hdurable hwait
            exact hdrained ⟨hwait, hdurable, hqueue, hstate⟩
        obtain ⟨step, hfree, hsame, hless⟩ := hstep
        obtain ⟨more, halong, hmore, hend⟩ :=
          ih _ (hwork ▸ hless) (h.apply dialect step hfree) rfl
        exact ⟨step :: more, ⟨hfree, halong⟩, hmore.trans hsame, hend⟩

end Drain

/-! ## Every run -/

/-- Every ingested event reaches the state once, and the pipeline stays healthy. -/
structure Delivered (dialect : Dialect) (start : EventDb) (s : Pipeline) : Prop where
  alive : s.poisoned = false
  handedOnce : s.inFlight.Nodup
  outstanding : ∀ id ∈ s.inFlight, s.db.Owns s.held id
  appliedOnce : (s.handled.map Prod.fst).Nodup
  appliedNew : ∀ id ∈ s.handled.map Prod.fst, ¬ start.Settled id
  complete : s.Drained → ∀ id ∈ s.ingested, (s.handled.map Prod.fst).count id = 1 ∨
    ∃ row, start.dedup.get? id = some row ∧ row.status ≠ .failed
  drains : ∃ more : List Step,
    Along (fun s step => Step.Undisturbed s step) (Pipeline.apply dialect) s more ∧
    (exec (Pipeline.apply dialect) s more).ingested = s.ingested ∧
    (exec (Pipeline.apply dialect) s more).Drained

theorem Delivering.complete {start : EventDb} {base : Nat} {s : Pipeline}
    (h : Delivering start base s) (hdrained : s.Drained) {id : String} (hid : id ∈ s.ingested) :
    id ∈ s.handled.map Prod.fst ∨ ∃ row, start.dedup.get? id = some row ∧ row.status ≠ .failed := by
  obtain ⟨hwait, hdurable, hqueue, hstate⟩ := hdrained
  have hflight : s.inFlight = [] := by
    simp [Pipeline.inFlight, hstate, hqueue, hdurable, StatePhase.inFlight, DurablePhase.inFlight]
  rcases h.accounted id hid with hmem | hmem | hrest
  · rw [hwait, hdurable] at hmem
    cases hmem
  · rw [hflight] at hmem
    cases hmem
  · exact hrest

theorem run_delivers (dialect : Dialect) (db : EventDb) (next : Nat)
    (deduplicator : Deduplicator) (steps : List Step)
    (hfresh : ∀ id row t, db.dedup.get? id = some row → row.token = some t → t < next)
    (hseen : ∀ id ∈ deduplicator.seen, db.Settled id)
    (hsteps : Along (fun s step => Step.Undisturbed s step) (Pipeline.apply dialect)
      (Pipeline.started db next deduplicator) steps) :
    Delivered dialect db
      (exec (Pipeline.apply dialect) (Pipeline.started db next deduplicator) steps) := by
  have h : Delivering db next
      (exec (Pipeline.apply dialect) (Pipeline.started db next deduplicator) steps) :=
    Along.invariant (fun s step hs hfree => hs.apply dialect step hfree)
      (Delivering.started hseen) hsteps
  refine ⟨h.alive, h.handedOnce, h.owned, h.appliedOnce, h.appliedNew, ?_,
    h.drains hfresh dialect⟩
  intro hdrained id hid
  rcases h.complete hdrained hid with hmem | hrow
  · exact Or.inl (List.count_eq_one_of_mem h.appliedOnce hmem)
  · exact Or.inr hrow

/-- One delivery of two events, and a second delivery of one of them between commit and
release. -/
def redeliveredRun : List Step :=
  [.processTransactions [["create"], ["swap"]], .assign 0, .record, .clean, .enqueue, .collect,
    .processEvent true, .processEvent false, .commit 5, .processTransactions [["create"]],
    .assign 6, .release, .record, .clean]

theorem run_delivers_redelivered : Delivered .postgresql {}
    (exec (Pipeline.apply .postgresql) (Pipeline.started {} 0 {}) redeliveredRun) := by
  refine run_delivers .postgresql {} 0 {} redeliveredRun ?_ ?_ (by decide +kernel)
  · rintro id row t ⟨⟩
  · rintro id ⟨⟩

/-- The same event in two batches, the second recorded before the first is committed. -/
def overlappingRun : List Step :=
  [.processTransactions [["create"]], .assign 0, .record, .clean, .enqueue,
    .processTransactions [["create"]], .assign 1, .record, .clean, .enqueue]

/-- The event is handed over twice, and applying the batch poisons the pipeline. -/
theorem overlapping_delivery_poisons :
    (exec (Pipeline.apply .postgresql) (Pipeline.started {} 0 {}) overlappingRun).inFlight =
      ["create", "create"] ∧
    (exec (Pipeline.apply .postgresql) (Pipeline.started {} 0 {})
      (overlappingRun ++ [.collect, .processEvent true, .processEvent true])).poisoned = true := by
  decide +kernel

end SniperBot.Events
