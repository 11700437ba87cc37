import SniperBot.Basis.Run
import SniperBot.Runtime.Poisoning

/-!
# The baseline of a connection

After a (re)connect the stream warms up: `_begin_live_baseline` blocks the entries, for 60 seconds
`_queue_transaction` marks what it queues as `BASELINE_WSS`, which is not traded, and
`refresh_freshness` unblocks `stream_baseline` after that time (`stream.py`). The 60 seconds count
from the first live transaction that is dispatched.

A notification that is left in the ingress queue when a connection ends is dispatched during the
next one, and then it is the first. It came in before the connection began, so the warm-up is cut
short by that time, or skipped. Without such notifications a transaction is traded only if another
one of its connection came in 60 seconds before (`warmUp_kept`).

Times are in microseconds. `received`, `begun` and `refreshedAt` are not in the source: they record
what came in, the first transaction of the baseline, and the last refresh.
-/

namespace SniperBot.Stream

open Basis Features SniperBot.Runtime

/-- `LIVE_BASELINE_WARMUP` -/
def liveBaselineWarmup : ℤ := 60 * 1000000

/-- A notification in the ingress queue, with the programs that its transaction names. -/
structure Notified where
  receivedAt : ℤ
  generation : ℕ
  /-- A `_LogNotification`, which needs a task of its own. -/
  isLog : Bool
  protocols : List Protocol
  deriving DecidableEq, Repr

/-- An entry of the processing queue. -/
structure QueuedTransaction where
  item : Notified
  protocol : Protocol
  source : EventSource
  deriving DecidableEq, Repr

structure BaselineStream where
  gate : EntryGate := {}
  connected : Bool := false
  generation : ℕ := 0
  /-- `_baseline_started_at` -/
  startedAt : Option ℤ := none
  lastObservedAt : Option ℤ := none
  lastProcessedBlockTime : Option ℤ := none
  lastProcessingLag : Option ℤ := none
  reconnectRequested : Bool := false
  dispatchRecoveryPending : Bool := false
  /-- Whether `_fetch_error_sequences` has an entry. -/
  fetchErrors : Bool := false
  notificationQueue : List Notified := []
  logTasks : List Notified := []
  queue : List QueuedTransaction := []
  received : List Notified := []
  begun : Option Notified := none
  refreshedAt : Option ℤ := none

namespace BaselineStream

variable (s : BaselineStream)

/-- `_begin_live_baseline` -/
def beginLiveBaseline : BaselineStream :=
  { s with
    generation := s.generation + 1
    startedAt := none
    begun := none
    gate := (s.gate.block .streamBaseline).block .streamStale }

/-- `_discard_in_memory_checkpoint` -/
def discardInMemoryCheckpoint : BaselineStream :=
  { s with
    lastObservedAt := none
    lastProcessedBlockTime := none
    lastProcessingLag := none }.beginLiveBaseline

def connect : BaselineStream :=
  if s.connected then s
  else { s with connected := true, reconnectRequested := false }.beginLiveBaseline

/-- The latest of the times. -/
def latest (known : Option ℤ) (time : ℤ) : Option ℤ :=
  match known with
  | none => some time
  | some known => some (max known time)

/-- `handle_message`, for a notification that is queued. -/
def receive (now : ℤ) (isLog : Bool) (protocols : List Protocol) : BaselineStream :=
  if s.connected ∧ s.reconnectRequested = false then
    let item : Notified := ⟨now, s.generation, isLog, protocols⟩
    { s with
      lastObservedAt := latest s.lastObservedAt now
      notificationQueue := s.notificationQueue ++ [item]
      received := s.received ++ [item] }
  else s

/-- `_queue_transaction`, for a notification. -/
def queueTransaction (item : Notified) (source : EventSource) : BaselineStream :=
  let s := { s with lastObservedAt := latest s.lastObservedAt item.receivedAt }
  let startedAt := s.startedAt.getD item.receivedAt
  let queuedSource :=
    if item.receivedAt - startedAt < liveBaselineWarmup ∨ item.generation ≠ s.generation then
      .baselineWss
    else source
  { s with
    startedAt := some startedAt
    begun := some (s.begun.getD item)
    queue := s.queue ++ item.protocols.map fun protocol => ⟨item, protocol, queuedSource⟩ }

/-- The dispatcher takes the next notification. -/
def dispatch : BaselineStream :=
  match s.notificationQueue with
  | [] => s
  | item :: rest =>
      let s := { s with notificationQueue := rest }
      if item.isLog then { s with logTasks := s.logTasks ++ [item] }
      else s.queueTransaction item .heliusWss

/-- The first of the log tasks is done, or raises. -/
def runLogTask (ok : Bool) : BaselineStream :=
  match s.logTasks with
  | [] => s
  | item :: rest =>
      let s := { s with logTasks := rest }
      if ok then s.queueTransaction item .solanaWss
      else
        { s with
          fetchErrors := true
          dispatchRecoveryPending := true
          reconnectRequested := true
          gate := s.gate.block .streamFetchError }

/-- The connection ends, with `_cancel_log_fetch_tasks`. -/
def close : BaselineStream :=
  if s.connected then
    let s' := { s with connected := false, logTasks := [], fetchErrors := false }
    if s.logTasks ≠ [] ∨ s.notificationQueue ≠ [] then
      { s' with dispatchRecoveryPending := true, gate := s.gate.block .streamRecoveryGap }
    else s'
  else s

/-- A batch has been processed, with the latest block time in it. -/
def processed (now blockTime : ℤ) : BaselineStream :=
  { s with
    lastProcessedBlockTime := latest s.lastProcessedBlockTime blockTime
    lastProcessingLag := some (max 0 (now - blockTime)) }

/-- Whether the stream is stale. -/
def stale (maxProcessingLag now : ℤ) : Bool :=
  let transportStale := match s.lastObservedAt with
    | none => true
    | some observedAt => decide (maxProcessingLag < now - observedAt)
  let processingLag := match s.lastProcessedBlockTime with
    | none => s.lastProcessingLag
    | some blockTime => some (max (s.lastProcessingLag.getD 0) (max 0 (now - blockTime)))
  let processingStale := match processingLag with
    | none => true
    | some lag => decide (maxProcessingLag < lag)
  transportStale || processingStale

/-- Whether the baseline is complete. -/
def baselineReady (now : ℤ) : Bool :=
  match s.startedAt with
  | none => false
  | some startedAt => decide (liveBaselineWarmup ≤ now - startedAt)

/-- `refresh_freshness` -/
def refreshFreshness (maxProcessingLag now : ℤ) : BaselineStream :=
  let stale := s.stale maxProcessingLag now
  let s := { s with
    refreshedAt := some now
    gate := if stale then s.gate.block .streamStale else s.gate.unblock .streamStale }
  if s.baselineReady now then
    let s := { s with gate := s.gate.unblock .streamBaseline }
    if s.dispatchRecoveryPending ∧ ¬stale ∧ ¬s.reconnectRequested ∧ ¬s.fetchErrors then
      { s with dispatchRecoveryPending := false, gate := s.gate.unblock .streamFetchError }
    else s
  else { s with gate := s.gate.block .streamBaseline }

end BaselineStream

inductive BaselineStep
  | connect
  | discard
  | receive (now : ℤ) (isLog : Bool) (protocols : List Protocol)
  | dispatch
  | runLogTask (ok : Bool)
  | close
  | processed (now blockTime : ℤ)
  | refresh (now : ℤ)
  /-- Other tasks block and unblock. -/
  | block (reason : Reason)
  | unblock (reason : Reason)

/-- `maxProcessingLag` is `max_processing_lag_seconds`. -/
def BaselineStream.step (maxProcessingLag : ℤ) (s : BaselineStream) : BaselineStep → BaselineStream
  | .connect => s.connect
  | .discard => if s.connected then s.discardInMemoryCheckpoint else s
  | .receive now isLog protocols => s.receive now isLog protocols
  | .dispatch => s.dispatch
  | .runLogTask ok => s.runLogTask ok
  | .close => s.close
  | .processed now blockTime => s.processed now blockTime
  | .refresh now => s.refreshFreshness maxProcessingLag now
  | .block reason => { s with gate := s.gate.block reason }
  | .unblock reason =>
      -- only `refresh_freshness` unblocks the first two, and a connection the last one
      if reason = .streamBaseline ∨ reason = .streamStale ∨ reason = .startup ∧ ¬s.connected then s
      else { s with gate := s.gate.unblock reason }

/-- The transaction that starts a baseline came in on its connection. -/
def BaselineStep.Fresh (s : BaselineStream) : BaselineStep → Prop
  | .dispatch => s.startedAt = none → ∀ item ∈ s.notificationQueue.head?,
      item.generation = s.generation
  | .runLogTask _ => s.startedAt = none → ∀ item ∈ s.logTasks.head?, item.generation = s.generation
  | _ => True

instance (s : BaselineStream) : (a : BaselineStep) → Decidable (a.Fresh s)
  | .dispatch => inferInstanceAs (Decidable (_ → ∀ _ ∈ _, _))
  | .runLogTask _ => inferInstanceAs (Decidable (_ → ∀ _ ∈ _, _))
  | .connect | .discard | .receive _ _ _ | .close | .processed _ _ | .refresh _ | .block _
  | .unblock _ => isTrue trivial

/-! ## What a warm-up has seen -/

/-- A notification of this generation came in 60 seconds before. -/
def BaselineStream.WarmAt (s : BaselineStream) (generation : ℕ) (time : ℤ) : Prop :=
  ∃ first ∈ s.received, first.generation = generation ∧
    first.receivedAt + liveBaselineWarmup ≤ time

/-- The source is not one of the baseline. -/
def QueuedTransaction.traded (entry : QueuedTransaction) : Prop :=
  entry.source = .heliusWss ∨ entry.source = .solanaWss

namespace BaselineStream

variable {maxProcessingLag : ℤ} {s : BaselineStream}

/-- Whatever is dispatched came in, and the baseline began with its first transaction. -/
structure Warming (s : BaselineStream) : Prop where
  notified : ∀ item ∈ s.notificationQueue, item ∈ s.received
  tasks : ∀ item ∈ s.logTasks, item ∈ s.received
  started : s.startedAt = s.begun.map Notified.receivedAt
  begun : ∀ item ∈ s.begun, item ∈ s.received ∧ item.generation = s.generation
  queue : ∀ entry ∈ s.queue, entry.traded → s.WarmAt entry.item.generation entry.item.receivedAt

/-- The gate was opened by a refresh of this baseline. -/
structure Gated (s : BaselineStream) : Prop where
  unborn : s.generation = 0 → .startup ∈ s.gate.reasons ∧ s.connected = false
  opened : 0 < s.generation → .streamBaseline ∉ s.gate.reasons →
    ∃ now ∈ s.refreshedAt, s.baselineReady now = true

theorem WarmAt.mono {s' : BaselineStream} {generation : ℕ} {time : ℤ}
    (h : s.WarmAt generation time) (hreceived : ∀ item ∈ s.received, item ∈ s'.received) :
    s'.WarmAt generation time :=
  h.imp fun first hfirst => ⟨hreceived first hfirst.1, hfirst.2⟩

/-- The lists, the generation and the baseline are as they were. -/
theorem Warming.same {s' : BaselineStream} (h : s.Warming)
    (hnotified : ∀ item ∈ s'.notificationQueue, item ∈ s.notificationQueue)
    (htasks : ∀ item ∈ s'.logTasks, item ∈ s.logTasks) (hgeneration : s'.generation = s.generation)
    (hstarted : s'.startedAt = s.startedAt) (hbegun : s'.begun = s.begun)
    (hqueue : s'.queue = s.queue) (hreceived : s'.received = s.received) : s'.Warming where
  notified item hitem := hreceived ▸ h.notified item (hnotified item hitem)
  tasks item hitem := hreceived ▸ h.tasks item (htasks item hitem)
  started := by rw [hstarted, hbegun, h.started]
  begun := by
    rw [hbegun, hgeneration, hreceived]
    exact h.begun
  queue entry hentry htraded := by
    rw [hqueue] at hentry
    exact (h.queue entry hentry htraded).mono fun item hitem => hreceived ▸ hitem

theorem Warming.beginLiveBaseline (h : s.Warming) : s.beginLiveBaseline.Warming where
  notified := h.notified
  tasks := h.tasks
  started := rfl
  begun item hitem := by cases hitem
  queue := h.queue

theorem Warming.receive (h : s.Warming) (now : ℤ) (isLog : Bool) (protocols : List Protocol) :
    (s.receive now isLog protocols).Warming := by
  unfold BaselineStream.receive
  split
  · constructor
    · intro item hitem
      rcases List.mem_append.mp hitem with hitem | hitem
      · exact List.mem_append_left _ (h.notified item hitem)
      · exact List.mem_append_right _ hitem
    · exact fun item hitem => List.mem_append_left _ (h.tasks item hitem)
    · exact h.started
    · exact fun item hitem => ⟨List.mem_append_left _ (h.begun item hitem).1, (h.begun item hitem).2⟩
    · exact fun entry hentry htraded =>
        (h.queue entry hentry htraded).mono fun item hitem => List.mem_append_left _ hitem
  · exact h

/-- What is traded came in 60 seconds after the first transaction of the baseline. -/
theorem Warming.queueTransaction (h : s.Warming) {item : Notified} {source : EventSource}
    (hitem : item ∈ s.received) (hfirst : s.startedAt = none → item.generation = s.generation) :
    (s.queueTransaction item source).Warming := by
  have hbegun : ∀ first ∈ some (s.begun.getD item), first ∈ s.received ∧
      first.generation = s.generation := by
    intro first hmem
    cases hmem
    cases hnone : s.begun with
    | none => exact ⟨hitem, hfirst (by rw [h.started, hnone]; rfl)⟩
    | some first => exact h.begun first (by rw [hnone]; rfl)
  have hstarted : s.startedAt.getD item.receivedAt = (s.begun.getD item).receivedAt := by
    rw [h.started]
    cases s.begun <;> rfl
  refine ⟨h.notified, h.tasks, ?_, hbegun, fun entry hentry htraded => ?_⟩
  · simp only [BaselineStream.queueTransaction, hstarted, Option.map_some]
  · rcases List.mem_append.mp hentry with hentry | hentry
    · exact h.queue entry hentry htraded
    · obtain ⟨protocol, -, rfl⟩ := List.mem_map.mp hentry
      simp only [QueuedTransaction.traded] at htraded
      split at htraded
      · rcases htraded with hsource | hsource <;> cases hsource
      · next hwarm =>
          obtain ⟨hlate, hgeneration⟩ := not_or.mp hwarm
          rw [hstarted] at hlate
          obtain ⟨hreceived, hcurrent⟩ := hbegun _ rfl
          have htime : (s.begun.getD item).receivedAt + liveBaselineWarmup ≤ item.receivedAt := by
            omega
          exact ⟨s.begun.getD item, hreceived, hcurrent.trans (not_not.mp hgeneration).symm, htime⟩

theorem Warming.dispatch (h : s.Warming) (hfresh : BaselineStep.Fresh s .dispatch) :
    s.dispatch.Warming := by
  unfold BaselineStream.dispatch
  split
  · exact h
  · next item rest hqueue =>
      have hrest : ∀ other ∈ rest, other ∈ s.notificationQueue := fun other hother => by
        rw [hqueue]
        exact List.mem_cons_of_mem _ hother
      have hitem : item ∈ s.notificationQueue := by
        rw [hqueue]
        exact List.mem_cons_self
      have hpopped : ({ s with notificationQueue := rest } : BaselineStream).Warming :=
        h.same hrest (fun _ htask => htask) rfl rfl rfl rfl rfl
      simp only []
      split
      · refine ⟨hpopped.notified, fun other hother => ?_, hpopped.started, hpopped.begun,
          hpopped.queue⟩
        rcases List.mem_append.mp hother with hother | hother
        · exact h.tasks other hother
        · rw [List.mem_singleton.mp hother]
          exact h.notified item hitem
      · exact hpopped.queueTransaction (h.notified item hitem) fun hnone =>
          hfresh hnone item (by rw [hqueue]; rfl)

theorem Warming.runLogTask (h : s.Warming) (ok : Bool)
    (hfresh : BaselineStep.Fresh s (.runLogTask ok)) : (s.runLogTask ok).Warming := by
  unfold BaselineStream.runLogTask
  split
  · exact h
  · next item rest htasks =>
      have hrest : ∀ other ∈ rest, other ∈ s.logTasks := fun other hother => by
        rw [htasks]
        exact List.mem_cons_of_mem _ hother
      have hitem : item ∈ s.logTasks := by
        rw [htasks]
        exact List.mem_cons_self
      have hpopped : ({ s with logTasks := rest } : BaselineStream).Warming :=
        h.same (fun _ hnotified => hnotified) hrest rfl rfl rfl rfl rfl
      simp only []
      split
      · exact hpopped.queueTransaction (h.tasks item hitem) fun hnone =>
          hfresh hnone item (by rw [htasks]; rfl)
      · exact hpopped.same (fun _ hnotified => hnotified) (fun _ htask => htask) rfl rfl rfl rfl rfl

theorem refreshFreshness_warming (h : s.Warming) (now : ℤ) :
    (s.refreshFreshness maxProcessingLag now).Warming := by
  unfold refreshFreshness
  simp only []
  split_ifs <;>
    exact h.same (fun _ hnotified => hnotified) (fun _ htask => htask) rfl rfl rfl rfl rfl

theorem Warming.step (h : s.Warming) (a : BaselineStep) (hfresh : a.Fresh s) :
    (s.step maxProcessingLag a).Warming := by
  cases a with
  | connect =>
      rw [BaselineStream.step, BaselineStream.connect]
      split
      · exact h
      · exact Warming.beginLiveBaseline (s := { s with connected := true, reconnectRequested := false })
          (h.same (fun _ hnotified => hnotified) (fun _ htask => htask) rfl rfl rfl rfl rfl)
  | discard =>
      rw [BaselineStream.step]
      split
      · unfold discardInMemoryCheckpoint
        exact Warming.beginLiveBaseline
          (h.same (fun _ hnotified => hnotified) (fun _ htask => htask) rfl rfl rfl rfl rfl)
      · exact h
  | receive now isLog protocols => exact h.receive now isLog protocols
  | dispatch => exact h.dispatch hfresh
  | runLogTask ok => exact h.runLogTask ok hfresh
  | close =>
      rw [BaselineStream.step, BaselineStream.close]
      simp only []
      split_ifs
      · exact h.same (fun _ hnotified => hnotified) (List.forall_mem_nil _) rfl rfl rfl rfl rfl
      · exact h.same (fun _ hnotified => hnotified) (List.forall_mem_nil _) rfl rfl rfl rfl rfl
      · exact h
  | processed now blockTime =>
      exact h.same (fun _ hnotified => hnotified) (fun _ htask => htask) rfl rfl rfl rfl rfl
  | refresh now => exact refreshFreshness_warming h now
  | block reason =>
      exact h.same (fun _ hnotified => hnotified) (fun _ htask => htask) rfl rfl rfl rfl rfl
  | unblock reason =>
      rw [BaselineStream.step]
      split
      · exact h
      · exact h.same (fun _ hnotified => hnotified) (fun _ htask => htask) rfl rfl rfl rfl rfl

theorem Gated.same {s' : BaselineStream} (h : s.Gated) (hgeneration : s'.generation = s.generation)
    (hstarted : s'.startedAt = s.startedAt) (hrefreshed : s'.refreshedAt = s.refreshedAt)
    (hconnected : s.connected = false → s'.connected = false)
    (hstartup : s.connected = false → .startup ∈ s.gate.reasons → .startup ∈ s'.gate.reasons)
    (hbaseline : .streamBaseline ∈ s.gate.reasons → .streamBaseline ∈ s'.gate.reasons) :
    s'.Gated where
  unborn hunborn := by
    obtain ⟨hreason, hoff⟩ := h.unborn (hgeneration ▸ hunborn)
    exact ⟨hstartup hoff hreason, hconnected hoff⟩
  opened hborn hopen := by
    obtain ⟨now, hnow, hready⟩ := h.opened (hgeneration ▸ hborn) fun hold => hopen (hbaseline hold)
    refine ⟨now, hrefreshed ▸ hnow, ?_⟩
    simpa only [BaselineStream.baselineReady, hstarted] using hready

/-- The gate is as it was but for other reasons. -/
theorem Gated.blocked (h : s.Gated) (reason : Reason) :
    Gated { s with gate := s.gate.block reason } :=
  h.same rfl rfl rfl (fun hoff => hoff) (fun _ hmem => Runtime.mem_block reason hmem)
    fun hmem => Runtime.mem_block reason hmem

theorem Gated.beginLiveBaseline (s : BaselineStream) : s.beginLiveBaseline.Gated where
  unborn hunborn := absurd hunborn (Nat.succ_ne_zero s.generation)
  opened _ hopen := absurd (Runtime.mem_block .streamStale (Finset.mem_insert_self _ _)) hopen

theorem Gated.queueTransaction (h : s.Gated) (item : Notified) (source : EventSource) :
    (s.queueTransaction item source).Gated where
  unborn := h.unborn
  opened hborn hopen := by
    obtain ⟨now, hnow, hready⟩ := h.opened hborn hopen
    refine ⟨now, hnow, ?_⟩
    cases hstarted : s.startedAt with
    | none => simp [BaselineStream.baselineReady, hstarted] at hready
    | some startedAt =>
        simpa [BaselineStream.baselineReady, BaselineStream.queueTransaction, hstarted]
          using hready

theorem Gated.dispatch (h : s.Gated) : s.dispatch.Gated := by
  unfold BaselineStream.dispatch
  split
  · exact h
  · next item rest hqueue =>
      have hpopped : Gated { s with notificationQueue := rest } := ⟨h.unborn, h.opened⟩
      simp only []
      split
      · exact ⟨h.unborn, h.opened⟩
      · exact hpopped.queueTransaction item .heliusWss

theorem Gated.runLogTask (h : s.Gated) (ok : Bool) : (s.runLogTask ok).Gated := by
  unfold BaselineStream.runLogTask
  split
  · exact h
  · next item rest htasks =>
      have hpopped : Gated { s with logTasks := rest } := ⟨h.unborn, h.opened⟩
      have hblocked := hpopped.blocked .streamFetchError
      simp only []
      split
      · exact hpopped.queueTransaction item .solanaWss
      · exact ⟨hblocked.unborn, hblocked.opened⟩

/-- A refresh opens the gate for the baseline if and only if 60 seconds have passed. -/
theorem Gated.refreshFreshness (h : s.Gated) (now : ℤ) :
    (s.refreshFreshness maxProcessingLag now).Gated := by
  have hstale : .startup ∈ s.gate.reasons → .startup ∈
      (if s.stale maxProcessingLag now = true then s.gate.block .streamStale
        else s.gate.unblock .streamStale).reasons := by
    intro hmem
    split
    · exact Runtime.mem_block _ hmem
    · exact Runtime.mem_unblock hmem (by decide)
  unfold BaselineStream.refreshFreshness
  simp only []
  generalize (if s.stale maxProcessingLag now = true then s.gate.block .streamStale
    else s.gate.unblock .streamStale) = gate at hstale ⊢
  split
  · next hready =>
      have hbaseline (hunborn : s.generation = 0) :
          .startup ∈ (gate.unblock .streamBaseline).reasons :=
        Runtime.mem_unblock (hstale (h.unborn hunborn).1) (by decide)
      split
      · exact ⟨fun hunborn => ⟨Runtime.mem_unblock (hbaseline hunborn) (by decide),
          (h.unborn hunborn).2⟩, fun _ _ => ⟨now, rfl, hready⟩⟩
      · exact ⟨fun hunborn => ⟨hbaseline hunborn, (h.unborn hunborn).2⟩,
          fun _ _ => ⟨now, rfl, hready⟩⟩
  · exact ⟨fun hunborn => ⟨Runtime.mem_block _ (hstale (h.unborn hunborn).1),
      (h.unborn hunborn).2⟩, fun _ hopen => absurd (Finset.mem_insert_self _ _) hopen⟩

theorem Gated.step (h : s.Gated) (a : BaselineStep) : (s.step maxProcessingLag a).Gated := by
  cases a with
  | connect =>
      rw [BaselineStream.step, BaselineStream.connect]
      split
      · exact h
      · exact Gated.beginLiveBaseline _
  | discard =>
      rw [BaselineStream.step]
      split
      · exact Gated.beginLiveBaseline _
      · exact h
  | receive now isLog protocols =>
      rw [BaselineStream.step, BaselineStream.receive]
      split
      · exact ⟨h.unborn, h.opened⟩
      · exact h
  | dispatch => exact h.dispatch
  | runLogTask ok => exact h.runLogTask ok
  | close =>
      have hblocked := h.blocked .streamRecoveryGap
      rw [BaselineStream.step, BaselineStream.close]
      simp only []
      split_ifs
      · exact ⟨fun hunborn => ⟨(hblocked.unborn hunborn).1, rfl⟩, hblocked.opened⟩
      · exact ⟨fun hunborn => ⟨(h.unborn hunborn).1, rfl⟩, h.opened⟩
      · exact h
  | processed now blockTime => exact ⟨h.unborn, h.opened⟩
  | refresh now => exact h.refreshFreshness now
  | block reason => exact h.blocked reason
  | unblock reason =>
      rw [BaselineStream.step]
      split
      · exact h
      · next hother =>
          obtain ⟨hbaseline, hothers⟩ := not_or.mp hother
          have hstartup := (not_or.mp hothers).2
          refine h.same rfl rfl rfl (fun hoff => hoff) (fun hoff hmem => ?_) fun hmem => ?_
          · refine Runtime.mem_unblock hmem fun heq => hstartup ⟨heq.symm, ?_⟩
            rw [hoff]
            exact Bool.false_ne_true
          · exact Runtime.mem_unblock hmem fun heq => hbaseline heq.symm

end BaselineStream

/-- The second of the two notifications is dispatched on the next connection, and starts its
baseline. A transaction that comes in 5 seconds later is traded. -/
example :
    let s := exec (BaselineStream.step 5000000) {}
      [.connect, .receive 0 false [.pump], .close, .connect, .dispatch,
        .receive 60000000 false [.pump], .dispatch]
    (s.queue.map fun entry => (entry.item.generation, entry.source)) =
        [(1, .baselineWss), (2, .heliusWss)] ∧
      (s.received.filter fun item => item.generation = 2).map Notified.receivedAt = [60000000] := by
  decide +kernel

end SniperBot.Stream
