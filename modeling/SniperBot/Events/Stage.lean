import SniperBot.Events.Pipeline
import Mathlib.Data.List.ReduceOption

/-!
# The worker of one stage

`_enqueue_stage`, `_complete_stage`, `_collect_stage_batch` and `_run_stage_worker`
(`pipeline.py`). The durable, the state and the archive stage are three such workers, each with
its queue, its deque of pending batches and its handler. One producer appends batches,
`stop_background_workers` appends the sentinel, and the worker merges queued batches for its
handler.

A step is the code of one task between two awaits. The handler is any coroutine: its call ends by
`handlerReturns` or, like a wait that is cancelled, by `raises`. A batch carries the reading of
`time.monotonic` at which it was enqueued; readings are counted, so that no two are equal and the
comparison of batches by value in `deque.remove` is a comparison of identities. Events are of any
type, and the metrics are left out.

The main result is `stage_worker_accounts`.
-/

namespace SniperBot.Events

open Basis
open scoped List

/-! ## State -/

/-- `_StageBatch` -/
structure StageBatch (α : Type*) where
  events : List α
  enqueuedAt : Nat
  deriving DecidableEq

/-- Where the worker stands in the loop of `_run_stage_worker`, with its local variables. -/
inductive StageWorker (α : Type*)
  /-- At `queue.get`: here no batch is carried over and no sentinel has been met. -/
  | waiting
  | handling (items : List (StageBatch α)) (carried : Option (StageBatch α)) (stopping : Bool)
  | returned
  | raised

/-- One stage. The last four fields are histories: what entered and what left the queue, what
`task_done` was called for, and the lists of events that the handler was given. -/
structure Stage (α : Type*) where
  clock : Nat := 0
  queue : List (Option (StageBatch α)) := []
  pending : List (StageBatch α) := []
  /-- The batch whose `queue.put` waits for a free slot. -/
  putting : Option (StageBatch α) := none
  worker : StageWorker α := .waiting
  trackingError : Bool := false
  entered : List (Option (StageBatch α)) := []
  taken : List (Option (StageBatch α)) := []
  taskDone : List (Option (StageBatch α)) := []
  calls : List (List α) := []

/-- `maxsize` of the stage queues. -/
def stageQueueSize : Nat := 128

variable {α : Type*}

/-! ## The producer -/

def Stage.put (s : Stage α) (item : Option (StageBatch α)) : Stage α :=
  { s with queue := s.queue ++ [item], entered := s.entered ++ [item] }

/-- `_enqueue_stage`, up to the first await that has to wait. -/
def Stage.enqueue (s : Stage α) (events : List α) : Stage α :=
  let item : StageBatch α := ⟨events, s.clock⟩
  let appended := { s with clock := s.clock + 1, pending := s.pending ++ [item] }
  if s.queue.length < stageQueueSize then appended.put (some item)
  else { appended with putting := some item }

/-- The waiting `queue.put` finds a free slot. -/
def Stage.resumePut (s : Stage α) (item : StageBatch α) : Stage α :=
  { s with putting := none }.put (some item)

/-! ## The worker -/

/-- What the loop of `_collect_stage_batch` returns, and what it leaves in the queue. -/
structure Collected (α : Type*) where
  items : List (StageBatch α)
  carried : Option (StageBatch α)
  stopping : Bool
  queue : List (Option (StageBatch α))

/-- The loop of `_collect_stage_batch`. -/
def collectLoop (items : List (StageBatch α)) (totalEvents : Nat) :
    List (Option (StageBatch α)) → Collected α
  | [] => ⟨items, none, false, []⟩
  | none :: queue => ⟨items, none, true, queue⟩
  | some candidate :: queue =>
      if totalEvents + candidate.events.length > maxEventBatchSize then
        ⟨items, some candidate, false, queue⟩
      else collectLoop (items ++ [candidate]) (totalEvents + candidate.events.length) queue

/-- `_collect_stage_batch`; the sentinel is marked as done when it is met. -/
def Stage.collectStageBatch (s : Stage α) (first : StageBatch α) : Collected α × Stage α :=
  let c := collectLoop [first] first.events.length s.queue
  (c, { s with
    queue := c.queue
    taken := s.taken ++ s.queue.take (s.queue.length - c.queue.length)
    taskDone := s.taskDone ++ if c.stopping then [none] else [] })

/-- The call of the handler with the combined events. -/
def Stage.handle (s : Stage α) (items : List (StageBatch α)) (carried : Option (StageBatch α))
    (stopping : Bool) : Stage α :=
  { s with
    worker := .handling items carried stopping
    calls := s.calls ++ [items.flatMap StageBatch.events] }

/-- The body of the loop from the first batch to the call of the handler. -/
def Stage.round (s : Stage α) (first : StageBatch α) (stopping : Bool) : Stage α :=
  if stopping then s.handle [first] none true
  else
    let (c, s) := s.collectStageBatch first
    s.handle c.items c.carried c.stopping

/-- `queue.get` of a worker that waits. -/
def Stage.take (s : Stage α) : Stage α :=
  match s.queue with
  | [] => s
  | none :: queue =>
      { s with
        queue := queue, taken := s.taken ++ [none], taskDone := s.taskDone ++ [none]
        worker := .returned }
  | some first :: queue =>
      { s with queue := queue, taken := s.taken ++ [some first] }.round first false

section Step

variable [DecidableEq α]

/-- The waiting `queue.put` is cancelled. -/
def Stage.cancelPut (s : Stage α) (item : StageBatch α) : Stage α :=
  { s with pending := s.pending.erase item, putting := none }

/-- `_complete_stage` -/
def Stage.completeStage (s : Stage α) (item : StageBatch α) : Stage α :=
  if s.pending.head? = some item then { s with pending := s.pending.tail }
  else { s with trackingError := true, pending := s.pending.erase item }

/-- `queue.task_done` and `_complete_stage` for one batch. -/
def Stage.release (s : Stage α) (item : StageBatch α) : Stage α :=
  { s with taskDone := s.taskDone ++ [some item] }.completeStage item

/-- The handler has returned: the inner `finally` and the rest of the loop. -/
def Stage.handled (s : Stage α) (items : List (StageBatch α)) (carried : Option (StageBatch α))
    (stopping : Bool) : Stage α :=
  let s := items.foldl Stage.release s
  if stopping ∧ carried = none then { s with worker := .returned }
  else
    match carried with
    | none => { s with worker := .waiting }
    | some first => s.round first stopping

/-- The handler has raised: the two `finally` blocks. -/
def Stage.failed (s : Stage α) (items : List (StageBatch α)) (carried : Option (StageBatch α)) :
    Stage α :=
  { carried.toList.foldl Stage.release (items.foldl Stage.release s) with worker := .raised }

/-! ## Steps -/

inductive StageStep (α : Type*)
  | enqueue (events : List α)
  | resumePut
  | cancelPut
  | sentinel
  | take
  | handlerReturns
  | raises

def Stage.step (s : Stage α) : StageStep α → Stage α
  | .enqueue events => match s.putting with
    -- the only producer is still in its last call
    | some _ => s
    | none => s.enqueue events
  | .resumePut => match s.putting with
    | some item => if s.queue.length < stageQueueSize then s.resumePut item else s
    | none => s
  | .cancelPut => match s.putting with
    | some item => s.cancelPut item
    | none => s
  | .sentinel => if s.queue.length < stageQueueSize then s.put none else s
  | .take => match s.worker with
    | .waiting => s.take
    | _ => s
  | .handlerReturns => match s.worker with
    | .handling items carried stopping => s.handled items carried stopping
    | _ => s
  | .raises => match s.worker with
    | .handling items carried _ => s.failed items carried
    | .waiting => { s with worker := .raised }
    | _ => s

end Step

/-! ## The accounts of a stage -/

/-- The events of the batches among some items of the queue, in their order. -/
def itemEvents (items : List (Option (StageBatch α))) : List α :=
  items.reduceOption.flatMap StageBatch.events

theorem itemEvents_append (items more : List (Option (StageBatch α))) :
    itemEvents (items ++ more) = itemEvents items ++ itemEvents more := by
  rw [itemEvents, List.reduceOption_append, List.flatMap_append, itemEvents, itemEvents]

theorem reduceOption_map_some (items : List (StageBatch α)) :
    (items.map some).reduceOption = items := by
  induction items with
  | nil => rfl
  | cons item items ih => rw [List.map_cons, List.reduceOption_cons_of_some, ih]

/-- The batches of the `_enqueue_stage` calls that were not cancelled. -/
def Stage.enqueued (s : Stage α) : List (StageBatch α) :=
  s.entered.reduceOption ++ s.putting.toList

/-- The batches that the worker has taken and not completed. -/
def StageWorker.hand : StageWorker α → List (StageBatch α)
  | .handling items carried _ => items ++ carried.toList
  | _ => []

/-- The accounts of a stage whose worker holds the batches of `hand`. -/
structure Stage.Holds (s : Stage α) (hand : List (StageBatch α)) : Prop where
  queued : s.entered = s.taken ++ s.queue
  pending : s.pending = hand ++ s.queue.reduceOption ++ s.putting.toList
  done : (s.taskDone ++ hand.map some).Perm s.taken
  inOrder : s.taskDone.reduceOption ++ hand = s.taken.reduceOption
  tracked : s.trackingError = false
  ordered : (s.enqueued.map StageBatch.enqueuedAt).Pairwise (· < ·)
  read : ∀ item ∈ s.enqueued, item.enqueuedAt < s.clock
  batches : ∀ item ∈ s.enqueued, item.events.length ≤ maxEventBatchSize
  calls : ∀ call ∈ s.calls, call.length ≤ maxEventBatchSize

/-- One sentinel has been taken, after everything else. -/
def Stage.Stopped (s : Stage α) : Prop := ∃ items, s.taken = items ++ [none] ∧ none ∉ items

/-- What the handler was given, and whether the sentinel was met, by the position of the
worker. -/
def Stage.Progress (s : Stage α) : StageWorker α → Prop
  | .waiting => s.calls.flatten = itemEvents s.taken ∧ none ∉ s.taken
  | .handling _ carried stopping =>
      s.calls.flatten ++ carried.toList.flatMap StageBatch.events = itemEvents s.taken ∧
        if stopping then carried = none ∧ s.Stopped else none ∉ s.taken
  | .returned => s.calls.flatten = itemEvents s.taken ∧ s.Stopped
  | .raised => s.calls.flatten <+: itemEvents s.taken

/-- The invariant of every run. -/
structure Stage.Accounted (s : Stage α) : Prop where
  holds : s.Holds s.worker.hand
  progress : s.Progress s.worker

theorem Stage.Accounted.position {s : Stage α} {worker : StageWorker α} (h : s.Accounted)
    (hworker : s.worker = worker) : s.Holds worker.hand ∧ s.Progress worker :=
  hworker ▸ ⟨h.holds, h.progress⟩

/-- A step that leaves the worker alone. -/
theorem Stage.Accounted.frame {s next : Stage α} (h : s.Accounted)
    (hholds : next.Holds s.worker.hand) (hworker : next.worker = s.worker)
    (hcalls : next.calls = s.calls) (htaken : next.taken = s.taken) : next.Accounted := by
  have hprogress : next.Progress s.worker = s.Progress s.worker := by
    cases s.worker <;> simp only [Stage.Progress, Stage.Stopped, hcalls, htaken]
  exact ⟨hworker ▸ hholds, by rw [hworker, hprogress]; exact h.progress⟩

theorem Stage.Accounted.start : (({} : Stage α)).Accounted where
  holds :=
    { queued := rfl, pending := rfl, done := .nil, inOrder := rfl, tracked := rfl,
      ordered := .nil, read := nofun, batches := nofun, calls := nofun }
  progress := ⟨rfl, List.not_mem_nil⟩

/-! ## What the producer keeps -/

section Producer

variable {s : Stage α} {hand : List (StageBatch α)}

theorem reduceOption_snoc (items : List (Option (StageBatch α))) (item : StageBatch α) :
    (items ++ [some item]).reduceOption = items.reduceOption ++ [item] := by
  rw [List.reduceOption_append, List.reduceOption_cons_of_some, List.reduceOption_nil]

theorem Stage.Holds.enqueue (h : s.Holds hand) (hputting : s.putting = none) {events : List α}
    (hsize : events.length ≤ maxEventBatchSize) : (s.enqueue events).Holds hand := by
  let item : StageBatch α := ⟨events, s.clock⟩
  have hpending : s.pending = hand ++ s.queue.reduceOption := by
    rw [h.pending, hputting, Option.toList_none, List.append_nil]
  have hall : ∀ other ∈ s.enqueued ++ [item],
      other.enqueuedAt < s.clock + 1 ∧ other.events.length ≤ maxEventBatchSize := by
    intro other hother
    rcases List.mem_append.mp hother with hold | hlast
    · exact ⟨(h.read other hold).trans (Nat.lt_succ_self _), h.batches other hold⟩
    · rw [List.mem_singleton.mp hlast]
      exact ⟨Nat.lt_succ_self _, hsize⟩
  have hordered : ((s.enqueued ++ [item]).map StageBatch.enqueuedAt).Pairwise (· < ·) := by
    rw [List.map_append, List.pairwise_append]
    refine ⟨h.ordered, List.pairwise_singleton _ _, fun reading hreading last hlast => ?_⟩
    obtain ⟨other, hother, rfl⟩ := List.mem_map.mp hreading
    rw [List.mem_singleton.mp hlast]
    exact h.read other hother
  have hold : s.enqueued = s.entered.reduceOption := by
    rw [Stage.enqueued, hputting, Option.toList_none, List.append_nil]
  unfold Stage.enqueue
  dsimp only
  split
  · have henqueued : ({ s with
        clock := s.clock + 1, pending := s.pending ++ [item] }.put (some item)).enqueued =
          s.enqueued ++ [item] := by
      change (s.entered ++ [some item]).reduceOption ++ s.putting.toList = _
      rw [hold, hputting, reduceOption_snoc, Option.toList_none, List.append_nil]
    refine
      { h with
        queued := ?_, pending := ?_
        ordered := by rw [henqueued]; exact hordered
        read := by rw [henqueued]; exact fun other hother => (hall other hother).1
        batches := by rw [henqueued]; exact fun other hother => (hall other hother).2 }
    · change s.entered ++ [_] = s.taken ++ (s.queue ++ [_])
      rw [h.queued, List.append_assoc]
    · change s.pending ++ [_] = hand ++ (s.queue ++ [_]).reduceOption ++ s.putting.toList
      rw [hpending, hputting, reduceOption_snoc, Option.toList_none, List.append_nil,
        List.append_assoc]
  · have henqueued : ({ s with
        clock := s.clock + 1, pending := s.pending ++ [item],
        putting := some item } : Stage α).enqueued = s.enqueued ++ [item] := by
      rw [hold]
      rfl
    refine
      { h with
        pending := ?_
        ordered := by rw [henqueued]; exact hordered
        read := by rw [henqueued]; exact fun other hother => (hall other hother).1
        batches := by rw [henqueued]; exact fun other hother => (hall other hother).2 }
    change s.pending ++ [_] = hand ++ s.queue.reduceOption ++ [_]
    rw [hpending]

theorem Stage.Holds.resumePut (h : s.Holds hand) {item : StageBatch α}
    (hputting : s.putting = some item) : (s.resumePut item).Holds hand := by
  have hsame : (s.resumePut item).enqueued = s.enqueued := by
    change (s.entered ++ [some item]).reduceOption ++ [] = _
    rw [Stage.enqueued, hputting, reduceOption_snoc, List.append_nil]
    rfl
  refine
    { h with
      queued := ?_, pending := ?_
      ordered := by rw [hsame]; exact h.ordered
      read := by rw [hsame]; exact h.read
      batches := by rw [hsame]; exact h.batches }
  · change s.entered ++ [_] = s.taken ++ (s.queue ++ [_])
    rw [h.queued, List.append_assoc]
  · change s.pending = hand ++ (s.queue ++ [some item]).reduceOption ++ []
    rw [h.pending, hputting, reduceOption_snoc, List.append_nil, List.append_assoc]
    rfl

theorem Stage.Holds.sentinel (h : s.Holds hand) : (s.put none).Holds hand := by
  have hsame : (s.put none).enqueued = s.enqueued := by
    change (s.entered ++ [none]).reduceOption ++ s.putting.toList = _
    rw [Stage.enqueued, List.reduceOption_append, List.reduceOption_cons_of_none,
      List.reduceOption_nil, List.append_nil]
  refine
    { h with
      queued := ?_, pending := ?_
      ordered := by rw [hsame]; exact h.ordered
      read := by rw [hsame]; exact h.read
      batches := by rw [hsame]; exact h.batches }
  · change s.entered ++ [_] = s.taken ++ (s.queue ++ [_])
    rw [h.queued, List.append_assoc]
  · change s.pending = hand ++ (s.queue ++ [none]).reduceOption ++ s.putting.toList
    rw [h.pending, List.reduceOption_append, List.reduceOption_cons_of_none,
      List.reduceOption_nil, List.append_nil]

/-- The batches that are in hand or in the queue have entered it. -/
theorem Stage.Holds.entered (h : s.Holds hand) :
    s.entered.reduceOption = s.taskDone.reduceOption ++ (hand ++ s.queue.reduceOption) := by
  rw [h.queued, List.reduceOption_append, ← h.inOrder, List.append_assoc]

/-- A batch that was never put is the last pending one; an equal one before it would carry an
equal reading. -/
theorem Stage.Holds.cancelPut [DecidableEq α] (h : s.Holds hand) {item : StageBatch α}
    (hputting : s.putting = some item) : (s.cancelPut item).Holds hand := by
  have hpending : s.pending = (hand ++ s.queue.reduceOption) ++ [item] := by
    rw [h.pending, hputting]
    rfl
  have hold : s.enqueued = s.entered.reduceOption ++ [item] := by
    rw [Stage.enqueued, hputting]
    rfl
  have hlast : item ∉ s.entered.reduceOption := by
    intro hmem
    have hordered := h.ordered
    rw [hold, List.map_append, List.pairwise_append] at hordered
    exact (hordered.2.2 _ (List.mem_map_of_mem hmem) _ List.mem_cons_self).false
  rw [h.entered] at hlast
  have herase : s.pending.erase item = hand ++ s.queue.reduceOption := by
    rw [hpending, List.erase_append_right _ fun hmem => hlast (List.mem_append_right _ hmem),
      List.erase_cons_head, List.append_nil]
  have hnow : (s.cancelPut item).enqueued = s.entered.reduceOption := List.append_nil _
  have hsub : s.entered.reduceOption.Sublist s.enqueued := by
    rw [hold]
    exact List.sublist_append_left _ _
  exact
    { h with
      pending := by
        change s.pending.erase item = hand ++ s.queue.reduceOption ++ []
        rw [herase, List.append_nil]
      ordered := by rw [hnow]; exact h.ordered.sublist (hsub.map _)
      read := fun other hother => h.read other (hsub.subset (hnow ▸ hother))
      batches := fun other hother => h.batches other (hsub.subset (hnow ▸ hother)) }

end Producer

/-! ## What the worker keeps -/

/-- The items that `_collect_stage_batch` takes from the queue: the batches that join the first
one, and then the batch that is carried over, or the sentinel. -/
theorem collectLoop_spec (queue : List (Option (StageBatch α))) (items : List (StageBatch α))
    {totalEvents : Nat} (htotal : totalEvents ≤ maxEventBatchSize) :
    ∃ joined carried stopping rest,
      collectLoop items totalEvents queue = ⟨items ++ joined, carried, stopping, rest⟩ ∧
      queue = (joined ++ carried.toList).map some ++ (if stopping then [none] else []) ++ rest ∧
      (stopping = true → carried = none) ∧
      totalEvents + (joined.flatMap StageBatch.events).length ≤ maxEventBatchSize := by
  induction queue generalizing items totalEvents with
  | nil =>
      exact ⟨[], none, false, [], by rw [collectLoop, List.append_nil], rfl, nofun, htotal⟩
  | cons candidate queue ih =>
      cases candidate with
      | none =>
          exact ⟨[], none, true, queue, by rw [collectLoop, List.append_nil], rfl, fun _ => rfl,
            htotal⟩
      | some candidate =>
          by_cases hfits : totalEvents + candidate.events.length > maxEventBatchSize
          · refine ⟨[], some candidate, false, queue, ?_, rfl, nofun, htotal⟩
            rw [collectLoop, if_pos hfits, List.append_nil]
          · obtain ⟨joined, carried, stopping, rest, hloop, hqueue, hlast, hsize⟩ :=
              ih (items ++ [candidate]) (not_lt.mp hfits)
            refine ⟨candidate :: joined, carried, stopping, rest, ?_, ?_, hlast, ?_⟩
            · rw [collectLoop, if_neg hfits, hloop, List.append_assoc, List.singleton_append]
            · rw [hqueue]
              rfl
            · rw [List.flatMap_cons, List.length_append, ← Nat.add_assoc]
              exact hsize

/-- Without a sentinel, and with the carried batch at the head of the queue, the loop is the one
of the pipeline model. -/
theorem collectStageBatch_eq_collectLoop (queue items : List (StageBatch String)) :
    let c := collectLoop items (items.flatMap StageBatch.events).length (queue.map some)
    collectStageBatch (items.flatMap StageBatch.events) (queue.map StageBatch.events) =
      (c.items.flatMap StageBatch.events,
        (c.carried.toList ++ c.queue.reduceOption).map StageBatch.events) := by
  induction queue generalizing items with
  | nil => rfl
  | cons candidate queue ih =>
      have hitems : (items ++ [candidate]).flatMap StageBatch.events =
          items.flatMap StageBatch.events ++ candidate.events := by
        rw [List.flatMap_append, List.flatMap_singleton]
      have hrest := ih (items ++ [candidate])
      rw [hitems, List.length_append] at hrest
      simp only [List.map_cons, collectStageBatch, collectLoop]
      split
      · simp only [reduceOption_map_some, Option.toList_some, List.singleton_append, List.map_cons]
      · exact hrest

section Worker

variable {s : Stage α} {hand : List (StageBatch α)}

theorem itemEvents_map_some (items : List (StageBatch α)) :
    itemEvents (items.map some) = items.flatMap StageBatch.events := by
  rw [itemEvents, reduceOption_map_some]

/-- A round begins with one batch in hand, the events of which are the only ones among those
taken that the handler was not given. -/
theorem Stage.Holds.round {first : StageBatch α} (h : s.Holds [first])
    (hcalls : s.calls.flatten ++ first.events = itemEvents s.taken) (hrunning : none ∉ s.taken) :
    (s.round first false).Accounted := by
  have hfirst : first.events.length ≤ maxEventBatchSize := by
    refine h.batches first (List.mem_append_left _ ?_)
    rw [h.entered]
    exact List.mem_append_right _ List.mem_cons_self
  obtain ⟨joined, carried, stopping, rest, hloop, hqueue, hlast, hsize⟩ :=
    collectLoop_spec s.queue [first] hfirst
  let joins := (joined ++ carried.toList).map some
  let sentinel : List (Option (StageBatch α)) := if stopping then [none] else []
  have hround : s.round first false =
      { s with
        queue := rest, taken := s.taken ++ (joins ++ sentinel), taskDone := s.taskDone ++ sentinel
        worker := .handling (first :: joined) carried stopping
        calls := s.calls ++ [(first :: joined).flatMap StageBatch.events] } := by
    have htaken : s.queue.take (s.queue.length - rest.length) = joins ++ sentinel := by
      rw [hqueue, List.length_append, Nat.add_sub_cancel, List.take_left]
    rw [Stage.round, if_neg Bool.false_ne_true, Stage.collectStageBatch, hloop]
    simp only [htaken]
    rfl
  have hnone : sentinel.reduceOption = [] := by
    unfold sentinel
    split <;> rfl
  have hjoins : (joins ++ sentinel).reduceOption = joined ++ carried.toList := by
    rw [List.reduceOption_append, hnone, List.append_nil, reduceOption_map_some]
  rw [hround]
  refine ⟨{ h with queued := ?_, pending := ?_, done := ?_, inOrder := ?_, calls := ?_ }, ?_, ?_⟩
  · rw [h.queued, List.append_assoc, ← hqueue]
  · change s.pending = (first :: joined ++ carried.toList) ++ rest.reduceOption ++ s.putting.toList
    rw [h.pending, hqueue, List.reduceOption_append, hjoins]
    rfl
  · calc (s.taskDone ++ sentinel) ++ (first :: joined ++ carried.toList).map some
        = s.taskDone ++ (sentinel ++ ([some first] ++ joins)) := List.append_assoc ..
      _ ~ s.taskDone ++ (([some first] ++ joins) ++ sentinel) :=
          List.perm_append_comm.append_left _
      _ = (s.taskDone ++ [first].map some) ++ (joins ++ sentinel) := by
          rw [List.append_assoc, List.append_assoc]
          rfl
      _ ~ s.taken ++ (joins ++ sentinel) := h.done.append_right _
  · rw [List.reduceOption_append, List.reduceOption_append, hnone, hjoins, ← h.inOrder,
      List.append_nil, List.append_assoc]
    rfl
  · intro call hcall
    rcases List.mem_append.mp hcall with hold | hnew
    · exact h.calls call hold
    · rw [List.mem_singleton.mp hnew, List.flatMap_cons, List.length_append]
      exact hsize
  · rw [List.flatten_append, List.flatten_singleton, itemEvents_append, ← hcalls, itemEvents,
      hjoins, List.flatMap_append, List.flatMap_cons]
    simp only [List.append_assoc]
  · cases stopping with
    | true =>
        refine ⟨hlast rfl, s.taken ++ joins, (List.append_assoc ..).symm, ?_⟩
        simp [joins, hrunning]
    | false =>
        change none ∉ s.taken ++ (joins ++ [])
        simp [joins, hrunning]

theorem Stage.Holds.take (h : s.Holds []) (hcalls : s.calls.flatten = itemEvents s.taken)
    (hrunning : none ∉ s.taken) (hworker : s.worker = .waiting) : s.take.Accounted := by
  rw [Stage.take]
  split
  · exact ⟨by rw [hworker]; exact h, by rw [hworker]; exact ⟨hcalls, hrunning⟩⟩
  · rename_i queue hqueue
    refine ⟨{ h with queued := ?_, pending := ?_, done := ?_, inOrder := ?_ }, ?_,
      s.taken, rfl, hrunning⟩
    · rw [h.queued, hqueue, List.append_assoc]
      rfl
    · rw [h.pending, hqueue]
      rfl
    · exact List.append_nil _ ▸ (List.append_nil s.taskDone ▸ h.done).append_right [none]
    · rw [List.reduceOption_append, List.reduceOption_append, ← h.inOrder, List.append_nil]
      exact List.append_nil _
    · rw [itemEvents_append, ← hcalls]
      exact (List.append_nil _).symm
  · rename_i first queue hqueue
    refine Stage.Holds.round { h with queued := ?_, pending := ?_, done := ?_, inOrder := ?_ } ?_ ?_
    · rw [h.queued, hqueue, List.append_assoc]
      rfl
    · rw [h.pending, hqueue]
      rfl
    · exact (List.append_nil s.taskDone ▸ h.done).append_right [some first]
    · rw [reduceOption_snoc, ← h.inOrder, List.append_nil]
    · rw [itemEvents_append, ← hcalls]
      exact congrArg (_ ++ ·) (List.append_nil _).symm
    · simp [hrunning]

variable [DecidableEq α]

/-- The batches in hand are the first pending ones: `_complete_stage` finds them there. -/
theorem Stage.Holds.released {items : List (StageBatch α)} (h : s.Holds (items ++ hand)) :
    ∃ next, items.foldl Stage.release s = next ∧ next.Holds hand ∧ next.calls = s.calls ∧
      next.taken = s.taken := by
  induction items generalizing s with
  | nil => exact ⟨s, rfl, h, rfl, rfl⟩
  | cons item items ih =>
      have hhead : s.pending.head? = some item := by
        rw [h.pending]
        rfl
      have hrelease : s.release item =
          { s with
            taskDone := s.taskDone ++ [some item], pending := s.pending.tail } := if_pos hhead
      have hnext : (s.release item).Holds (items ++ hand) := by
        rw [hrelease]
        refine { h with pending := ?_, done := ?_, inOrder := ?_ }
        · rw [h.pending]
          rfl
        · rw [List.append_assoc]
          exact h.done
        · rw [reduceOption_snoc, List.append_assoc]
          exact h.inOrder
      obtain ⟨next, hfold, hholds, hcalls, htaken⟩ := ih hnext
      refine ⟨next, hfold, hholds, ?_, ?_⟩
      · rw [hcalls, hrelease]
      · rw [htaken, hrelease]

theorem Stage.Accounted.handled {items : List (StageBatch α)} {carried : Option (StageBatch α)}
    {stopping : Bool} (h : s.Accounted) (hworker : s.worker = .handling items carried stopping) :
    (s.handled items carried stopping).Accounted := by
  obtain ⟨hholds, hcalls, hstopping⟩ := h.position hworker
  obtain ⟨next, hfold, hnext, hsame, htaken⟩ := hholds.released
  simp only [Stage.handled, hfold]
  cases stopping with
  | true =>
      obtain ⟨rfl, hstopped⟩ := hstopping
      rw [Option.toList_none, List.flatMap_nil, List.append_nil] at hcalls
      rw [if_pos ⟨rfl, rfl⟩]
      refine ⟨{ hnext with }, ?_, ?_⟩
      · rw [hsame, hcalls, htaken]
      · rw [Stage.Stopped, htaken]
        exact hstopped
  | false =>
      have hrunning : none ∉ next.taken := htaken ▸ hstopping
      rw [if_neg fun hboth => Bool.false_ne_true hboth.1]
      cases carried with
      | none =>
          rw [Option.toList_none, List.flatMap_nil, List.append_nil] at hcalls
          refine ⟨{ hnext with }, ?_, hrunning⟩
          rw [hsame, hcalls, htaken]
      | some first =>
          refine Stage.Holds.round hnext ?_ hrunning
          rw [hsame, htaken, ← hcalls]
          exact congrArg (_ ++ ·) (List.append_nil _).symm

theorem Stage.Accounted.failed {items : List (StageBatch α)} {carried : Option (StageBatch α)}
    {stopping : Bool} (h : s.Accounted) (hworker : s.worker = .handling items carried stopping) :
    (s.failed items carried).Accounted := by
  obtain ⟨hholds, hprogress⟩ := h.position hworker
  obtain ⟨mid, hfold, hmid, hcalls, htaken⟩ := hholds.released
  rw [← List.append_nil carried.toList] at hmid
  obtain ⟨next, hlast, hnext, hcalls', htaken'⟩ := hmid.released
  rw [Stage.failed, hfold, hlast]
  refine ⟨{ hnext with }, ?_⟩
  rw [Stage.Progress, hcalls', hcalls, htaken', htaken, ← hprogress.1]
  exact List.prefix_append _ _

/-- The rule for one step; batches have to respect the limit. -/
theorem Stage.Accounted.step (h : s.Accounted) (step : StageStep α)
    (hsize : ∀ events, step = .enqueue events → events.length ≤ maxEventBatchSize) :
    (s.step step).Accounted := by
  cases step with
  | enqueue events =>
      rw [Stage.step]
      split
      · exact h
      · rename_i hputting
        have hsame : (s.enqueue events).worker = s.worker ∧ (s.enqueue events).calls = s.calls ∧
            (s.enqueue events).taken = s.taken := by
          unfold Stage.enqueue
          dsimp only
          split <;> exact ⟨rfl, rfl, rfl⟩
        exact h.frame (h.holds.enqueue hputting (hsize events rfl)) hsame.1 hsame.2.1 hsame.2.2
  | resumePut =>
      rw [Stage.step]
      split
      · rename_i hputting
        split
        · exact h.frame (h.holds.resumePut hputting) rfl rfl rfl
        · exact h
      · exact h
  | cancelPut =>
      rw [Stage.step]
      split
      · rename_i hputting
        exact h.frame (h.holds.cancelPut hputting) rfl rfl rfl
      · exact h
  | sentinel =>
      rw [Stage.step]
      split
      · exact h.frame h.holds.sentinel rfl rfl rfl
      · exact h
  | take =>
      rw [Stage.step]
      split
      · rename_i hworker
        obtain ⟨hholds, hprogress⟩ := h.position hworker
        exact hholds.take hprogress.1 hprogress.2 hworker
      · exact h
  | handlerReturns =>
      rw [Stage.step]
      split
      · rename_i hworker
        exact h.handled hworker
      · exact h
  | raises =>
      rw [Stage.step]
      split
      · rename_i hworker
        exact h.failed hworker
      · rename_i hworker
        obtain ⟨hholds, hprogress⟩ := h.position hworker
        refine ⟨{ hholds with }, ?_⟩
        rw [Stage.Progress, hprogress.1]
      · exact h

theorem Stage.Accounted.run {steps : List (StageStep α)}
    (hsizes : ∀ events, .enqueue events ∈ steps → events.length ≤ maxEventBatchSize)
    (h : s.Accounted) : (exec Stage.step s steps).Accounted := by
  induction steps generalizing s with
  | nil => exact h
  | cons step steps ih =>
      refine ih (fun events hmem => hsizes events (List.mem_cons_of_mem _ hmem))
        (h.step step fun events hstep => hsizes events ?_)
      rw [hstep]
      exact List.mem_cons_self

end Worker

/-! ## Shutdown -/

/-- The worker steps that a stage still needs at most. -/
def Stage.work (s : Stage α) : Nat :=
  match s.worker with
  | .waiting => 2 * s.queue.length
  | .handling _ carried _ => 2 * s.queue.length + 2 * carried.toList.length + 1
  | _ => 0

/-- The steps of a worker no handler call of which raises. -/
def StageStep.WorkerOnly (step : StageStep α) : Prop := step = .take ∨ step = .handlerReturns

section Shutdown

variable {s : Stage α}

/-- A worker that has returned with the sentinel behind every batch has given all their events to
the handler. -/
theorem Stage.Accounted.complete (h : s.Accounted) (hreturned : s.worker = .returned)
    {batches : List (StageBatch α)} (hlast : s.entered = batches.map some ++ [none]) :
    s.calls.flatten = batches.flatMap StageBatch.events ∧ s.taskDone ~ s.entered := by
  obtain ⟨hholds, hcalls, items, htaken, -⟩ := h.position hreturned
  have hsplit : batches.map some ++ [none] = items ++ (none :: s.queue) := by
    rw [← hlast, hholds.queued, htaken, List.append_assoc]
    rfl
  have hbatches : none ∉ batches.map some := by simp
  obtain ⟨hitems, -, hqueue⟩ :=
    (List.append_cons_inj_of_notMem hbatches List.not_mem_nil).mp hsplit
  have hentered : s.taken = s.entered := by
    rw [hholds.queued, ← hqueue, List.append_nil]
  refine ⟨?_, ?_⟩
  · rw [hcalls, htaken, ← hitems, itemEvents_append, itemEvents_map_some]
    exact List.append_nil _
  · exact hentered ▸ List.append_nil s.taskDone ▸ hholds.done

/-- A round takes at least what it carries over. -/
theorem work_round {first : StageBatch α} (hfirst : first.events.length ≤ maxEventBatchSize) :
    (s.round first false).work ≤ 2 * s.queue.length + 1 ∧
      (s.round first false).entered = s.entered ∧ (s.round first false).worker ≠ .raised := by
  obtain ⟨joined, carried, stopping, rest, hloop, hqueue, -, -⟩ :=
    collectLoop_spec s.queue [first] hfirst
  have hlength : rest.length + carried.toList.length ≤ s.queue.length := by
    rw [hqueue]
    simp only [List.length_append, List.length_map]
    omega
  rw [Stage.round, if_neg Bool.false_ne_true, Stage.collectStageBatch, hloop]
  refine ⟨?_, rfl, nofun⟩
  change 2 * rest.length + 2 * carried.toList.length + 1 ≤ _
  omega

/-- `Queue.join` returns when nothing is in the queue and the worker holds nothing. -/
theorem Stage.Accounted.joined_iff (h : s.Accounted) :
    s.taskDone.length = s.entered.length ↔ s.queue = [] ∧ s.worker.hand = [] := by
  have hlength : s.entered.length =
      s.taskDone.length + (s.worker.hand.length + s.queue.length) := by
    rw [h.holds.queued, List.length_append, ← h.holds.done.length_eq, List.length_append,
      List.length_map, Nat.add_assoc]
  rw [← List.length_eq_zero_iff, ← List.length_eq_zero_iff]
  omega

variable [DecidableEq α]

theorem entered_release (s : Stage α) (item : StageBatch α) :
    (s.release item).entered = s.entered ∧ (s.release item).queue = s.queue := by
  rw [Stage.release, Stage.completeStage]
  split <;> exact ⟨rfl, rfl⟩

theorem entered_releaseAll (s : Stage α) (items : List (StageBatch α)) :
    (items.foldl Stage.release s).entered = s.entered ∧
      (items.foldl Stage.release s).queue = s.queue := by
  induction items generalizing s with
  | nil => exact ⟨rfl, rfl⟩
  | cons item items ih =>
      obtain ⟨hentered, hqueue⟩ := entered_release s item
      obtain ⟨hentered', hqueue'⟩ := ih (s.release item)
      exact ⟨hentered'.trans hentered, hqueue'.trans hqueue⟩

/-- While the sentinel is still ahead, the worker has a step that leaves it less to do. -/
theorem Stage.Accounted.advances (h : s.Accounted) (hsentinel : none ∈ s.entered)
    (hraised : s.worker ≠ .raised) (hreturned : s.worker ≠ .returned) :
    ∃ step : StageStep α, step.WorkerOnly ∧ (s.step step).work < s.work ∧
      (s.step step).entered = s.entered ∧ (s.step step).worker ≠ .raised := by
  cases hworker : s.worker with
  | raised => exact absurd hworker hraised
  | returned => exact absurd hworker hreturned
  | waiting =>
      obtain ⟨hholds, -, hrunning⟩ := h.position hworker
      refine ⟨.take, Or.inl rfl, ?_⟩
      have hwork : s.work = 2 * s.queue.length := by
        rw [Stage.work, hworker]
      simp only [Stage.step, hworker, hwork]
      rw [Stage.take]
      split
      · rename_i hqueue
        rw [hholds.queued, hqueue, List.append_nil] at hsentinel
        exact absurd hsentinel hrunning
      · rename_i queue hqueue
        refine ⟨?_, rfl, nofun⟩
        change 0 < _
        rw [hqueue, List.length_cons]
        omega
      · rename_i first queue hqueue
        have hfirst : first.events.length ≤ maxEventBatchSize := by
          refine hholds.batches first (List.mem_append_left _ ?_)
          rw [hholds.entered, hqueue]
          exact List.mem_append_right _ List.mem_cons_self
        obtain ⟨hwork', hentered, hworker'⟩ := work_round
          (s := { s with queue := queue, taken := s.taken ++ [some first] }) hfirst
        refine ⟨hwork'.trans_lt ?_, hentered, hworker'⟩
        change 2 * queue.length + 1 < _
        rw [hqueue, List.length_cons]
        omega
  | handling items carried stopping =>
      obtain ⟨hholds, -, hstopping⟩ := h.position hworker
      refine ⟨.handlerReturns, Or.inr rfl, ?_⟩
      have hwork : s.work = 2 * s.queue.length + 2 * carried.toList.length + 1 := by
        rw [Stage.work, hworker]
      obtain ⟨hentered, hqueue⟩ := entered_releaseAll s items
      simp only [Stage.step, hworker, hwork, Stage.handled]
      cases carried with
      | none =>
          cases stopping with
          | true =>
              rw [if_pos ⟨rfl, rfl⟩]
              exact ⟨Nat.succ_pos _, hentered, nofun⟩
          | false =>
              rw [if_neg fun hboth => Bool.false_ne_true hboth.1]
              refine ⟨?_, hentered, nofun⟩
              change 2 * (items.foldl Stage.release s).queue.length < _
              rw [hqueue]
              exact Nat.lt_succ_self _
      | some first =>
          have hfirst : first.events.length ≤ maxEventBatchSize := by
            refine hholds.batches first (List.mem_append_left _ ?_)
            rw [hholds.entered]
            exact List.mem_append_right _ (List.mem_append_left _
              (List.mem_append_right _ List.mem_cons_self))
          cases stopping with
          | true => exact absurd hstopping.1 nofun
          | false =>
              obtain ⟨hwork', hentered', hworker'⟩ := work_round (s := items.foldl Stage.release s)
                hfirst
              rw [if_neg fun hboth => Bool.false_ne_true hboth.1]
              refine ⟨hwork'.trans_lt ?_, hentered'.trans hentered, hworker'⟩
              rw [hqueue, Option.toList_some, List.length_singleton]
              omega

/-- The worker gets to its sentinel. -/
theorem Stage.Accounted.drains (h : s.Accounted) (hsentinel : none ∈ s.entered)
    (hraised : s.worker ≠ .raised) :
    ∃ steps : List (StageStep α), (∀ step ∈ steps, step.WorkerOnly) ∧
      (exec Stage.step s steps).worker = .returned ∧
      (exec Stage.step s steps).entered = s.entered := by
  induction hwork : s.work using Nat.strong_induction_on generalizing s with
  | _ work ih =>
      by_cases hreturned : s.worker = .returned
      · exact ⟨[], nofun, hreturned, rfl⟩
      · obtain ⟨step, honly, hless, hentered, hworker⟩ :=
          h.advances hsentinel hraised hreturned
        have hsize : ∀ events, step = .enqueue events → events.length ≤ maxEventBatchSize := by
          rintro events rfl
          exact absurd honly (by rintro (hstep | hstep) <;> cases hstep)
        obtain ⟨steps, hsteps, hend, hsame⟩ := ih _ (hwork ▸ hless) (h.step step hsize)
          (hentered ▸ hsentinel) hworker rfl
        exact ⟨step :: steps, List.forall_mem_cons.mpr ⟨honly, hsteps⟩, hend, hsame.trans hentered⟩

end Shutdown

/-! ## Every run -/

section Run

/-- In every position the handler was given a prefix of what was taken. -/
theorem Stage.Accounted.handed {s : Stage α} (h : s.Accounted) :
    s.calls.flatten <+: s.enqueued.flatMap StageBatch.events := by
  have htaken : s.calls.flatten <+: itemEvents s.taken := by
    have hprogress := h.progress
    cases hworker : s.worker with
    | waiting =>
        rw [hworker] at hprogress
        rw [hprogress.1]
    | handling items carried stopping =>
        rw [hworker] at hprogress
        rw [← hprogress.1]
        exact List.prefix_append _ _
    | returned =>
        rw [hworker] at hprogress
        rw [hprogress.1]
    | raised =>
        rw [hworker] at hprogress
        exact hprogress
  refine htaken.trans ?_
  rw [Stage.enqueued, h.holds.queued, List.reduceOption_append, List.append_assoc,
    List.flatMap_append]
  exact List.prefix_append _ _

variable [DecidableEq α]

/-- Whatever producer, worker, sentinels and exceptions do, the handler is given a prefix of the
enqueued events in bounded calls, `task_done` is called once for every item that was taken and is
not in hand, and the deque lists the batches that are not completed, in the order of the
`_enqueue_stage` calls. Unless the worker has raised, a sentinel behind all batches is reached,
and then the handler was given every event. -/
theorem stage_worker_accounts (steps : List (StageStep α))
    (hsizes : ∀ events, .enqueue events ∈ steps → events.length ≤ maxEventBatchSize) :
    let s := exec Stage.step {} steps
    (s.enqueued.map StageBatch.enqueuedAt).Pairwise (· < ·) ∧
      s.calls.flatten <+: s.enqueued.flatMap StageBatch.events ∧
      ((s.enqueued.flatMap StageBatch.events).Nodup → s.calls.flatten.Nodup) ∧
      (∀ call ∈ s.calls, call.length ≤ maxEventBatchSize) ∧
      s.entered = s.taken ++ s.queue ∧
      s.taskDone ++ s.worker.hand.map some ~ s.taken ∧
      s.trackingError = false ∧
      s.pending = s.worker.hand ++ s.queue.reduceOption ++ s.putting.toList ∧
      s.enqueued = s.taskDone.reduceOption ++ s.pending ∧
      (s.worker ≠ .raised → ∀ batches : List (StageBatch α), s.entered = batches.map some ++ [none] →
        ∃ more : List (StageStep α), (∀ step ∈ more, step.WorkerOnly) ∧
          let t := exec Stage.step s more
          t.worker = .returned ∧ t.calls.flatten = batches.flatMap StageBatch.events ∧
            t.taskDone ~ t.entered) := by
  intro s
  have h : s.Accounted := Stage.Accounted.start.run hsizes
  refine ⟨h.holds.ordered, h.handed, fun hnodup => hnodup.sublist h.handed.sublist, h.holds.calls,
    h.holds.queued, h.holds.done, h.holds.tracked, h.holds.pending, ?_, ?_⟩
  · rw [Stage.enqueued, h.holds.entered, h.holds.pending, List.append_assoc, List.append_assoc]
  · intro hraised batches hlast
    have hsentinel : none ∈ s.entered := by
      rw [hlast]
      exact List.mem_append_right _ List.mem_cons_self
    obtain ⟨more, honly, hreturned, hsame⟩ := h.drains hsentinel hraised
    have hmore : (exec Stage.step s more).Accounted := by
      refine h.run fun events hmem => ?_
      rcases honly _ hmem with hstep | hstep <;> cases hstep
    exact ⟨more, honly, hreturned, hmore.complete hreturned (hsame.trans hlast)⟩

end Run

/-- Two batches are merged, and a third one and the sentinel arrive during the call. -/
def mergedRun : List (StageStep Nat) :=
  [.enqueue [1, 2], .enqueue [3], .take, .enqueue [4], .sentinel]

theorem stage_worker_accounts_merged :
    (exec Stage.step {} mergedRun).calls = [[1, 2, 3]] ∧
      (exec Stage.step {} mergedRun).pending = [⟨[1, 2], 0⟩, ⟨[3], 1⟩, ⟨[4], 2⟩] ∧
      ∃ more : List (StageStep Nat), (∀ step ∈ more, step.WorkerOnly) ∧
        (exec Stage.step (exec Stage.step {} mergedRun) more).calls.flatten = [1, 2, 3, 4] := by
  have h := stage_worker_accounts mergedRun (by
    intro events hmem
    simp only [mergedRun, List.mem_cons, StageStep.enqueue.injEq, reduceCtorEq, List.not_mem_nil,
      or_false, false_or] at hmem
    rcases hmem with rfl | rfl | rfl <;> decide)
  obtain ⟨more, honly, -, hcalls, -⟩ :=
    h.2.2.2.2.2.2.2.2.2 (by rintro ⟨⟩) [⟨[1, 2], 0⟩, ⟨[3], 1⟩, ⟨[4], 2⟩] rfl
  exact ⟨rfl, rfl, more, honly, hcalls⟩

end SniperBot.Events
