import SniperBot.Basis.Run
import SniperBot.Stream.Attribution
import Mathlib.Data.Finset.Insert

/-!
# The ordered dispatch of log notifications

`handle_message` puts log notifications into the ingress queue, the dispatcher spawns a task for
each under a permit, and a task looks up the block time, waits for the task before it and queues
the transaction (`_spawn_ordered_log_dispatch`, `_fetch_block_time_and_dispatch_logs` and
`_cancel_log_fetch_tasks` of `stream.py`). A step runs the connection, the dispatcher or a task up to
a point where it may be suspended; lookups end in any order.

A task is known by its sequence number, its place in `tasks`. `received`, `base` and what a task
has `put` are not in the source: they record what the theorems speak about.
-/

namespace SniperBot.Stream

open Basis Features

/-- `_LogNotification`, with its place in the order of receipt. -/
structure LogNotification where
  number : Nat
  signature : String
  slot : Nat
  logs : List String
  generation : Nat
  deriving DecidableEq, Repr

/-- The dispatcher task. -/
inductive Dispatcher
  /-- There is none, or it is done. -/
  | absent
  | idle
  /-- It has taken a notification, and waits for a permit. -/
  | holding (item : LogNotification)
  deriving DecidableEq, Repr

inductive LogPhase
  | created
  /-- It awaits the block time. -/
  | looking
  /-- It awaits the previous task. -/
  | waiting
  /-- `_queue_transaction`, with the programs that are still to be queued. -/
  | queueing (rest : List Protocol)
  | dispatched
  | failed
  | cancelled
  deriving DecidableEq, Repr

/-- The task is over. -/
def LogPhase.done : LogPhase → Prop
  | .dispatched => True
  | .failed => True
  | .cancelled => True
  | _ => False

instance (phase : LogPhase) : Decidable phase.done := by
  cases phase <;> simp only [LogPhase.done] <;> infer_instance

structure LogTask where
  item : LogNotification
  previous : Option Nat
  phase : LogPhase := .created
  /-- The programs for which it has queued the transaction. -/
  put : List Protocol := []
  deriving DecidableEq, Repr

/-- A task is cancelled at its `await`. -/
def LogTask.cancel (task : LogTask) : LogTask :=
  if task.phase.done then task else { task with phase := .cancelled }

/-- A cancellation releases the permit of the task. -/
def LogTask.started (task : LogTask) : Bool :=
  match task.phase with
  | .looking => true
  | .waiting => true
  | .queueing _ => true
  | _ => false

/-- An entry of the processing queue, with the sequence number of the task that put it there. -/
structure LogEntry where
  sequence : Nat
  item : LogNotification
  protocol : Protocol
  deriving DecidableEq, Repr

inductive Link
  | down
  | up
  /-- The dispatcher has been cancelled, and the tasks are to be. -/
  | closing
  deriving DecidableEq, Repr

structure LogStream where
  /-- Every log notification that came in. -/
  received : List LogNotification := []
  notificationQueue : List LogNotification := []
  dispatcher : Dispatcher := .absent
  link : Link := .down
  generation : Nat := 0
  reconnectRequested : Bool := false
  /-- The value of `_log_fetch_semaphore`. -/
  permits : Nat
  tasks : List LogTask := []
  tail : Option Nat := none
  fetchErrors : Finset Nat := ∅
  /-- The sequence number with which the connection began. -/
  base : Nat := 0
  /-- Everything that entered the processing queue. -/
  queue : List LogEntry := []

namespace LogStream

variable (s : LogStream)

/-- `_run` connects, and the checkpoint may be discarded, which begins another baseline. -/
def connect (discards : Bool) : LogStream :=
  match s.link with
  | .down =>
      { s with
        link := .up
        reconnectRequested := false
        generation := s.generation + if discards then 2 else 1
        base := s.tasks.length }
  | _ => s

/-- `handle_message` and `_enqueue_notification_dispatch` -/
def receive (queueSize : Nat) (signature : String) (slot : Nat) (logs : List String) :
    LogStream :=
  match s.link with
  | .up =>
      let item : LogNotification := ⟨s.received.length, signature, slot, logs, s.generation⟩
      let s := { s with received := s.received ++ [item] }
      if s.reconnectRequested then s
      else
        let s := { s with dispatcher := match s.dispatcher with
          | .absent => .idle
          | dispatcher => dispatcher }
        if queueSize ≤ s.notificationQueue.length then { s with reconnectRequested := true }
        else { s with notificationQueue := s.notificationQueue ++ [item] }
  | _ => s

/-- The dispatcher takes a notification. -/
def take : LogStream :=
  match s.dispatcher, s.notificationQueue with
  | .idle, item :: rest => { s with dispatcher := .holding item, notificationQueue := rest }
  | _, _ => s

/-- `_acquire_log_fetch_permit` and, with a permit, the task. -/
def spawn : LogStream :=
  match s.dispatcher with
  | .holding item =>
      if s.reconnectRequested then { s with dispatcher := .absent }
      else if s.permits = 0 then s
      else
        { s with
          dispatcher := .idle
          permits := s.permits - 1
          tasks := s.tasks ++ [{ item := item, previous := s.tail }]
          tail := some s.tasks.length }
  | _ => s

def setTask (n : Nat) (task : LogTask) : LogStream := { s with tasks := s.tasks.set n task }

/-- A task raises, and its handler runs. -/
def failTask (n : Nat) (task : LogTask) : LogStream :=
  { s.setTask n { task with phase := .failed } with
    fetchErrors := insert n s.fetchErrors
    reconnectRequested := true
    permits := s.permits + 1 }

/-- The task before it is over: the failures are checked, and the transaction is prepared. -/
def check (n : Nat) (task : LogTask) (prepared : Bool) : LogStream :=
  if ∃ failed ∈ s.fetchErrors, failed < n then s.failTask n task
  else if prepared then
    s.setTask n { task with phase := .queueing (transactionProtocols task.item.logs) }
  else s.failTask n task

/-- A task awaits the previous one. -/
def proceed (n : Nat) (task : LogTask) (prepared : Bool) : LogStream :=
  match task.previous.bind (s.tasks[·]?) with
  | none => s.check n task prepared
  | some previous =>
      match previous.phase with
      | .dispatched => s.check n task prepared
      | .failed => s.failTask n task
      | .cancelled =>
          { s.setTask n { task with phase := .cancelled } with permits := s.permits + 1 }
      | _ => s

/-- `_queue.put`, or the end of the task. -/
def put (n : Nat) (task : LogTask) : List Protocol → LogStream
  | protocol :: rest =>
      { s.setTask n { task with phase := .queueing rest, put := task.put ++ [protocol] } with
        queue := s.queue ++ [⟨n, task.item, protocol⟩] }
  | [] =>
      { s.setTask n { task with phase := .dispatched } with
        fetchErrors := s.fetchErrors.erase n
        permits := s.permits + 1 }

/-- A task takes a turn. `succeeds` says whether the lookup finds a block time, or whether
`_queue_transaction` gets to the queue. -/
def runTask (n : Nat) (succeeds : Bool) : LogStream :=
  match s.tasks[n]? with
  | none => s
  | some task =>
      match task.phase with
      | .created => s.setTask n { task with phase := .looking }
      | .looking =>
          if succeeds then s.setTask n { task with phase := .waiting } else s.failTask n task
      | .waiting => s.proceed n task succeeds
      | .queueing rest => s.put n task rest
      | _ => s

/-- `_forget_log_fetch_task` -/
def forget (n : Nat) : LogStream :=
  match s.tasks[n]? with
  | none => s
  | some task =>
      if task.phase.done ∧ s.tail = some n then { s with tail := none } else s

/-- `_cancel_notification_dispatcher` -/
def cancelDispatcher : LogStream :=
  match s.link with
  | .up => { s with link := .closing, dispatcher := .absent }
  | _ => s

/-- The rest of `_cancel_log_fetch_tasks`. A task that has not started does not get to its
`finally`, and keeps its permit. -/
def cancelTasks : LogStream :=
  match s.link with
  | .closing =>
      { s with
        link := .down
        tasks := s.tasks.map LogTask.cancel
        permits := s.permits + s.tasks.countP LogTask.started
        tail := none
        fetchErrors := ∅ }
  | _ => s

end LogStream

inductive LogStep
  | connect (discards : Bool)
  | receive (signature : String) (slot : Nat) (logs : List String)
  | take
  | spawn
  | runTask (n : Nat) (succeeds : Bool)
  | forget (n : Nat)
  | cancelDispatcher
  | cancelTasks

def LogStream.step (queueSize : Nat) (s : LogStream) : LogStep → LogStream
  | .connect discards => s.connect discards
  | .receive signature slot logs => s.receive queueSize signature slot logs
  | .take => s.take
  | .spawn => s.spawn
  | .runTask n succeeds => s.runTask n succeeds
  | .forget n => s.forget n
  | .cancelDispatcher => s.cancelDispatcher
  | .cancelTasks => s.cancelTasks

/-- The gateway as it is made, with the permits of `log_fetch_concurrency`. -/
def LogStream.init (concurrency : Nat) : LogStream := { permits := concurrency }

end SniperBot.Stream
