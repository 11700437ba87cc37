import SniperBot.Basis.Dict
import SniperBot.Basis.Fairness

/-!
# The batcher of transaction requests

`_enqueue_transaction_batch`, the worker, its cleanup and `_send_rpc_batch` of `SolanaRpcClient`
(`solana_rpc.py`) as tasks of one event loop. A step runs one task up to its next `await`, or
cancels a task at the `await` where it is; so every section between two awaits is one step, and any
order of steps is an interleaving.

Requests and workers are numbered. The future of a request has the number of the request, and `ids`
gives the id in its body. `R` holds the results of rows.
-/

namespace SniperBot.Solana

open Basis

/-! ## Responses -/

/-- The field `error` of a JSON object, as far as the code tells its values apart: `absent` stands
for every value that counts as false and is not an object. -/
inductive ErrorField
  | absent
  | emptyObject
  | object
  | other
  deriving DecidableEq, Repr

/-- A JSON object of a response: `id` is there if its type is `int`. -/
structure Row (R : Type) where
  id : Option Int
  error : ErrorField
  result : Option R
  deriving DecidableEq, Repr

/-- `payload.get("error")` counts as true, so that `_call` raises. -/
def Row.isError {R : Type} (row : Row R) : Prop := row.error = .object ∨ row.error = .other

instance {R : Type} (row : Row R) : Decidable row.isError := inferInstanceAs (Decidable (_ ∨ _))

/-- The body of a response. -/
inductive Payload (R : Type)
  /-- `response.json()` raises. -/
  | invalid
  /-- A list, with the items that are objects. -/
  | rows (items : List (Option (Row R)))
  | object (row : Row R)
  /-- Neither a list nor an object. -/
  | other

/-- What the operation that a task awaits comes to. -/
inductive Answer (R : Type)
  | response (statusCode : Nat) (payload : Payload R)
  | raised

variable {R : Type}

/-- `{"error": {"code": "BATCH_INVALID", ...}}` -/
def invalidResponse : Row R := ⟨none, .object, none⟩

/-- `{}` -/
def emptyRow : Row R := ⟨none, .absent, none⟩

/-- One pass of the loop over the rows: the rows by id, and whether the batch is invalid. -/
def collectRow (expectedIds : List Int) (acc : Dict Int (Row R) × Bool) (item : Option (Row R)) :
    Dict Int (Row R) × Bool :=
  match item with
  | none => (acc.1, true)
  | some row =>
      match row.id with
      | none => (acc.1, true)
      | some id =>
          if id ∉ expectedIds ∨ acc.1.contains id then (acc.1, true)
          else (acc.1.set id row, acc.2)

/-- `rows_by_id` and `invalid_batch` -/
def rowsById (expectedIds : List Int) (items : List (Option (Row R))) : Dict Int (Row R) × Bool :=
  let (rows, invalid) := items.foldl (collectRow expectedIds) (Dict.empty, false)
  (rows, invalid || !expectedIds.all fun id => rows.contains id)

/-- The row that each request of a batch gets. -/
def rowOf (ids : Nat → Int) (batch : List Nat) (payload : Payload R) (request : Nat) : Row R :=
  match payload with
  | .object row => if row.error = .object ∨ row.error = .emptyObject then row else invalidResponse
  | .rows items =>
      let (rows, invalid) := rowsById (batch.map ids) items
      if invalid then invalidResponse else (rows.get? (ids request)).getD invalidResponse
  | _ => invalidResponse

/-! ## Tasks -/

inductive Future (R : Type)
  | pending
  | cancelled
  | exception
  /-- `_RpcResponse` -/
  | response (statusCode : Nat) (row : Row R)
  deriving DecidableEq, Repr

/-- `future.done()` -/
def Future.done (future : Future R) : Prop := future ≠ .pending

/-- Where a request is. -/
inductive RequestPhase
  | unborn
  /-- It waits for the lock, to be enqueued. -/
  | entering
  | awaiting
  | cancelled
  | answered
  deriving DecidableEq, Repr

/-- Where a worker is. -/
inductive WorkerPhase (R : Type)
  | unborn
  | created
  | sleeping
  /-- It waits for the lock, to take candidates. -/
  | taking
  /-- `_send_rpc_batch`: `AsyncClient.__aenter__` -/
  | opening (batch : List Nat)
  /-- It waits for the lock of the rate limit. -/
  | acquiring (batch : List Nat)
  /-- `_wait_for_rpc_capacity` for the requests that were active -/
  | pacing (batch active : List Nat)
  | posting (batch : List Nat)
  /-- `AsyncClient.__aexit__`, after a response -/
  | closing (batch : List Nat) (statusCode : Nat) (payload : Payload R)
  /-- `AsyncClient.__aexit__`, without anything to send -/
  | leaving
  /-- It waits for the lock in `finally`. -/
  | finishing (cancelled : Bool)
  /-- It is over by a cancellation, and its cleanup is due. -/
  | stopped
  | returned

/-- The requests that a worker has taken from the pending list and not settled. -/
def WorkerPhase.hand : WorkerPhase R → List Nat
  | .opening batch => batch
  | .acquiring batch => batch
  | .pacing batch _ => batch
  | .posting batch => batch
  | .closing batch _ _ => batch
  | _ => []

structure Batcher (R : Type) where
  /-- `_transaction_batch_pending` -/
  pending : List Nat := []
  /-- `_transaction_batch_flush_task` -/
  flushTask : Option Nat := none
  futures : Nat → Future R := fun _ => .pending
  requests : Nat → RequestPhase := fun _ => .unborn
  workers : Nat → WorkerPhase R := fun _ => .unborn
  nextWorker : Nat := 0
  /-- The batches that were posted. -/
  posted : List (List Nat) := []
  /-- A future that was done has been completed again, which raises `InvalidStateError`. -/
  invalidState : Bool := false

/-- `transaction_batch_size`, which the constructor checks. -/
structure BatchSize where
  size : Nat
  positive : 0 < size

namespace Batcher

variable (b : Batcher R)

def setRequest (f : Nat) (phase : RequestPhase) : Batcher R :=
  { b with requests := Function.update b.requests f phase }

def setWorker (w : Nat) (phase : WorkerPhase R) : Batcher R :=
  { b with workers := Function.update b.workers w phase }

/-- `future.set_result` or `future.set_exception` -/
def complete (f : Nat) (value : Future R) : Batcher R :=
  match b.futures f with
  | .pending => { b with futures := Function.update b.futures f value }
  | _ => { b with invalidState := true }

/-- `if not future.done():` before a completion -/
def completeOpen (value : Nat → Future R) (f : Nat) : Batcher R :=
  match b.futures f with
  | .pending => b.complete f (value f)
  | _ => b

/-- The loop that completes the futures of a batch. -/
def completeAll (batch : List Nat) (value : Nat → Future R) : Batcher R :=
  batch.foldl (fun b f => b.completeOpen value f) b

/-- `future.cancel()` -/
def cancelFuture (f : Nat) : Batcher R :=
  match b.futures f with
  | .pending => { b with futures := Function.update b.futures f .cancelled }
  | _ => b

def cancelAll (batch : List Nat) : Batcher R := batch.foldl cancelFuture b

/-- The requests that are not done. -/
def active (batch : List Nat) : List Nat :=
  batch.filter fun f => match b.futures f with
    | .pending => true
    | _ => false

/-- `_start_transaction_batch_worker` -/
def startWorker : Batcher R :=
  { b.setWorker b.nextWorker .created with
    flushTask := some b.nextWorker
    nextWorker := b.nextWorker + 1 }

/-- The section of `_enqueue_transaction_batch` behind the lock. -/
def enqueue (f : Nat) : Batcher R :=
  let b := { b.setRequest f .awaiting with pending := b.pending ++ [f] }
  match b.flushTask with
  | none => b.startWorker
  | some _ => b

/-- A request takes a turn. -/
def runRequest (f : Nat) : Batcher R :=
  match b.requests f with
  | .entering => b.enqueue f
  | .awaiting =>
      match b.futures f with
      | .pending => b
      | .cancelled => b.setRequest f .cancelled
      | _ => b.setRequest f .answered
  | _ => b

/-- A request is cancelled. -/
def cancelRequest (f : Nat) : Batcher R :=
  match b.requests f with
  | .entering => b.setRequest f .cancelled
  | .awaiting => (b.cancelFuture f).setRequest f .cancelled
  | _ => b

/-- The section of the worker's loop behind the lock, up to the next `await`. -/
def take (size : BatchSize) (w : Nat) : Batcher R :=
  match b.pending with
  | [] => b.setWorker w (.finishing false)
  | _ =>
      let batch := b.active (b.pending.take size.size)
      let b := { b with pending := b.pending.drop size.size }
      if batch = [] then b.setWorker w .taking else b.setWorker w (.opening batch)

/-- The section of `finally` behind the lock, and what follows it. -/
def finish (w : Nat) (cancelled : Bool) : Batcher R :=
  let pendingToCancel := if cancelled then b.pending else []
  let b := if cancelled then { b with pending := [] } else b
  let b := if b.flushTask = some w then { b with flushTask := none } else b
  let b :=
    if cancelled = false ∧ b.pending ≠ [] ∧ b.flushTask = none then b.startWorker else b
  (b.cancelAll pendingToCancel).setWorker w (if cancelled then .stopped else .returned)

/-- `_settle_prestart_cancelled_batch_worker` -/
def settle (w : Nat) : Batcher R :=
  if b.flushTask = some w then
    ({ b with pending := [], flushTask := none }.cancelAll b.pending).setWorker w .returned
  else b.setWorker w .returned

/-- What a response does to the futures of its batch. -/
def respond (ids : Nat → Int) (batch : List Nat) (statusCode : Nat) (payload : Payload R) :
    Batcher R :=
  if statusCode < 200 ∨ 300 ≤ statusCode then
    b.completeAll batch fun _ => .response statusCode emptyRow
  else
    match payload with
    | .invalid => b.completeAll batch fun _ => .exception
    | payload => b.completeAll batch fun f => .response statusCode (rowOf ids batch payload f)

/-- The wait for capacity is over: what is still active is posted. -/
def post (w : Nat) (active : List Nat) : Batcher R :=
  match b.active active with
  | [] => b.setWorker w .leaving
  | batch => { b.setWorker w (.posting batch) with posted := b.posted ++ [batch] }

/-- A worker takes a turn. -/
def runWorker (size : BatchSize) (ids : Nat → Int) (w : Nat) (answer : Answer R) : Batcher R :=
  match b.workers w, answer with
  | .created, _ => b.setWorker w .sleeping
  | .sleeping, _ => b.setWorker w .taking
  | .taking, _ => b.take size w
  | .opening batch, .response _ _ => b.setWorker w (.acquiring batch)
  | .acquiring batch, .response _ _ =>
      match b.active batch with
      | [] => b.setWorker w .leaving
      | active => b.setWorker w (.pacing batch active)
  | .pacing _ active, .response _ _ => b.post w active
  | .posting batch, .response statusCode payload =>
      b.setWorker w (.closing batch statusCode payload)
  | .closing batch statusCode payload, .response _ _ =>
      (b.respond ids batch statusCode payload).setWorker w .taking
  | .opening batch, .raised => (b.completeAll batch fun _ => .exception).setWorker w .taking
  | .acquiring batch, .raised => (b.completeAll batch fun _ => .exception).setWorker w .taking
  | .pacing batch _, .raised => (b.completeAll batch fun _ => .exception).setWorker w .taking
  | .posting batch, .raised => (b.completeAll batch fun _ => .exception).setWorker w .taking
  | .closing batch _ _, .raised => (b.completeAll batch fun _ => .exception).setWorker w .taking
  | .leaving, _ => b.setWorker w .taking
  | .finishing cancelled, _ => b.finish w cancelled
  | .stopped, _ => b.settle w
  | .unborn, _ => b
  | .returned, _ => b

/-- A worker is cancelled. -/
def cancelWorker (w : Nat) : Batcher R :=
  match b.workers w with
  | .created => b.setWorker w .stopped
  | .sleeping => b.setWorker w (.finishing true)
  | .taking => b.setWorker w (.finishing true)
  | .opening batch => (b.cancelAll batch).setWorker w (.finishing true)
  | .acquiring batch => (b.cancelAll batch).setWorker w (.finishing true)
  | .pacing batch _ => (b.cancelAll batch).setWorker w (.finishing true)
  | .posting batch => (b.cancelAll batch).setWorker w (.finishing true)
  | .closing batch _ _ => (b.cancelAll batch).setWorker w (.finishing true)
  | .leaving => b.setWorker w (.finishing true)
  | .finishing _ => b.setWorker w .stopped
  | _ => b

end Batcher

/-- A step of the event loop. -/
inductive Step (R : Type)
  /-- A request is made. -/
  | call (f : Nat)
  | runRequest (f : Nat)
  | runWorker (w : Nat) (answer : Answer R)
  | cancelRequest (f : Nat)
  | cancelWorker (w : Nat)

def Batcher.step (size : BatchSize) (ids : Nat → Int) (b : Batcher R) : Step R → Batcher R
  | .call f =>
      match b.requests f with
      | .unborn => b.setRequest f .entering
      | _ => b
  | .runRequest f => b.runRequest f
  | .runWorker w answer => b.runWorker size ids w answer
  | .cancelRequest f => b.cancelRequest f
  | .cancelWorker w => b.cancelWorker w

end SniperBot.Solana
